import TapeLab.Proofs.Desk.Standing
import TapeLab.Proofs.Workbench.Bounds
import TapeLab.Proofs.Workbench.Calm

/-!
Going back. While steps are made, by hand or in a run, and rules and cells are edited in between,
the history takes a snapshot before every transition; and undoing goes back over them, the last one
first, as far as the bounds of the history promise, however full it was in the beginning.
-/

namespace TapeLab

/-- Operations that make no step themselves, and neither go back nor start over. -/
def Operation.Onward : Operation → Prop
  | .step | .undo | .reset | .loadChallenge _ | .loadTape _ _ | .restore _ => False
  | _ => True

theorem Operation.Onward.not_renews {op : Operation} (hop : op.Onward) (d : Desk) :
    ¬ op.Renews d ∧ op ≠ .step := by
  cases op <;> simp_all [Operation.Onward, Operation.Renews]

namespace Workbench

def beforeStep (w : Workbench) (made : Bool) : List Snapshot :=
  if made && w.desk.machine.rule?.isSome then [w.desk.machine.snapshot] else []

/-- What comes of a workbench by steps, ticks and edits, with what the machine was like before each
transition, the last one first. -/
inductive Onward (start : Workbench) : List Snapshot → Workbench → Prop
  | start : Onward start [] start
  | edit {befores : List Snapshot} {w : Workbench} {op : Operation} :
      Onward start befores w → op.Onward → Onward start befores (w.perform op).1
  | step {befores : List Snapshot} {w : Workbench} :
      Onward start befores w →
      Onward start (w.beforeStep (!w.desk.running) ++ befores) (w.perform .step).1
  | tick {befores : List Snapshot} {w : Workbench} {id : Nat} {a : Agenda Alarm} :
      Onward start befores w → w.desk.agenda.alarms.Perm ((id, .tick) :: a.alarms) →
      a.next = w.desk.agenda.next →
      Onward start (w.beforeStep w.desk.running ++ befores) ((w.withAgenda a).fire .tick)
  | keeper {befores : List Snapshot} {w : Workbench} {id : Nat} {alarm : KeeperAlarm}
      {a : Agenda Alarm} :
      Onward start befores w → w.desk.agenda.alarms.Perm ((id, .keeper alarm) :: a.alarms) →
      a.next = w.desk.agenda.next →
      Onward start befores ((w.withAgenda a).fire (.keeper alarm))
  | pass {befores : List Snapshot} {w : Workbench} {a : Agenda Alarm} :
      Onward start befores w → w.desk.agenda.alarms.Perm a.alarms →
      w.desk.agenda.next ≤ a.next → Onward start befores (w.withAgenda a)

def undoMany : Nat → Workbench → Workbench
  | 0, w => w
  | n + 1, w => ((undoMany n w).perform .undo).1

variable {c : Catalog} {may : Operation → Prop} {w start : Workbench} {befores : List Snapshot}

theorem Onward.reachable (h : Onward start befores w) (hstart : Reachable c may start) :
    Reachable c may w := by
  induction h with
  | start => exact hstart
  | edit _ hop ih =>
    refine ih.perform (.plain ?_)
    rintro s rfl
    exact hop
  | step _ ih => exact ih.perform (.plain (by simp))
  | tick _ halarms hnext ih => exact ih.fire halarms hnext
  | keeper _ halarms hnext ih => exact ih.fire halarms hnext
  | pass _ halarms hnext ih => exact ih.pass halarms hnext

theorem history_advanced (u : Work) (hon : u.machine.OnTape) :
    u.advanced.machine.history =
      if u.machine.rule?.isSome then u.machine.history.push u.machine.snapshot
      else u.machine.history := by
  rw [Work.advanced_history]
  cases hrule : u.machine.rule? with
  | some r => rw [Machine.step_of_rule hon hrule]; rfl
  | none =>
    obtain ⟨message, lastStep, hstep⟩ := Machine.step_of_no_rule hrule
    rw [hstep]
    rfl

theorem history_onward {op : Operation} (hop : op.Onward) (d : Desk) :
    (op.apply d).desk.machine.history = d.machine.history := by
  obtain ⟨hrenews, hstep⟩ := hop.not_renews d
  exact congrArg Standing.history (Operation.standing_apply hrenews hstep)

theorem history_perform_step (hcalm : Calm w.listeners) (hon : w.desk.machine.OnTape) :
    (w.perform .step).1.desk.machine.history =
      if !w.desk.running && w.desk.machine.rule?.isSome then
        w.desk.machine.history.push w.desk.machine.snapshot
      else w.desk.machine.history := by
  have hwork : (w.perform .step).1.desk.work = w.desk.step.desk.work := (calm_perform hcalm _).2.1
  rw [show (w.perform .step).1.desk.machine = w.desk.step.desk.work.machine from
    congrArg Work.machine hwork]
  unfold Desk.step
  cases hrunning : w.desk.running with
  | true => rfl
  | false =>
    cases hhalted : w.desk.machine.halted with
    | true =>
      have hrule : w.desk.machine.rule? = none := Machine.rule?_eq_none_iff.2 (.inl hhalted)
      rw [hrule]
      rfl
    | false =>
      simp only [Bool.or_false, Bool.false_eq_true, if_false, Bool.not_false, Bool.true_and]
      rw [Desk.work_advance]
      exact history_advanced _ hon

theorem history_tick (hcalm : Calm w.listeners) (hon : w.desk.machine.OnTape) :
    w.tick.desk.machine.history =
      if w.desk.running && w.desk.machine.rule?.isSome then
        w.desk.machine.history.push w.desk.machine.snapshot
      else w.desk.machine.history := by
  have hwork := (calm_tick hcalm).2
  rw [show w.tick.desk.machine = w.tick.desk.work.machine from rfl, hwork]
  cases w.desk.running with
  | true =>
    simp only [if_true, Bool.true_and]
    exact history_advanced _ hon
  | false => rfl

/-- The newest entries of the history are the snapshots before the transitions, as long as these are
no more than the bounds promise to keep. -/
structure Recorded (start w : Workbench) (befores : List Snapshot) : Prop where
  listeners : w.listeners = start.listeners
  bounds : w.desk.machine.history.bounds = start.desk.machine.history.bounds
  newest : befores.length ≤ start.desk.machine.history.bounds.cap -
      start.desk.machine.history.bounds.drop + 1 →
    befores <+: w.desk.machine.history.entries

theorem Recorded.same {v : Workbench} (h : Recorded start w befores)
    (hlisteners : v.listeners = w.listeners)
    (hhistory : v.desk.machine.history = w.desk.machine.history) : Recorded start v befores where
  listeners := hlisteners.trans h.listeners
  bounds := by rw [hhistory, h.bounds]
  newest := by rw [hhistory]; exact h.newest

theorem Recorded.moved {v : Workbench} {made : Bool} (h : Recorded start w befores)
    (hlisteners : v.listeners = w.listeners)
    (hhistory : v.desk.machine.history =
      if made && w.desk.machine.rule?.isSome then
        w.desk.machine.history.push w.desk.machine.snapshot
      else w.desk.machine.history) : Recorded start v (w.beforeStep made ++ befores) := by
  unfold beforeStep
  cases hmoved : made && w.desk.machine.rule?.isSome with
  | false =>
    rw [hmoved] at hhistory
    exact h.same hlisteners hhistory
  | true =>
    rw [hmoved] at hhistory
    simp only [if_true] at hhistory
    refine ⟨hlisteners.trans h.listeners, ?_, fun hlength => ?_⟩
    · rw [hhistory, History.bounds_push, h.bounds]
    · simp only [if_true, List.cons_append, List.nil_append, List.length_cons] at hlength ⊢
      rw [hhistory]
      refine History.prefix_push (h.newest (by omega)) ?_
      rw [h.bounds]
      omega

theorem Onward.recorded (h : Onward start befores w) (hstart : Reachable c may start)
    (hcalm : Calm start.listeners) : Recorded start w befores := by
  induction h with
  | start => exact ⟨rfl, rfl, fun _ => List.nil_prefix⟩
  | @edit befores w op honward hop ih =>
    have hw : Calm w.listeners := ih.listeners ▸ hcalm
    obtain ⟨hlisteners, hwork, -⟩ := calm_perform hw op
    refine ih.same hlisteners ?_
    exact (congrArg (fun u => u.machine.history) hwork).trans (history_onward hop w.desk)
  | @step befores w honward ih =>
    have hw : Calm w.listeners := ih.listeners ▸ hcalm
    have hon := (honward.reachable hstart).bounded.machine.onTape
    exact ih.moved (calm_perform hw _).1 (history_perform_step hw hon)
  | @tick befores w id a honward _ _ ih =>
    have hw : Calm w.listeners := ih.listeners ▸ hcalm
    have hon := (honward.reachable hstart).bounded.machine.onTape
    exact ih.moved (calm_tick (w := w.withAgenda a) hw).1
      (history_tick (w := w.withAgenda a) hw hon)
  | @keeper befores w id alarm a honward _ _ ih =>
    refine ih.same rfl ?_
    have hwork := Desk.work_answerKeeper (w.withAgenda a).desk alarm
    exact congrArg (fun u => u.machine.history) hwork
  | pass _ _ _ ih => exact ih.same rfl rfl

theorem perform_undo (hcalm : Calm w.listeners) (hidle : w.desk.running = false) {s : Snapshot}
    {rest : List Snapshot} (hentries : w.desk.machine.history.entries = s :: rest) :
    (w.perform .undo).2 = (w.announced .undo).2.elim (.ok (.flag true)) .error ∧
    (w.perform .undo).1.listeners = w.listeners ∧
    (w.perform .undo).1.desk.running = false ∧
    (w.perform .undo).1.desk.machine =
      { w.desk.machine with
        tape := .ofCells s.cells
        head := s.head
        state := s.state
        steps := s.steps
        history := { w.desk.machine.history with entries := rest }
        halted := false
        won := false
        message := ""
        lastStep := ""
        active := none
        changed := none } := by
  have hpop : w.desk.machine.history.pop? =
      some (s, { w.desk.machine.history with entries := rest }) :=
    History.pop?_eq_some_iff.2 ⟨hentries, rfl⟩
  obtain ⟨m, hm⟩ : ∃ m, w.desk.machine.undo? = some m := ⟨_, by rw [Machine.undo?, hpop]; rfl⟩
  obtain ⟨v, hv, hlisteners, hstopped, hwork⟩ := calm_undo hcalm hidle hm
  rw [Machine.undo?, hpop] at hm
  rw [hv]
  exact ⟨rfl, hlisteners, hstopped, (congrArg Work.machine hwork).trans (Option.some.inj hm).symm⟩

theorem undoMany_undoes {n : Nat} (hcalm : Calm w.listeners) (hidle : w.desk.running = false)
    (hn : n ≤ w.desk.machine.history.size) :
    (undoMany n w).listeners = w.listeners ∧ (undoMany n w).desk.running = false ∧
      (undoMany n w).desk.machine.history.entries = w.desk.machine.history.entries.drop n := by
  induction n with
  | zero => exact ⟨rfl, hidle, rfl⟩
  | succ n ih =>
    obtain ⟨hlisteners, hidle', hentries⟩ := ih (by omega)
    have hn' : n < w.desk.machine.history.entries.length := hn
    rw [List.drop_eq_getElem_cons hn'] at hentries
    obtain ⟨-, hlisteners', hidle'', hmachine⟩ :=
      perform_undo (hlisteners ▸ hcalm) hidle' hentries
    refine ⟨hlisteners'.trans hlisteners, hidle'', ?_⟩
    show ((undoMany n w).perform .undo).1.desk.machine.history.entries = _
    rw [hmachine]

/-- After at most `cap - drop + 1` transitions, with edits in between, as many undos succeed, unless
a listener that is told of them fails, and each of them puts the machine back to what it was before
one transition more. -/
theorem undo_retraces (hstart : Reachable c may start) (hcalm : Calm start.listeners)
    (honward : Onward start befores w)
    (hlength : befores.length ≤ start.desk.machine.history.bounds.cap -
      start.desk.machine.history.bounds.drop + 1)
    (hidle : w.desk.running = false) (j : Nat) (hj : j < befores.length) :
    ((undoMany j w).perform .undo).2 =
      ((undoMany j w).announced .undo).2.elim (.ok (.flag true)) .error ∧
    (undoMany (j + 1) w).desk.machine.snapshot = befores[j] ∧
    (undoMany (j + 1) w).desk.machine.halted = false ∧
    (undoMany (j + 1) w).desk.machine.won = false ∧
    (undoMany (j + 1) w).desk.machine.message = "" ∧
    (undoMany (j + 1) w).desk.machine.lastStep = "" ∧
    (undoMany (j + 1) w).desk.machine.active = none ∧
    (undoMany (j + 1) w).desk.machine.changed = none := by
  have hrecorded := honward.recorded hstart hcalm
  have hw : Calm w.listeners := hrecorded.listeners ▸ hcalm
  have hnewest := hrecorded.newest hlength
  have hsize : j < w.desk.machine.history.entries.length :=
    Nat.lt_of_lt_of_le hj hnewest.length_le
  have hentry : w.desk.machine.history.entries[j] = befores[j] := (hnewest.getElem hj).symm
  have hcells : befores[j].cells ≠ [] := by
    rw [← hentry]
    exact ((honward.reachable hstart).bounded.machine.history _ (List.getElem_mem hsize)).1
  obtain ⟨hlisteners, hidle', hentries⟩ := undoMany_undoes hw hidle (Nat.le_of_lt hsize)
  rw [List.drop_eq_getElem_cons hsize, hentry] at hentries
  obtain ⟨hanswer, -, -, hmachine⟩ := perform_undo (hlisteners ▸ hw) hidle' hentries
  have hundone : (undoMany (j + 1) w).desk.machine =
      ((undoMany j w).perform .undo).1.desk.machine := rfl
  rw [hundone, hmachine]
  refine ⟨hanswer, ?_, rfl, rfl, rfl, rfl, rfl, rfl⟩
  simp [Machine.snapshot, Tape.cells_ofCells hcells]

theorem unfailing_undoMany (n : Nat) (h : w.Unfailing) : (undoMany n w).Unfailing := by
  induction n with
  | zero => exact h
  | succ n ih => exact ih.perform .undo

/-- Two steps with an edit in between are undone. -/
theorem undo_retraces_around_edit :
    ∃ w befores, Onward firstBench befores w ∧ befores.map Snapshot.steps = [1, 0] ∧
      ∀ (j : Nat) (hj : j < befores.length),
        ((undoMany j w).perform .undo).2 = .ok (.flag true) ∧
        (undoMany (j + 1) w).desk.machine.snapshot = befores[j] := by
  have hstart : Onward firstBench [] firstBench := .start
  have hedit : (Operation.editCell 3 "x").Onward := trivial
  have honward := (hstart.step.edit hedit).step
  refine ⟨_, _, honward, by decide +kernel, fun j hj => ?_⟩
  have h := undo_retraces (reachable_firstBench fun _ => False) (modest_new _ _) honward
    (by decide +kernel) (by decide +kernel) j hj
  have hfirst : firstBench.Unfailing := unfailing_of_nil rfl
  have hedited := (hfirst.perform .step).perform (.editCell 3 "x")
  have hfine := unfailing_undoMany j (hedited.perform .step)
  exact ⟨h.1.trans (by rw [hfine.announced]; rfl), h.2.1⟩

end Workbench

end TapeLab
