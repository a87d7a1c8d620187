import TapeLab.Proofs.Desk.Standing
import TapeLab.Proofs.Workbench.Geared

/-!
Winning. The trail of a workbench is what its machine was like after each transition since it was
loaded or went back. It ends where the halting state is entered, and a machine has won just if its
trail enters that state with the expected symbols on the tape.
-/

namespace TapeLab

theorem initialState_ne_haltState : initialState ≠ haltState := by decide

def Snapshot.Meets (challenge : Challenge) (s : Snapshot) : Prop :=
  ∃ expected, challenge.expected = some expected ∧ written s.cells = written expected

def Machine.afterStep (m : Machine) : List Snapshot :=
  if m.rule?.isSome then [m.step.1.snapshot] else []

/-- How a machine stands whose transitions, the last one first, have left such snapshots. -/
structure Standing.Judged (trail : List Snapshot) (s : Standing) : Prop where
  halted : s.state = haltState → s.halted = true
  history : ∀ t ∈ s.history.entries, t.state ≠ haltState
  before : ∀ t ∈ trail.tail, t.state ≠ haltState
  going : s.state ≠ haltState → ∀ t ∈ trail, t.state ≠ haltState
  won : ∀ challenge, s.catalog.get s.index = .ok challenge →
    (s.won = true ↔ ∃ t ∈ trail, t.state = haltState ∧ t.Meets challenge)

namespace Standing

variable {s : Standing} {trail : List Snapshot}

theorem judged_nil (hstate : s.state ≠ haltState)
    (hhistory : ∀ t ∈ s.history.entries, t.state ≠ haltState) (hwon : s.won = false) :
    s.Judged [] where
  halted h := absurd h hstate
  history := hhistory
  before _ h := absurd h List.not_mem_nil
  going _ _ h := absurd h List.not_mem_nil
  won challenge _ := by simp [hwon]

theorem Judged.state_of_won (h : s.Judged trail) {challenge : Challenge}
    (hget : s.catalog.get s.index = .ok challenge) (hwon : s.won = true) :
    s.state = haltState ∧ challenge.expected.isSome = true := by
  obtain ⟨t, ht, hstate, expected, hexpected, -⟩ := (h.won challenge hget).1 hwon
  refine ⟨?_, by simp [hexpected]⟩
  by_contra hnot
  exact h.going hnot t ht hstate

end Standing

namespace Work

variable {u : Work} {trail : List Snapshot}

theorem judged_advanced (h : u.standing.Judged trail) (hbounded : u.Bounded) :
    u.advanced.standing.Judged (u.machine.afterStep ++ trail) := by
  have hon := hbounded.machine.onTape
  cases hrule : u.machine.rule? with
  | none =>
    have hafter : u.machine.afterStep = [] := by simp [Machine.afterStep, hrule]
    rw [standing_advanced_of_no_rule hrule, hafter]
    exact ⟨fun _ => rfl, h.history, h.before, h.going, h.won⟩
  | some r =>
    obtain ⟨c, hc⟩ := u.catalog.get_eq_ok hbounded.index.1 hbounded.index.2
    have hstate : u.machine.state ≠ haltState := (Machine.rule?_eq_some_iff.1 hrule).2.1
    -- a machine that can make a transition has not entered the halting state since it was loaded
    have hearlier := h.going hstate
    have hwon : u.machine.won = false := by
      cases hwon : u.machine.won with
      | false => rfl
      | true => exact absurd (h.state_of_won hc hwon).1 hstate
    have hafter : u.machine.afterStep = [(u.machine.applied r).snapshot] := by
      simp [Machine.afterStep, hrule, Machine.step_of_rule hon hrule]
    rw [standing_advanced_of_rule hon hrule, hafter]
    refine ⟨fun hnext => by simpa using hnext, fun t ht => ?_, hearlier, fun hnext t ht => ?_,
      fun challenge hget => ?_⟩
    · rcases History.mem_push ht with rfl | hmem
      · exact hstate
      · exact h.history t hmem
    · rcases List.mem_cons.1 ht with rfl | hmem
      · exact hnext
      · exact hearlier t hmem
    · have hnext : u.advanced.machine.state = r.next :=
        congrArg Standing.state (standing_advanced_of_rule hon hrule)
      have htape : u.advanced.machine.tape = (u.machine.applied r).tape := by
        simp only [advanced, Machine.step_of_rule hon hrule, judged_tape]
      show u.advanced.machine.won = true ↔ _
      rw [advanced_won hget hon hwon hstate, hnext, Meets, htape]
      constructor
      · rintro ⟨hhalt, hmeets⟩
        exact ⟨_, List.mem_cons_self, hhalt, hmeets⟩
      · rintro ⟨t, ht, hhalt, hmeets⟩
        rcases List.mem_cons.1 ht with rfl | hmem
        · exact ⟨hhalt, hmeets⟩
        · exact absurd hhalt (hearlier t hmem)

end Work

theorem Operation.not_renews_of_running {d : Desk} {op : Operation} (hrunning : d.running = true)
    (hends : ¬ op.Ends d.catalog.challenges.length) : ¬ op.Renews d := by
  cases op with
  | reset => exact absurd trivial hends
  | loadTape cells head => exact absurd trivial hends
  | restore s => exact absurd trivial hends
  | loadChallenge index => exact hends
  | undo =>
    intro hundone
    rw [Operation.Renews, Desk.undo, if_pos hrunning] at hundone
    cases hundone
  | _ => exact id

namespace Desk

variable {d : Desk}

/-- No tick is waited for when the machine has halted. -/
def Eased (d : Desk) : Prop := d.machine.halted = true → d.pacer.handle = none

theorem InStep.eased (h : d.InStep True) : d.Eased := by
  intro hhalted
  have hidle : d.running = false := by
    cases hrunning : d.running with
    | false => rfl
    | true => cases hhalted.symm.trans (h.running trivial hrunning)
  simpa [hidle] using h.awaited trivial

theorem Eased.run (h : d.Eased) : d.run.desk.Eased := by
  rw [run_eq]
  split
  · next hfree =>
    split
    · exact fun hhalted => absurd (hfree.2.symm.trans hhalted) Bool.false_ne_true
    · exact h
  · exact h

theorem Eased.apply (h : d.Eased) (hgeared : d.Geared) (op : Operation) :
    (op.apply d).desk.Eased := by
  by_cases hrun : op = .run
  · subst hrun
    exact h.run
  · intro hhalted
    have hturns := op.turns hrun d
    cases hrunning : d.running with
    | false => exact hturns.handle (hgeared.awaited hrunning)
    | true =>
      by_cases hends : op.Ends d.catalog.challenges.length
      · rw [Operation.pacer_of_ends hrunning hends]
        rfl
      · refine hturns.handle (h ?_)
        by_cases hstep : op = .step
        · subst hstep
          have hsame : d.step.desk = d := by
            rw [Desk.step, hrunning]
            rfl
          exact (congrArg (fun e => e.machine.halted) hsame).symm.trans hhalted
        · have hrenews := Operation.not_renews_of_running hrunning hends
          have hsame := Operation.standing_apply hrenews hstep
          exact (congrArg Standing.halted hsame).symm.trans hhalted

theorem handle_endTick_false (d : Desk) : (d.endTick false).pacer.handle = d.pacer.handle := by
  unfold endTick Pacer.endTick
  cases d.pacer.running <;> rfl

end Desk

theorem steady_eased : Workbench.Steady Operation.Calming Desk.Eased where
  note _ _ h := h
  save d h := by
    intro hhalted
    rw [d.pacer_scheduleSave]
    exact h ((congrArg (fun u => u.machine.halted) d.work_scheduleSave).symm.trans hhalted)
  apply d op hop h := by
    intro hhalted
    have hwork := hop.pacing.work d
    exact (op.turns hop.ne_run d).handle
      (h ((congrArg (fun u => u.machine.halted) hwork).symm.trans hhalted))

namespace Workbench

variable {c : Catalog} {trail : List Snapshot} {w : Workbench}

/-- Workbenches with challenges `c` whose listeners let no run begin, and the trails of their
machines: a load, or going back, begins a new one. -/
inductive Traced (c : Catalog) : List Snapshot → Workbench → Prop
  | new {settings : Settings} {store : Option (Path × Time × Int)} {disk : Tree} {loop : Bool}
      {d : Desk} {host : Host} :
      Desk.new settings c (store.map fun s => Keeper.new s.1 s.2.1 s.2.2) disk loop = .ok d →
      Traced c [] (.new host d)
  | enter {trail : List Snapshot} {w : Workbench} : Traced c trail w → Traced c trail w.enterLoop
  | renew {trail : List Snapshot} {w : Workbench} {op : Operation} :
      Traced c trail w → Restores (Work.Fits c) op → op.Renews w.desk →
      Traced c [] (w.perform op).1
  | perform {trail : List Snapshot} {w : Workbench} {op : Operation} :
      Traced c trail w → Restores (Work.Fits c) op → ¬ op.Renews w.desk → op ≠ .step →
      Traced c trail (w.perform op).1
  | step {trail : List Snapshot} {w : Workbench} :
      Traced c trail w →
      Traced c ((if w.desk.running then [] else w.desk.machine.afterStep) ++ trail)
        (w.perform .step).1
  | tick {trail : List Snapshot} {w : Workbench} {id : Nat} {a : Agenda Alarm} :
      Traced c trail w → w.desk.agenda.alarms.Perm ((id, .tick) :: a.alarms) →
      a.next = w.desk.agenda.next →
      Traced c ((if w.desk.running then w.desk.machine.afterStep else []) ++ trail)
        ((w.withAgenda a).fire .tick)
  | keeper {trail : List Snapshot} {w : Workbench} {id : Nat} {alarm : KeeperAlarm}
      {a : Agenda Alarm} :
      Traced c trail w → w.desk.agenda.alarms.Perm ((id, .keeper alarm) :: a.alarms) →
      a.next = w.desk.agenda.next → Traced c trail ((w.withAgenda a).fire (.keeper alarm))
  | pass {trail : List Snapshot} {w : Workbench} {a : Agenda Alarm} :
      Traced c trail w → w.desk.agenda.alarms.Perm a.alarms → w.desk.agenda.next ≤ a.next →
      Traced c trail (w.withAgenda a)
  | subscribe {trail : List Snapshot} {w : Workbench} {l : Listener} :
      Traced c trail w → (∀ op, l.Asks op → op.Calming) → Traced c trail (w.subscribe l)
  | unsubscribe {trail : List Snapshot} {w v : Workbench} {key : String} :
      Traced c trail w → w.unsubscribe? key = some v → Traced c trail v

theorem Traced.arises (h : Traced c trail w) :
    Arises c (Work.Fits c) (Reaction.Asking Operation.Calming) w := by
  have hplain {op : Operation} (hop : ∀ s, op ≠ .restore s) : Restores (Work.Fits c) op :=
    fun s hs => absurd hs (hop s)
  induction h with
  | new h => exact .new h
  | enter _ ih => exact .enter ih
  | renew _ hop _ ih => exact .perform ih hop
  | perform _ hop _ _ ih => exact .perform ih hop
  | step _ ih => exact .perform ih (hplain (by simp))
  | tick _ halarms hnext ih => exact .stir ih (.fire halarms hnext)
  | keeper _ halarms hnext ih => exact .stir ih (.fire halarms hnext)
  | pass _ halarms hnext ih => exact .stir ih (.pass halarms hnext)
  | subscribe _ hl ih =>
    refine .subscribe ih (fun d r hr => ?_) fun op hop => ?_
    · cases r with
      | perform op => exact hl op ⟨d, hr⟩
      | _ => trivial
    · rintro s rfl
      exact (hl _ hop).elim
  | unsubscribe _ h ih => exact .unsubscribe ih h

theorem Traced.orderly (h : Traced c trail w) :
    Orderly c False (Reaction.Asking Operation.Calming) w := h.arises.orderly_of_any

theorem Arises.traced (h : Arises c (Work.Fits c) (Reaction.Asking Operation.Calming) w) :
    ∃ trail, Traced c trail w := by
  induction h with
  | new h => exact ⟨[], .new h⟩
  | enter _ ih =>
    obtain ⟨trail, htrail⟩ := ih
    exact ⟨trail, htrail.enter⟩
  | @perform w op _ hop ih =>
    obtain ⟨trail, htrail⟩ := ih
    by_cases hrenews : op.Renews w.desk
    · exact ⟨[], htrail.renew hop hrenews⟩
    · by_cases hstep : op = .step
      · subst hstep
        exact ⟨_, htrail.step⟩
      · exact ⟨trail, htrail.perform hop hrenews hstep⟩
  | stir _ hv ih =>
    obtain ⟨trail, htrail⟩ := ih
    cases hv with
    | @fire id alarm a halarms hnext =>
      cases alarm with
      | tick => exact ⟨_, htrail.tick halarms hnext⟩
      | keeper alarm => exact ⟨trail, htrail.keeper halarms hnext⟩
    | pass halarms hnext => exact ⟨trail, htrail.pass halarms hnext⟩
  | subscribe _ hl _ ih =>
    obtain ⟨trail, htrail⟩ := ih
    exact ⟨trail, htrail.subscribe fun op ⟨d, hd⟩ => hl d _ hd⟩
  | unsubscribe _ h ih =>
    obtain ⟨trail, htrail⟩ := ih
    exact ⟨trail, htrail.unsubscribe h⟩

theorem judged_perform_step (h : w.desk.work.standing.Judged trail) (hcalm : Calm w.listeners)
    (hbounded : w.desk.work.Bounded) :
    (w.perform .step).1.desk.work.standing.Judged
      ((if w.desk.running then [] else w.desk.machine.afterStep) ++ trail) := by
  have hwork : (w.perform .step).1.desk.work = w.desk.step.desk.work := (calm_perform hcalm _).2.1
  rw [hwork]
  unfold Desk.step
  cases hrunning : w.desk.running with
  | true => exact h
  | false =>
    cases hhalted : w.desk.machine.halted with
    | true =>
      have hrule : w.desk.machine.rule? = none := Machine.rule?_eq_none_iff.2 (.inl hhalted)
      simp only [Bool.or_true, if_true, Machine.afterStep, hrule]
      exact h
    | false =>
      simp only [Bool.or_false, Bool.false_eq_true, if_false]
      rw [Desk.work_advance]
      exact Work.judged_advanced h hbounded

theorem judged_tick (h : w.desk.work.standing.Judged trail) (hcalm : Calm w.listeners)
    (hbounded : w.desk.work.Bounded) :
    w.tick.desk.work.standing.Judged
      ((if w.desk.running then w.desk.machine.afterStep else []) ++ trail) := by
  rw [(calm_tick hcalm).2]
  cases w.desk.running with
  | true => exact Work.judged_advanced h hbounded
  | false => exact h

theorem judged_renew (h : w.desk.work.standing.Judged trail) (hcalm : Calm w.listeners)
    (hbounded : w.desk.work.Bounded) (hcatalog : w.desk.catalog = c) {op : Operation}
    (hop : Restores (Work.Fits c) op) (hrenews : op.Renews w.desk) :
    (w.perform op).1.desk.work.standing.Judged [] := by
  rw [(calm_perform hcalm op).2.1]
  obtain ⟨hstate, hwon, hhistory⟩ := hrenews.renewed hbounded (hcatalog ▸ hop)
  refine Standing.judged_nil (fun hhalt => ?_) (fun t ht => h.history t (hhistory t ht)) hwon
  rcases hstate with hinitial | ⟨s, hs, hsame⟩
  · exact initialState_ne_haltState (hinitial.symm.trans hhalt)
  · exact h.history s hs (hsame.symm.trans hhalt)

theorem Traced.judged (h : Traced c trail w) : w.desk.work.standing.Judged trail := by
  induction h with
  | new hd =>
    obtain ⟨first, rest, hc, hwork⟩ := work_of_new hd
    rw [desk_new, hwork]
    exact Standing.judged_nil initialState_ne_haltState (fun _ hs => absurd hs List.not_mem_nil) rfl
  | enter _ ih => exact ih
  | renew h hop hrenews ih =>
    exact judged_renew ih h.orderly.modest h.orderly.bounded h.orderly.catalog hop hrenews
  | @perform trail w op h hop hrenews hstep ih =>
    rw [(calm_perform h.orderly.modest op).2.1, Operation.standing_apply hrenews hstep]
    exact ih
  | step h ih => exact judged_perform_step ih h.orderly.modest h.orderly.bounded
  | @tick _ w _ a h _ _ ih =>
    have hls := h.orderly.modest
    have hbounded := h.orderly.bounded
    exact judged_tick (w := w.withAgenda a) ih hls hbounded
  | @keeper trail w id alarm a _ _ _ ih =>
    have hwork := (w.withAgenda a).desk.work_answerKeeper alarm
    show Standing.Judged trail ((w.withAgenda a).desk.answerKeeper alarm).work.standing
    rw [hwork]
    exact ih
  | pass _ _ _ ih => exact ih
  | subscribe _ _ ih => exact ih
  | unsubscribe _ h ih =>
    obtain rfl := unsubscribe?_cases h
    exact ih

theorem eased_perform (hcalm : Calm w.listeners) (hgeared : w.desk.Geared) (h : w.desk.Eased)
    (op : Operation) : (w.perform op).1.desk.Eased :=
  (steady_eased.perform hcalm (h.apply hgeared op)).desk

theorem eased_tick (hcalm : Calm w.listeners) (hbounded : w.desk.work.Bounded)
    (hgeared : w.desk.Geared) {id : Nat} {a : Agenda Alarm}
    (halarms : w.desk.agenda.alarms.Perm ((id, .tick) :: a.alarms))
    (hnext : a.next = w.desk.agenda.next) : (w.withAgenda a).tick.desk.Eased := by
  intro hhalted
  cases hrunning : w.desk.running with
  | false => rw [tick_of_idle (w := w.withAgenda a) hrunning]; rfl
  | true =>
    have hunheld :=
      (unheld_stepAnnounced (fun _ hop => hop.ne_run) hcalm hgeared halarms hnext).desk
    have hwork : (w.withAgenda a).tick.desk.work = (w.withAgenda a).desk.work.advanced := by
      rw [(calm_tick (w := w.withAgenda a) hcalm).2]
      exact if_pos hrunning
    have hover : (w.withAgenda a).desk.work.advanced.machine.halted = true := by
      rw [← hwork]
      exact hhalted
    rw [tick_eq_endTick (w := w.withAgenda a) hbounded hrunning, hover]
    generalize (w.withAgenda a).stepAnnounced = r at hunheld
    obtain ⟨v, _ | fault⟩ := r
    · exact (v.desk.handle_endTick_false).trans hunheld.handle
    · exact hunheld.handle

theorem Traced.geared (h : Traced c trail w) : w.desk.Geared :=
  (h.arises.geared fun _ _ hop => hop.ne_run).2

theorem Traced.eased (h : Traced c trail w) : w.desk.Eased := by
  induction h with
  | new hd => exact (inStep_new hd).eased
  | enter _ ih => exact ih
  | renew h _ _ ih => exact eased_perform h.orderly.modest h.geared ih _
  | perform h _ _ _ ih => exact eased_perform h.orderly.modest h.geared ih _
  | step h ih => exact eased_perform h.orderly.modest h.geared ih _
  | tick h halarms hnext _ =>
    exact eased_tick h.orderly.modest h.orderly.bounded h.geared halarms hnext
  | @keeper _ w id alarm a _ _ _ ih =>
    intro hhalted
    have hpacer := (w.withAgenda a).desk.pacer_answerKeeper alarm
    have hwork := (w.withAgenda a).desk.work_answerKeeper alarm
    exact (congrArg Pacer.handle hpacer).trans
      (ih ((congrArg (fun u => u.machine.halted) hwork).symm.trans hhalted))
  | pass _ _ _ ih => exact ih
  | subscribe _ _ ih => exact ih
  | unsubscribe _ h ih =>
    obtain rfl := unsubscribe?_cases h
    exact ih

/-- Whatever is done at a workbench, in any order and while runs are going on: a machine in the
halting state has halted. It has won just if since it was loaded, or went back, a transition into
the halting state has left the symbols that its challenge expects; and this transition has been the
last one. While it has won, it is in the halting state, no timer is set for a tick, and neither a
step nor a run is accepted; no run is going on, if listeners have always been harmless. So a machine
that has halted for want of a rule has not won, and none wins at a sandbox. -/
theorem won_iff_trail (h : Traced c trail w) :
    ∃ challenge, w.desk.challenge = .ok challenge ∧
    (w.desk.machine.state = haltState → w.desk.machine.halted = true) ∧
    (w.desk.machine.won = true → w.desk.machine.halted = true ∧
      w.desk.machine.state = haltState ∧ challenge.expected.isSome = true) ∧
    (w.desk.machine.won = true ↔ ∃ s ∈ trail, s.state = haltState ∧
      ∃ expected, challenge.expected = some expected ∧ written s.cells = written expected) ∧
    (∀ s ∈ trail.tail, s.state ≠ haltState) ∧
    (w.desk.machine.won = true → w.desk.ticks = [] ∧
      w.perform .step = (w, .ok (.flag false)) ∧ w.perform .run = (w, .ok (.flag false)) ∧
      (Arises c (Work.Fits c) Reaction.Harmless w → w.desk.running = false)) ∧
    (w.desk.machine.state ≠ haltState → w.desk.machine.won = false) ∧
    (challenge.sandbox = true → w.desk.machine.won = false) := by
  have hin := h.orderly
  obtain ⟨challenge, hc⟩ :=
    w.desk.catalog.get_eq_ok hin.bounded.index.1 hin.bounded.index.2
  have hjudged := h.judged
  have hstands (hwon : w.desk.machine.won = true) :
      w.desk.machine.state = haltState ∧ challenge.expected.isSome = true :=
    hjudged.state_of_won hc hwon
  have hhalted (hwon : w.desk.machine.won = true) : w.desk.machine.halted = true :=
    hjudged.halted (hstands hwon).1
  refine ⟨challenge, hc, hjudged.halted, fun hwon => ⟨hhalted hwon, hstands hwon⟩,
    hjudged.won challenge hc, hjudged.before, fun hwon => ?_, fun hstate => ?_, fun hsandbox => ?_⟩
  · refine ⟨h.geared.ticks_of_handle (h.eased (hhalted hwon)), ?_, ?_, fun harises => ?_⟩
    · have hstep : w.desk.step = .refused w.desk false := by
        rw [Desk.step, hhalted hwon, Bool.or_true]
        rfl
      unfold perform Operation.apply
      rw [hstep]
      rfl
    · unfold perform Operation.apply
      rw [Desk.run_of_halted (hhalted hwon)]
      rfl
    · have hstep := harises.orderly_of_harmless.inStep
      cases hrunning : w.desk.running with
      | false => rfl
      | true => cases (hhalted hwon).symm.trans (hstep.running trivial hrunning)
  · exact Bool.eq_false_iff.2 fun hwon => hstate (hstands hwon).1
  · refine Bool.eq_false_iff.2 fun hwon => ?_
    have hsome := (hstands hwon).2
    rw [Challenge.sandbox, Option.isNone_iff_eq_none] at hsandbox
    rw [hsandbox] at hsome
    cases hsome

/-- Seven steps invert the digits, and the eighth one wins; a cell that is changed afterwards does
not matter. -/
theorem inverted_won :
    ∃ trail w, Traced .standard trail w ∧ trail.map Snapshot.state =
        ["HALT", "q0", "q0", "q0", "q0", "q0", "q0", "q0"] ∧
      w.desk.machine.tape.cells = ["1", "1", "0", "0", "1", "1", "0", "⬜"] ∧
      w.desk.machine.won = true ∧ w.desk.machine.state = haltState ∧
      w.perform .step = (w, .ok (.flag false)) := by
  have hnew : Traced .standard [] firstBench :=
    @Traced.new .standard .default none .empty true firstDesk .plain new_firstDesk
  have hhalted := hnew.step.step.step.step.step.step.step.step
  have hedit : Restores (Work.Fits .standard) (.editCell 0 "1") := fun s hs => absurd hs (by simp)
  have htraced := hhalted.perform hedit id (by simp)
  obtain ⟨_, -, -, hstands, -, -, hrefused, -⟩ := won_iff_trail htraced
  refine ⟨_, _, htraced, by decide +kernel, by decide +kernel, ?_⟩
  refine (fun hwon => ⟨hwon, (hstands hwon).2.1, (hrefused hwon).2.1⟩) ?_
  decide +kernel

end Workbench

end TapeLab
