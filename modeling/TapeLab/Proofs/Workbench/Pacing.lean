import TapeLab.Proofs.Desk.Advance
import TapeLab.Proofs.Workbench.Arises

/-!
Pacing. Steps by hand and ticks of runs, begun and stopped at any time and at any speed, lead to the
machine that is advanced as often as they have advanced it, and to no other. No advance is lost on a
machine that has halted, since nothing goes on then unless a listener has failed; so whoever goes on
until the machine has halted gets the same machine.
-/

namespace TapeLab

namespace Workbench

/-- What comes of a workbench while it is only paced, with the number of times that it has been
advanced: by steps that are not refused, and by ticks of a run that is going on. -/
inductive Paced (start : Workbench) : Nat → Workbench → Prop
  | start : Paced start 0 start
  | enter {k : Nat} {w : Workbench} : Paced start k w → Paced start k w.enterLoop
  | perform {k : Nat} {w : Workbench} {op : Operation} :
      Paced start k w → op.Pacing → Paced start k (w.perform op).1
  | step {k : Nat} {w : Workbench} :
      Paced start k w →
      Paced start (k + if w.desk.running || w.desk.machine.halted then 0 else 1)
        (w.perform .step).1
  | tick {k : Nat} {w : Workbench} {id : Nat} {a : Agenda Alarm} :
      Paced start k w → w.desk.agenda.alarms.Perm ((id, .tick) :: a.alarms) →
      a.next = w.desk.agenda.next →
      Paced start (k + if w.desk.running then 1 else 0) ((w.withAgenda a).fire .tick)
  | keeper {k : Nat} {w : Workbench} {id : Nat} {alarm : KeeperAlarm} {a : Agenda Alarm} :
      Paced start k w → w.desk.agenda.alarms.Perm ((id, .keeper alarm) :: a.alarms) →
      a.next = w.desk.agenda.next → Paced start k ((w.withAgenda a).fire (.keeper alarm))
  | pass {k : Nat} {w : Workbench} {a : Agenda Alarm} :
      Paced start k w → w.desk.agenda.alarms.Perm a.alarms → w.desk.agenda.next ≤ a.next →
      Paced start k (w.withAgenda a)

variable {start w v : Workbench} {k : Nat}

def Resting (w : Workbench) : Prop := w.desk.machine.halted = true → w.desk.running = false

theorem resting_tell (hls : Modest Operation.Pacing w.listeners) (h : Resting w)
    (change : Option Change) : Resting (w.tell change).1 := by
  obtain ⟨-, hwork, hidle⟩ := paced_tell hls change
  have hmachine : (w.tell change).1.desk.machine = w.desk.machine := congrArg Work.machine hwork
  intro hhalted
  rw [hmachine] at hhalted
  exact hidle hhalted (h hhalted)

theorem resting_perform (hls : Modest Operation.Pacing w.listeners) (h : Resting w)
    {op : Operation} (hop : op.Pacing) : Resting (w.perform op).1 := by
  rw [perform_fst]
  refine resting_tell (w := { w with desk := (op.apply w.desk).desk }) hls ?_ _
  have hmachine : (op.apply w.desk).desk.machine = w.desk.machine :=
    congrArg Work.machine (hop.work w.desk)
  intro hhalted
  have hhalted : w.desk.machine.halted = true := hmachine ▸ hhalted
  exact ((steady_pacing w.desk.work True).apply w.desk op
    ⟨hop, fun _ _ => hhalted⟩ ⟨rfl, fun _ => h hhalted⟩).2 trivial

theorem perform_step (hls : Modest Operation.Pacing w.listeners) :
    (w.perform .step).1.desk.work =
      (if w.desk.running || w.desk.machine.halted then w.desk.work else w.desk.work.advanced) ∧
    (Resting w → Resting (w.perform .step).1) := by
  have happly : Operation.step.apply w.desk = w.desk.step.map .flag := rfl
  obtain ⟨-, hwork, -⟩ := paced_perform hls .step
  rw [hwork, happly]
  cases hrefused : w.desk.running || w.desk.machine.halted with
  | true =>
    have hstep : w.desk.step = .refused w.desk false := by rw [Desk.step, if_pos hrefused]
    have hsame : (w.perform .step).1 = w := by
      rw [perform_fst, announced, happly, hstep]
      rfl
    rw [hsame, hstep]
    exact ⟨rfl, id⟩
  | false =>
    obtain ⟨hidle, hhalted⟩ := Bool.or_eq_false_iff.1 hrefused
    have hstep := Desk.step_eq_advance hidle hhalted
    have hpacer : w.desk.step.desk.pacer = w.desk.pacer :=
      hstep ▸ congrArg Gears.pacer w.desk.gears_advance
    refine ⟨by rw [hstep]; exact Desk.work_advance _, fun _ => ?_⟩
    rw [perform_fst]
    refine resting_tell (w := { w with desk := w.desk.step.desk }) hls (fun _ => ?_) _
    show w.desk.step.desk.pacer.running = false
    rw [hpacer]
    exact hidle

theorem resting_tick (hls : Modest Operation.Pacing w.listeners)
    (hfine : w.stepAnnounced.2 = none) (hbounded : w.desk.work.Bounded) : Resting w.tick := by
  cases hrunning : w.desk.running with
  | false =>
    intro _
    rw [tick_of_idle hrunning]
    exact hrunning
  | true =>
    obtain ⟨u, fault, j, change, hannounced, hu, htick⟩ := tick_of_running hbounded hrunning
    rw [hannounced] at hfine
    obtain rfl : fault = none := hfine
    have hwork := (paced_tell (w := { w with desk := { w.desk.stepped with journal := j } }) hls
      (some change)).2.1
    rw [hu] at hwork
    have hwork : u.desk.work = w.desk.work.advanced := hwork
    have hmachine : w.tick.desk.machine = w.desk.work.advanced.machine := by
      rw [htick]
      exact congrArg Work.machine hwork
    intro hhalted
    rw [hmachine] at hhalted
    rw [htick, hhalted]
    show (u.desk.pacer.endTick Alarm.tick false _ _).1.running = false
    unfold Pacer.endTick
    split
    · next hstopped => simpa using hstopped
    · show (u.desk.pacer.stop _).running = false
      cases u.desk.machine.halted <;> rfl

/-- The machine has been advanced so many times; and, if it has gone `well`, it had not halted
before any of them. -/
structure Advanced (well : Prop) (start : Workbench) (k : Nat) (w : Workbench) : Prop where
  listeners : w.listeners = start.listeners
  host : w.host = start.host
  work : w.desk.work = start.desk.work.advanceMany k
  before : well → ∀ i < k, (start.desk.work.advanceMany i).machine.halted = false
  resting : well → Resting w

variable {well : Prop}

theorem Advanced.same (h : Advanced well start k w) (hv : Stands (fun _ => True) w v)
    (hwork : v.desk.work = w.desk.work) (hresting : well → Resting v) :
    Advanced well start k v :=
  ⟨hv.listeners.trans h.listeners, hv.host.trans h.host, hwork.trans h.work, h.before, hresting⟩

theorem Advanced.moved (refused : Bool) (h : Advanced well start k w)
    (hv : Stands (fun _ => True) w v)
    (hwork : v.desk.work = if refused then w.desk.work else w.desk.work.advanced)
    (hhalted : well → refused = false → w.desk.machine.halted = false)
    (hresting : well → Resting v) : Advanced well start (k + if refused then 0 else 1) v := by
  cases refused with
  | true => exact h.same hv hwork hresting
  | false =>
    refine ⟨hv.listeners.trans h.listeners, hv.host.trans h.host, ?_, fun hwell i hi => ?_,
      hresting⟩
    · show v.desk.work = (start.desk.work.advanceMany k).advanced
      rw [← h.work]
      exact hwork
    · rcases Nat.lt_succ_iff_lt_or_eq.1 hi with hlt | rfl
      · exact h.before hwell i hlt
      · rw [← h.work]
        exact hhalted hwell rfl

theorem Advanced.tick (h : Advanced well start k w) (hbounded : start.desk.work.Bounded)
    (hls : Modest Operation.Pacing start.listeners) (a : Agenda Alarm)
    (hwell : well → (w.withAgenda a).stepAnnounced.2 = none) :
    Advanced well start (k + if w.desk.running then 1 else 0) (w.withAgenda a).tick := by
  have hw : Modest Operation.Pacing w.listeners := h.listeners ▸ hls
  have hwork : w.desk.work.Bounded := h.work ▸ hbounded.advanceMany k
  have hv : Stands (fun _ => True) w (w.withAgenda a).tick :=
    (stands_fire (w.withAgenda a) .tick).of_desk
  have hmoved := (paced_tick (w := w.withAgenda a) hw).2
  have hresting (hw' : well) := resting_tick (w := w.withAgenda a) hw (hwell hw') hwork
  have hrunning : (w.withAgenda a).desk.running = w.desk.running := rfl
  rw [hrunning] at hmoved
  cases hgoing : w.desk.running with
  | false =>
    rw [hgoing] at hmoved
    exact h.same hv hmoved hresting
  | true =>
    rw [hgoing] at hmoved
    refine h.moved false hv hmoved (fun hw' _ => ?_) hresting
    by_contra hnot
    exact absurd (hgoing.symm.trans (h.resting hw' (by simpa using hnot))) (by simp)

theorem Paced.advanced (h : Paced start k w) (hidle : start.desk.running = false)
    (hbounded : start.desk.work.Bounded) (hls : Modest Operation.Pacing start.listeners) :
    Advanced start.Unfailing start k w := by
  induction h with
  | start =>
    exact ⟨rfl, rfl, rfl, fun _ i hi => absurd hi (Nat.not_lt_zero i), fun _ _ => hidle⟩
  | enter _ ih => exact ih.same ⟨rfl, trivial, rfl⟩ rfl ih.resting
  | @perform k w op _ hop ih =>
    have hw : Modest Operation.Pacing w.listeners := ih.listeners ▸ hls
    have hwork := (paced_perform hw op).2.1
    exact ih.same (stands_perform op w) (hwork.trans (hop.work w.desk))
      fun hfine => resting_perform hw (ih.resting hfine) hop
  | @step k w _ ih =>
    have hw : Modest Operation.Pacing w.listeners := ih.listeners ▸ hls
    obtain ⟨hwork, hresting⟩ := perform_step hw
    exact ih.moved _ (stands_perform .step w) hwork
      (fun _ hnot => (Bool.or_eq_false_iff.1 hnot).2) fun hfine => hresting (ih.resting hfine)
  | @tick k w id a _ _ _ ih =>
    exact ih.tick hbounded hls a
      fun hfine => (hfine.of_frame ih.listeners ih.host) _ w.flagged _
  | @keeper k w id alarm a _ _ _ ih =>
    have hpacer := (w.withAgenda a).desk.pacer_answerKeeper alarm
    have hwork := (w.withAgenda a).desk.work_answerKeeper alarm
    refine ih.same (stands_fire _ _).of_desk hwork fun hfine hhalted => ?_
    have hmachine : ((w.withAgenda a).fire (.keeper alarm)).desk.machine = w.desk.machine :=
      congrArg Work.machine hwork
    exact (congrArg Pacer.running hpacer).trans (ih.resting hfine (hmachine ▸ hhalted))
  | pass _ _ _ ih => exact ih.same ⟨rfl, trivial, rfl⟩ rfl ih.resting

theorem Advanced.eq_of_halted {well' : Prop} {start' w' : Workbench} {k' : Nat}
    (h : Advanced well start k w) (h' : Advanced well' start' k' w')
    (hstart : start'.desk.work = start.desk.work) (hwell : well) (hwell' : well')
    (hhalted : w.desk.machine.halted = true) (hhalted' : w'.desk.machine.halted = true) :
    k = k' := by
  have hk : (start.desk.work.advanceMany k).machine.halted = true := by
    rw [← h.work]
    exact hhalted
  have hk' : (start.desk.work.advanceMany k').machine.halted = true := by
    rw [← hstart, ← h'.work]
    exact hhalted'
  have hbefore := h'.before hwell'
  rw [hstart] at hbefore
  rcases Nat.lt_trichotomy k k' with hlt | heq | hlt
  · rw [hbefore k hlt] at hk
    cases hk
  · exact heq
  · rw [h.before hwell k' hlt] at hk'
    cases hk'

variable {c : Catalog} {may : Operation → Prop}

/-- Whoever paces a machine, in whatever way, gets what comes of advancing it so many times; and two
of them who begin with the same work get the same machine if they have advanced it equally often, or
if they have both gone on until it has halted, and no listener fails. -/
theorem pacing_leaves_machine (hstart : Reachable c may start)
    (hidle : start.desk.running = false) (hls : Modest Operation.Pacing start.listeners)
    (hw : Paced start k w) :
    w.desk.work = start.desk.work.advanceMany k ∧
    ∀ (start' w' : Workbench) (k' : Nat), start'.desk.running = false →
      Modest Operation.Pacing start'.listeners → start'.desk.work = start.desk.work →
      Paced start' k' w' →
      (k = k' ∨ (start.Unfailing ∧ start'.Unfailing ∧ w.desk.machine.halted = true ∧
        w'.desk.machine.halted = true)) →
      w'.desk.machine = w.desk.machine := by
  have hadvanced := hw.advanced hidle hstart.bounded hls
  refine ⟨hadvanced.work, fun start' w' k' hidle' hls' hwork hw' hmany => ?_⟩
  have hadvanced' := hw'.advanced hidle' (hwork ▸ hstart.bounded) hls'
  have hk := hmany.elim id fun h =>
    hadvanced.eq_of_halted hadvanced' hwork h.1 h.2.1 h.2.2.1 h.2.2.2
  have hsame : w'.desk.work = w.desk.work := by
    rw [hadvanced'.work, hadvanced.work, hwork, hk]
  exact congrArg Work.machine hsame

/-- Two steps by hand, and a tick of a run that is stopped and a step by hand, have led to the same
machine. -/
theorem stepped_as_ticked :
    ∃ u v, Paced firstBench 2 u ∧ Paced firstBench 2 v ∧ u.desk.pacer.runs = 0 ∧
      v.desk.pacer.runs = 1 ∧ v.desk.machine.steps = 2 ∧ v.desk.machine = u.desk.machine := by
  have hu : Paced firstBench 2 _ := (@Paced.start firstBench).step.step
  obtain ⟨w, hw⟩ : ∃ w, w = (firstBench.perform .run).1 := ⟨_, rfl⟩
  have hrun : Paced firstBench 0 w := hw ▸ @Paced.perform _ _ _ .run .start trivial
  have htick := @Paced.tick _ _ _ 0 { w.desk.agenda with queue := #[] } hrun
    (by rw [hw]; decide +kernel) rfl
  have hpause := @Paced.perform _ _ _ .pause htick trivial
  have hv : Paced firstBench 2 _ := hw ▸ hpause.step
  have hls : Modest Operation.Pacing firstBench.listeners := modest_new _ _
  obtain ⟨-, hsame⟩ := pacing_leaves_machine (reachable_firstBench fun _ => False) rfl hls hu
  exact ⟨_, _, hu, hv, by decide +kernel, by decide +kernel, by decide +kernel,
    hsame _ _ 2 rfl hls rfl hv (.inl rfl)⟩

end Workbench

end TapeLab
