import TapeLab.Proofs.Desk.Gears
import TapeLab.Proofs.Desk.Report
import TapeLab.Proofs.Workbench.Bounds
import TapeLab.Proofs.Workbench.Calm

/-!
One tick of a run, and what it does to the gears. In the middle of a tick, when its step has been
made, the pacer knows of no timer although the run is going on; listeners are told then, and at the
end the timer of the next tick is set, or the run ends. So a desk that has been in step is in step
again, unless a listener fails in the middle, which leaves the run without a timer, or lets another
run begin; then there may be two timers for a tick. What is known of the keeper and of the pacer's
own timer still holds.
-/

namespace TapeLab

namespace Desk

def stepped (d : Desk) : Desk :=
  { d with pacer := d.pacer.beginTick, machine := d.work.advanced.machine }

theorem endTick_of_idle {d : Desk} (hidle : d.running = false) (more : Bool) :
    d.endTick more = d := by
  unfold endTick Pacer.endTick
  rw [show d.pacer.running = false from hidle]
  rfl

theorem running_endTick (more : Bool) (d : Desk) :
    (d.endTick more).running = (d.running && more) := by
  show (d.pacer.endTick .tick more d.machine.halted d.agenda).1.running = (d.pacer.running && more)
  unfold Pacer.endTick
  cases hrunning : d.pacer.running with
  | false => exact hrunning
  | true =>
    cases more with
    | true => exact hrunning
    | false => cases d.machine.halted <;> rfl

end Desk

namespace Workbench

open Desk

variable {only : Prop} {asked : Operation → Prop} {w : Workbench}

def tickStep (w : Workbench) : Outcome Bool :=
  Desk.advance { w.desk with pacer := w.desk.pacer.beginTick }

def stepAnnounced (w : Workbench) : Attempt Fault :=
  { w with desk := w.tickStep.desk }.tell w.tickStep.change

theorem tick_of_idle (hidle : w.desk.running = false) :
    w.tick = { w with desk := { w.desk with pacer := w.desk.pacer.beginTick } } := by
  have hbegun : Desk.running { w.desk with pacer := w.desk.pacer.beginTick } = false := hidle
  unfold tick
  simp only [hbegun, Bool.not_false, if_true]

theorem tick_eq_stepAnnounced (hrunning : w.desk.running = true) :
    w.tick = match w.stepAnnounced, w.tickStep.answer with
      | (v, none), .ok more => { v with desk := v.desk.endTick more }
      | (v, _), _ => v := by
  have hbegun : Desk.running { w.desk with pacer := w.desk.pacer.beginTick } = true := hrunning
  unfold tick
  simp only [hbegun, Bool.not_true, Bool.false_eq_true, if_false]
  rfl

theorem tick_of_stepAnnounced (hrunning : w.desk.running = true) :
    ∃ more, w.tick = w.stepAnnounced.1 ∨
      w.tick = { w.stepAnnounced.1 with desk := w.stepAnnounced.1.desk.endTick more } := by
  rw [tick_eq_stepAnnounced hrunning]
  split
  · next v more hv _ => exact ⟨more, .inr (by rw [hv])⟩
  · next v _ _ hv _ => exact ⟨false, .inl (by rw [hv])⟩

theorem tickStep_eq (w : Workbench) :
    w.tickStep = ⟨{ w.desk.stepped with
        journal := (w.desk.work.report.map .logged).reverse ++ w.desk.journal },
      w.desk.work.answer, w.desk.work.change⟩ :=
  Desk.advance_eq_report _

theorem stepAnnounced_eq (hbounded : w.desk.work.Bounded) :
    w.stepAnnounced = { w with desk := { w.desk.stepped with
        journal := (w.desk.work.report.map Entry.logged).reverse ++ w.desk.journal } }.tell
      (some (if w.desk.machine.step.1.active.isSome then .kept else .passing)) := by
  rw [stepAnnounced, tickStep_eq, hbounded.change]
  rfl

theorem tick_eq_endTick (hbounded : w.desk.work.Bounded) (hrunning : w.desk.running = true) :
    w.tick = match w.stepAnnounced with
      | (v, none) => { v with desk := v.desk.endTick (!w.desk.work.advanced.machine.halted) }
      | (v, some _) => v := by
  rw [tick_eq_stepAnnounced hrunning, show w.tickStep.answer = w.desk.work.answer from
    congrArg Outcome.answer w.tickStep_eq, hbounded.answer]
  rcases w.stepAnnounced with ⟨v, _ | fault⟩ <;> rfl

theorem tick_of_running (hbounded : w.desk.work.Bounded) (hrunning : w.desk.running = true) :
    ∃ (v : Workbench) (fault : Option Fault) (j : Journal) (change : Change),
      w.stepAnnounced = (v, fault) ∧
      { w with desk := { w.desk.stepped with journal := j } }.tell (some change) = (v, fault) ∧
      w.tick = if fault.isSome then v
        else { v with desk := v.desk.endTick (!w.desk.work.advanced.machine.halted) } := by
  refine ⟨w.stepAnnounced.1, w.stepAnnounced.2, _, _, rfl, (stepAnnounced_eq hbounded).symm, ?_⟩
  rw [tick_eq_endTick hbounded hrunning]
  rcases w.stepAnnounced with ⟨v, _ | fault⟩ <;> rfl

/-- In the middle of a tick. -/
structure MidTick (only : Prop) (d : Desk) : Prop where
  sound : d.gears.Sound only
  awaited : only → d.pacer.handle = none
  halted : d.pacer.phase = .halted → d.machine.halted = true

theorem steady_inStep : Steady (fun _ => True) (InStep only) where
  note _ _ h := h.still rfl rfl
  save d h := by
    have hpacer := d.pacer_scheduleSave
    have hmachine : d.scheduleSave.machine = d.machine := congrArg Work.machine d.work_scheduleSave
    refine ⟨sound_scheduleSave h.sound, ?_, ?_, ?_⟩
    · rw [Desk.running, hpacer]
      exact h.awaited
    · rw [Desk.running, hpacer, hmachine]
      exact h.running
    · rw [hpacer, hmachine]
      exact h.halted
  apply _ op _ h := op.inStep h

/-- Listeners that let no run begin leave the pacer without a timer; for others nothing is said of
that. -/
theorem steady_midTick (hasked : only → ∀ op, asked op → op.Calming) :
    Steady asked (MidTick only) where
  note _ _ h := ⟨h.sound, h.awaited, h.halted⟩
  save d h := by
    have hpacer := d.pacer_scheduleSave
    have hmachine : d.scheduleSave.machine = d.machine := congrArg Work.machine d.work_scheduleSave
    refine ⟨sound_scheduleSave h.sound, ?_, ?_⟩
    · rw [hpacer]
      exact h.awaited
    · rw [hpacer, hmachine]
      exact h.halted
  apply d op hop h := by
    by_cases ho : only
    · have hcalming := hasked ho op hop
      cases op with
      | pause =>
        show MidTick only d.pause.desk
        cases hrunning : d.running with
        | false => rwa [Desk.pause, hrunning]
        | true =>
          have hpacer := pacer_pause hrunning
          refine ⟨?_, fun _ => by rw [hpacer]; rfl, fun hhalted => ?_⟩
          · rw [Desk.pause, if_pos hrunning]
            exact h.sound.pause
          · rw [hpacer] at hhalted
            cases hhalted
      | setSpeed milliseconds =>
        show MidTick only (d.setSpeed milliseconds).desk
        unfold Desk.setSpeed
        dsimp only
        split
        · exact h
        · obtain ⟨⟨⟨hnumbered, hheld, hsole⟩, hkeeper, hcurrent, htold⟩, hawaited, hhalted⟩ := h
          exact ⟨⟨⟨hnumbered, hheld, hsole⟩, hkeeper, hcurrent, htold⟩, hawaited, hhalted⟩
      | _ => exact hcalming.elim
    · have hstep : d.InStep only :=
        ⟨h.sound, fun ho' => absurd ho' ho, fun ho' => absurd ho' ho, h.halted⟩
      obtain ⟨hsound, -, -, hhalted⟩ := op.inStep hstep
      exact ⟨hsound, fun ho' => absurd ho' ho, hhalted⟩

theorem MidTick.endTick {d : Desk} (h : MidTick only d) {more : Bool}
    (hmore : only → more = true → d.machine.halted = false) : (d.endTick more).InStep only := by
  unfold Desk.endTick Pacer.endTick
  cases hrunning : d.running with
  | false =>
    have hpacer : d.pacer.running = false := hrunning
    simp only [hpacer, Bool.not_false, if_true]
    refine ⟨h.sound, fun ho => ?_, fun _ hrun => ?_, h.halted⟩
    · show d.pacer.handle.isSome = d.running
      rw [h.awaited ho, hrunning]
      rfl
    · cases hrunning.symm.trans hrun
  | true =>
    have hpacer : d.pacer.running = true := hrunning
    simp only [hpacer, Bool.not_true, Bool.false_eq_true, if_false]
    cases more with
    | true =>
      have hphase : d.pacer.phase = .running := by simpa [Pacer.running] using hpacer
      refine ⟨h.sound.schedule h.awaited rfl h.sound.coherent, fun _ => hrunning.symm,
        fun ho _ => hmore ho rfl, fun hhalted => ?_⟩
      cases hphase.symm.trans hhalted
    | false =>
      obtain ⟨⟨⟨hnumbered, hheld, hsole⟩, hkeeper, hcoherent⟩, hawaited, -⟩ := h
      have hsound (phase : Phase) (hphase : phase ≠ .running) :
          (d.withPacer (d.pacer.stop phase, d.agenda)).gears.Sound only :=
        ⟨⟨hnumbered, hheld, hsole⟩, hkeeper, hcoherent.stop hphase⟩
      cases hhalted : d.machine.halted with
      | true =>
        refine ⟨hsound .halted (by simp), fun ho => ?_, fun _ hrun => ?_, fun _ => hhalted⟩
        · show d.pacer.handle.isSome = false
          rw [hawaited ho]
          rfl
        · cases hrun
      | false =>
        refine ⟨hsound .idle (by simp), fun ho => ?_, fun _ hrun => ?_, fun hphase => ?_⟩
        · show d.pacer.handle.isSome = false
          rw [hawaited ho]
          rfl
        · cases hrun
        · cases hphase

theorem inStep_perform (h : w.desk.InStep only) (op : Operation) :
    (w.perform op).1.desk.InStep only :=
  (steady_inStep.perform (fun _ _ _ _ => trivial) (op.inStep h)).desk

variable {a : Agenda Alarm} {id : Nat}

theorem inStep_pass (h : w.desk.InStep only) (halarms : w.desk.agenda.alarms.Perm a.alarms)
    (hnext : w.desk.agenda.next ≤ a.next) : (w.withAgenda a).desk.InStep only :=
  ⟨h.sound.pass halarms hnext, h.awaited, h.running, h.halted⟩

theorem inStep_tick_of_idle (h : w.desk.InStep only) (hidle : w.desk.running = false)
    (halarms : w.desk.agenda.alarms.Perm ((id, .tick) :: a.alarms))
    (hnext : a.next = w.desk.agenda.next) : (w.withAgenda a).tick.desk.InStep only := by
  rw [tick_of_idle (w := w.withAgenda a) hidle]
  refine ⟨(h.sound.beginTick halarms hnext).2, fun _ => hidle.symm, fun _ hrun => ?_, h.halted⟩
  cases hidle.symm.trans hrun

theorem inStep_answerKeeper (h : w.desk.InStep only) {alarm : KeeperAlarm}
    (halarms : w.desk.agenda.alarms.Perm ((id, .keeper alarm) :: a.alarms))
    (hnext : a.next = w.desk.agenda.next) :
    ((w.withAgenda a).desk.answerKeeper alarm).InStep only := by
  obtain ⟨d, hd⟩ : ∃ d, d = (w.withAgenda a).desk.answerKeeper alarm := ⟨_, rfl⟩
  have hpacer : d.pacer = w.desk.pacer := hd ▸ Desk.pacer_answerKeeper _ _
  have hmachine : d.machine = w.desk.machine :=
    hd ▸ congrArg Work.machine (Desk.work_answerKeeper _ _)
  rw [← hd]
  refine ⟨hd ▸ sound_answerKeeper h.sound halarms hnext, ?_, ?_, ?_⟩
  · rw [Desk.running, hpacer]
    exact h.awaited
  · rw [Desk.running, hpacer, hmachine]
    exact h.running
  · rw [hpacer, hmachine]
    exact h.halted

theorem midTick_tickStep (h : w.desk.InStep only) (hrunning : w.desk.running = true)
    (halarms : w.desk.agenda.alarms.Perm ((id, .tick) :: a.alarms))
    (hnext : a.next = w.desk.agenda.next) : MidTick only (w.withAgenda a).tickStep.desk := by
  have hgears : (w.withAgenda a).tickStep.desk.gears =
      { w.desk.gears with pacer := w.desk.pacer.beginTick, agenda := a } := gears_advance _
  have hpacer : (w.withAgenda a).tickStep.desk.pacer = w.desk.pacer.beginTick :=
    congrArg Gears.pacer hgears
  refine ⟨?_, fun _ => by rw [hpacer]; rfl, fun hhalted => ?_⟩
  · rw [hgears]
    exact (h.sound.beginTick halarms hnext).2
  · have hphase : w.desk.pacer.phase = .running := by
      simpa [Desk.running, Pacer.running] using hrunning
    rw [hpacer] at hhalted
    cases hphase.symm.trans hhalted

theorem inStep_tick_of_any (h : w.desk.InStep False)
    (halarms : w.desk.agenda.alarms.Perm ((id, .tick) :: a.alarms))
    (hnext : a.next = w.desk.agenda.next) : (w.withAgenda a).tick.desk.InStep False := by
  cases hrunning : w.desk.running with
  | false => exact inStep_tick_of_idle h hrunning halarms hnext
  | true =>
    have hsteady : Steady (fun _ => True) (MidTick False) := steady_midTick False.elim
    have hmid : MidTick False (w.withAgenda a).stepAnnounced.1.desk :=
      (hsteady.tell
        (w := { w.withAgenda a with desk := (w.withAgenda a).tickStep.desk })
        (fun _ _ _ _ => trivial) (midTick_tickStep h hrunning halarms hnext) _).desk
    obtain ⟨more, htick⟩ := tick_of_stepAnnounced (w := w.withAgenda a) hrunning
    rcases htick with htick | htick <;> rw [htick]
    · exact ⟨hmid.sound, False.elim, False.elim, hmid.halted⟩
    · exact hmid.endTick False.elim

theorem inStep_tick (h : w.desk.InStep only) (hls : Modest asked w.listeners)
    (hasked : only → ∀ op, asked op → op.Calming)
    (hfine : only → (w.withAgenda a).stepAnnounced.2 = none) (hbounded : w.desk.work.Bounded)
    (halarms : w.desk.agenda.alarms.Perm ((id, .tick) :: a.alarms))
    (hnext : a.next = w.desk.agenda.next) : (w.withAgenda a).tick.desk.InStep only := by
  cases hrunning : w.desk.running with
  | false => exact inStep_tick_of_idle h hrunning halarms hnext
  | true =>
    have hmid : MidTick only (w.withAgenda a).stepAnnounced.1.desk :=
      ((steady_midTick hasked).tell
        (w := { w.withAgenda a with desk := (w.withAgenda a).tickStep.desk }) hls
        (midTick_tickStep h hrunning halarms hnext) _).desk
    have hwork (ho : only) :
        (w.withAgenda a).stepAnnounced.1.desk.work = w.desk.work.advanced :=
      (calm_tell (w := { w.withAgenda a with desk := (w.withAgenda a).tickStep.desk })
        (hls.mono (hasked ho)) _).2.1.trans (work_advance _)
    have htick := tick_eq_endTick (w := w.withAgenda a) hbounded hrunning
    rcases hannounced : (w.withAgenda a).stepAnnounced with ⟨v, _ | fault⟩ <;>
      rw [hannounced] at hfine hmid hwork htick <;> rw [htick]
    · refine hmid.endTick fun ho hmore => ?_
      rw [show v.desk.machine = v.desk.work.machine from rfl, hwork ho]
      exact (Bool.not_eq_true' _).mp hmore
    · have hnever (ho : only) : False := nomatch hfine ho
      exact ⟨hmid.sound, fun ho => (hnever ho).elim, fun ho => (hnever ho).elim, hmid.halted⟩

theorem inStep_fire (h : w.desk.InStep only) (hls : Modest asked w.listeners)
    (hasked : only → ∀ op, asked op → op.Calming)
    (hfine : only → (w.withAgenda a).stepAnnounced.2 = none) (hbounded : w.desk.work.Bounded)
    {alarm : Alarm} (halarms : w.desk.agenda.alarms.Perm ((id, alarm) :: a.alarms))
    (hnext : a.next = w.desk.agenda.next) : ((w.withAgenda a).fire alarm).desk.InStep only := by
  cases alarm with
  | tick => exact inStep_tick h hls hasked hfine hbounded halarms hnext
  | keeper alarm => exact inStep_answerKeeper h halarms hnext

end Workbench

end TapeLab
