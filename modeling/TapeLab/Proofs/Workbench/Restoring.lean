import TapeLab.Proofs.Workbench.Geared

/-!
Restoring. Whoever goes to the session of another workbench gets just that session, on a machine
that has not made a step yet, and nothing that was going on before has any part in what happens
later: the timer of a run is cancelled, and its number is never given again.
-/

namespace TapeLab

namespace Desk

variable (d : Desk)

theorem onward_stopRun : d.agenda.Onward d.stopRun.agenda := by
  show d.agenda.Onward (d.pacer.reset d.agenda).2
  rw [Pacer.reset_eq]
  exact d.agenda.onward_cancelHeld _

theorem onward_scheduleSave : d.agenda.Onward d.scheduleSave.agenda := by
  unfold scheduleSave
  cases d.keeper with
  | none => exact .refl _
  | some k =>
    dsimp only
    unfold Keeper.schedule
    rw [Keeper.cancel_eq]
    have hcancel := d.agenda.onward_cancelHeld k.handle
    cases d.loop with
    | true => exact hcancel.trans (Agenda.onward_set _ _ _)
    | false => exact hcancel

theorem onward_clearSave : d.agenda.Onward d.clearSave.1.agenda := by
  unfold clearSave
  cases d.keeper with
  | none => exact .refl _
  | some k =>
    dsimp only
    rw [agenda_withWork]
    have hcancel := d.agenda.onward_cancelHeld k.handle
    unfold Keeper.clear
    rw [Keeper.cancel_eq]
    dsimp only
    split
    · exact hcancel
    · unfold Keeper.complain
      split <;> exact hcancel

theorem onward_answerKeeper (alarm : KeeperAlarm) :
    d.agenda.Onward (d.answerKeeper alarm).agenda := by
  unfold answerKeeper
  cases d.keeper with
  | none => exact .refl _
  | some k =>
    dsimp only
    rw [agenda_withWork]
    cases alarm with
    | save =>
      unfold Keeper.answer Keeper.save
      cases k.pending with
      | none => exact .refl _
      | some s => exact Agenda.onward_insert (d.agenda.alarms_putOff _) rfl
    | heard fault => exact .refl _

theorem onward_reset : d.agenda.Onward d.reset.desk.agenda := by
  obtain ⟨e, he, hreset⟩ := d.gears_reset
  have hstop : d.agenda.Onward e.agenda := by
    rw [show e.agenda = d.stopRun.agenda from congrArg Gears.agenda he]
    exact d.onward_stopRun
  rcases hreset with hreset | hreset
  · rwa [show d.reset.desk.agenda = e.agenda from congrArg Gears.agenda hreset]
  · rw [show d.reset.desk.agenda = e.clearSave.1.agenda from congrArg Gears.agenda hreset]
    exact hstop.trans e.onward_clearSave

theorem onward_run : d.agenda.Onward d.run.desk.agenda := by
  rw [run_eq]
  split
  · split
    · exact Agenda.onward_set _ _ _
    · exact .refl _
  · exact .refl _

theorem onward_pause : d.agenda.Onward d.pause.desk.agenda := by
  unfold pause
  split
  · show d.agenda.Onward (d.pacer.pause d.agenda).2
    rw [Pacer.pause_eq]
    exact d.agenda.onward_cancelHeld _
  · exact .refl _

end Desk

theorem Operation.onward (d : Desk) (op : Operation) :
    d.agenda.Onward (op.apply d).desk.agenda := by
  have hsame {e : Desk} (h : e.gears = d.gears) : d.agenda.Onward e.agenda := by
    rw [show e.agenda = d.agenda from congrArg Gears.agenda h]
    exact .refl _
  have hstop {e : Desk} (h : e.gears = d.stopRun.gears) : d.agenda.Onward e.agenda := by
    rw [show e.agenda = d.stopRun.agenda from congrArg Gears.agenda h]
    exact d.onward_stopRun
  by_cases hedit : op.Edits
  · exact hsame (hedit.still d).1
  cases op with
  | step =>
    show d.agenda.Onward d.step.desk.agenda
    unfold Desk.step
    split
    · exact .refl _
    · exact hsame d.gears_advance
  | run => exact d.onward_run
  | pause => exact d.onward_pause
  | undo =>
    show d.agenda.Onward d.undo.desk.agenda
    unfold Desk.undo
    split
    · exact .refl _
    · dsimp only
      split <;> exact d.onward_stopRun
  | reset => exact d.onward_reset
  | loadChallenge index =>
    show d.agenda.Onward (d.loadChallenge index).desk.agenda
    by_cases hindex : 0 ≤ index ∧ index < d.catalog.challenges.length
    · exact hstop (Desk.gears_loadChallenge hindex)
    · rw [Desk.loadChallenge, if_neg hindex]
      exact .refl _
  | loadTape cells head => exact d.onward_stopRun
  | restore s => exact hstop (d.gears_restore s)
  | setSpeed milliseconds =>
    show d.agenda.Onward (d.setSpeed milliseconds).desk.agenda
    unfold Desk.setSpeed
    dsimp only
    split <;> exact .refl _
  | _ => exact absurd trivial hedit

namespace Workbench

variable {w v : Workbench}

theorem steady_onward (a : Agenda Alarm) : Steady (fun _ => True) fun d => a.Onward d.agenda where
  note _ _ h := h
  save d h := h.trans d.onward_scheduleSave
  apply d op _ h := h.trans (op.onward d)

theorem onward_tell (w : Workbench) (change : Option Change) :
    w.desk.agenda.Onward (w.tell change).1.desk.agenda :=
  ((steady_onward _).tell (fun _ _ _ _ => trivial) (.refl _) change).desk

theorem onward_tick (w : Workbench) : w.desk.agenda.Onward w.tick.desk.agenda := by
  obtain hidle | ⟨o, ho, htick⟩ := w.tick_cases
  · rw [hidle]
    exact .refl _
  · have hagenda : o.desk.agenda = w.desk.agenda :=
      ho ▸ congrArg Gears.agenda (Desk.gears_advance _)
    have htell := onward_tell { w with desk := o.desk } o.change
    rw [show ({ w with desk := o.desk } : Workbench).desk.agenda = w.desk.agenda from hagenda]
      at htell
    obtain htick | ⟨v, more, hv, -, htick⟩ := htick
    · rw [htick]
      exact htell
    · rw [hv] at htell
      rw [htick]
      refine htell.trans ?_
      show v.desk.agenda.Onward
        (v.desk.pacer.endTick .tick more v.desk.machine.halted v.desk.agenda).2
      unfold Pacer.endTick
      split
      · exact .refl _
      · split
        · exact Agenda.onward_set _ _ _
        · exact .refl _

/-- What can become of a workbench later, whatever is asked of it, and whoever listens. -/
inductive Later (w : Workbench) : Workbench → Prop
  | refl : Later w w
  | enter {v : Workbench} : Later w v → Later w v.enterLoop
  | perform {v : Workbench} (op : Operation) : Later w v → Later w (v.perform op).1
  | stir {u v : Workbench} : Later w u → Stirs u v → Later w v
  | listen {v : Workbench} (ls : List Listener) : Later w v → Later w { v with listeners := ls }

theorem Later.onward (h : Later w v) : w.desk.agenda.Onward v.desk.agenda := by
  induction h with
  | refl => exact .refl _
  | enter _ ih => exact ih
  | @perform v op _ ih =>
    rw [perform_fst]
    exact (ih.trans (op.onward v.desk)).trans
      (onward_tell { v with desk := (op.apply v.desk).desk } (op.apply v.desk).change)
  | @stir u _ _ hv ih =>
    refine ih.trans ?_
    -- the timer that fires is taken off the agenda before its call is made
    cases hv with
    | @fire id alarm a halarms hnext =>
      have hgone : u.desk.agenda.Onward a :=
        @Agenda.onward_remove _ _ _ [_] halarms (Nat.le_of_eq hnext.symm)
      refine hgone.trans ?_
      cases alarm with
      | tick => exact onward_tick (u.withAgenda a)
      | keeper alarm => exact (u.withAgenda a).desk.onward_answerKeeper alarm
    | pass halarms hnext => exact @Agenda.onward_remove _ _ _ [] halarms hnext
  | listen _ _ ih => exact ih

theorem Later.not_mem_ticks (h : Later w v) {id : Nat}
    (hlt : id < w.desk.agenda.next) (hgone : id ∉ w.desk.ticks) : id ∉ v.desk.ticks := by
  intro hmem
  have hold := h.onward.alarms _ (Agenda.mem_timersFor.1 hmem) hlt
  exact hgone (Agenda.mem_timersFor.2 hold)

end Workbench

def Machine.restarted (m : Machine) (b : History.Bounds) : Machine where
  rules := m.rules
  tape := m.tape
  head := m.head
  state := initialState
  steps := 0
  history := .empty b
  halted := false
  won := false
  message := "Previous session restored."
  lastStep := ""
  active := none
  changed := none

namespace Work

variable {u w : Work}

theorem overlay_session (hon : u.machine.OnTape) (m : Machine) (c : Challenge) :
    Desk.overlay (Desk.setUp m c) u.session = u.machine.restarted m.history.bounds := by
  have hhead : min u.machine.head (u.machine.tape.size - 1) = u.machine.head := by
    have hlt := hon.2
    omega
  simp only [Desk.overlay, session, Tape.ofCells_cells, Option.getD_some, hhead]
  rfl

theorem restored_session (hu : u.Bounded) (hcatalog : w.catalog = u.catalog) :
    w.restored u.session =
      { w with index := u.index, machine := u.machine.restarted w.machine.history.bounds } := by
  obtain ⟨c, hc⟩ := u.catalog.get_eq_ok hu.index.1 hu.index.2
  have hindex : u.session.challenge = some u.index := rfl
  unfold restored
  simp only [hindex, hcatalog, hc, overlay_session hu.machine.onTape]

end Work

theorem Desk.restore_session {d : Desk} {u : Work} (hu : u.Bounded)
    (hcatalog : d.catalog = u.catalog) :
    (d.restore u.session).answer = .ok () ∧ (d.restore u.session).change = some .passing ∧
    (d.restore u.session).desk.work =
      { d.work with
        index := u.index
        machine := u.machine.restarted d.machine.history.bounds } ∧
    (d.restore u.session).desk.gears = d.stopRun.gears := by
  obtain ⟨c, hc⟩ := u.catalog.get_eq_ok hu.index.1 hu.index.2
  have hchallenge (m : Machine) :
      challenge { d.stopRun with index := u.index, machine := m } = .ok c := by
    show d.catalog.get u.index = .ok c
    rw [hcatalog]
    exact hc
  have hwork := d.work_restore u.session
  rw [Work.restored_session hu hcatalog] at hwork
  have hrestore : ∃ e, d.restore u.session = .changed e () .passing := by
    have hindex : u.session.challenge = some u.index := rfl
    have hfound := hchallenge d.stopRun.machine
    unfold restore
    simp only [hindex, hfound, Except.map, withMachine, hchallenge]
    exact ⟨_, rfl⟩
  obtain ⟨e, he⟩ := hrestore
  exact ⟨by rw [he]; rfl, by rw [he]; rfl, hwork, d.gears_restore _⟩

namespace Workbench

variable {c : Catalog} {asked : Host → Reaction → Prop} {u w x : Workbench}

theorem work_perform_restore (hu : u.desk.work.Bounded) (hcatalog : u.desk.catalog = c)
    (hx : Orderly c False (Reaction.Asking Operation.Calming) x) :
    (x.perform (.restore u.desk.session)).1.desk.work =
      { x.desk.work with
        index := u.desk.index
        machine := u.desk.machine.restarted x.desk.machine.history.bounds } := by
  rw [(calm_perform hx.modest _).2.1]
  exact (Desk.restore_session hu (hx.catalog.trans hcatalog.symm)).2.2.1

theorem running_perform_restore (hcalm : Calm x.listeners) (s : Session) :
    (x.perform (.restore s)).1.desk.running = false := by
  refine (calm_perform hcalm _).2.2 ?_
  show (x.desk.restore s).desk.pacer.running = false
  rw [show (x.desk.restore s).desk.pacer = x.desk.stopRun.pacer from
    congrArg Gears.pacer (x.desk.gears_restore s), Desk.pacer_stopRun]
  rfl

/-- Two workbenches with the same challenges, in whatever state: one of them goes to the session of
the other. Then it has this session, on a machine that has not made a step, with an empty history
and a pacer that is idle and has no timer; and no timer that was set for a tick before is ever set
again, whatever happens later. Another workbench that goes to the same session has the same machine,
but for the bounds of its history. -/
theorem restoring_leaves_nothing (hu : Arises c (Work.Fits c) asked u)
    (hw : Arises c (Work.Fits c) (Reaction.Asking Operation.Calming) w) :
    let restored := (w.perform (.restore u.desk.session)).1
    (w.perform (.restore u.desk.session)).2 =
      (w.announced (.restore u.desk.session)).2.elim (.ok .done) .error ∧
    restored.desk.session = u.desk.session ∧
    restored.desk.machine =
      { rules := u.desk.machine.rules
        tape := u.desk.machine.tape
        head := u.desk.machine.head
        state := initialState
        steps := 0
        history := .empty w.desk.machine.history.bounds
        halted := false
        won := false
        message := "Previous session restored."
        lastStep := ""
        active := none
        changed := none } ∧
    restored.desk.pacer.phase = .idle ∧
    restored.desk.pacer.handle = none ∧
    restored.desk.ticks = [] ∧
    (∀ v, Later restored v → ∀ id ∈ w.desk.ticks, id ∉ v.desk.ticks) ∧
    ∀ x, Arises c (Work.Fits c) (Reaction.Asking Operation.Calming) x →
      (x.perform (.restore u.desk.session)).1.desk.machine =
        { restored.desk.machine with history := .empty x.desk.machine.history.bounds } := by
  intro restored
  have hbounded : u.desk.work.Bounded := hu.orderly_of_any.bounded
  have hcatalog : u.desk.catalog = c := hu.orderly_of_any.catalog
  have hin := hw.orderly_of_any
  have hout : Orderly c False (Reaction.Asking Operation.Calming) restored := hin.perform (by
    rintro s ⟨⟩
    exact hcatalog ▸ hbounded.fits_session)
  have hgeared : restored.desk.Geared :=
    (geared_perform hin.modest (hw.geared fun _ _ hop => hop.ne_run).2 _).desk
  have hwork := work_perform_restore hbounded hcatalog hin
  have hmachine : restored.desk.machine =
      u.desk.machine.restarted w.desk.machine.history.bounds := congrArg Work.machine hwork
  have hanswer := (Desk.restore_session hbounded (hin.catalog.trans hcatalog.symm)).1
  have hidle : restored.desk.running = false := running_perform_restore hin.modest _
  have hticks : restored.desk.ticks = [] := hgeared.ticks_eq_nil hidle
  refine ⟨?_, congrArg Work.session hwork, hmachine, ?_, ?_, hticks, fun v hv id hid => ?_,
    fun x hx => ?_⟩
  · have happly : (Operation.apply w.desk (.restore u.desk.session)).answer = .ok .done := by
      show (w.desk.restore u.desk.work.session).answer.map _ = _
      rw [hanswer]
      rfl
    rw [perform_snd, happly]
  · exact hout.inStep.phase_eq_idle hidle (by rw [hmachine]; rfl)
  · exact hgeared.awaited hidle
  · -- the number has been given, and the timer is gone: there is no other way to get it back
    have hbelow : id < w.desk.agenda.next :=
      hin.inStep.sound.pacer.numbered.below _ (Agenda.mem_timersFor.1 hid)
    have hnext : w.desk.agenda.next ≤ restored.desk.agenda.next :=
      ((@Later.refl w).perform _).onward.next
    exact hv.not_mem_ticks (Nat.lt_of_lt_of_le hbelow hnext) (by simp [hticks])
  · have hx' := work_perform_restore hbounded hcatalog hx.orderly_of_any
    rw [hmachine]
    exact congrArg Work.machine hx'

/-- A workbench in the middle of a run goes to the session of one that has made a step. The timer of
the run has number 0, that of the next run number 1. -/
theorem restoring_ends_run :
    ∃ u w, Arises .standard (Work.Fits .standard) (fun _ _ => True) u ∧
      Arises .standard (Work.Fits .standard) (Reaction.Asking Operation.Calming) w ∧
      u.desk.machine.steps = 1 ∧ w.desk.machine.steps = 2 ∧ w.desk.ticks = [0] ∧
      (w.perform (.restore u.desk.session)).1.desk.session = u.desk.session ∧
      (w.perform (.restore u.desk.session)).1.desk.machine.steps = 0 ∧
      (((w.perform (.restore u.desk.session)).1).perform .run).1.desk.ticks = [1] ∧
      ∀ v, Later (w.perform (.restore u.desk.session)).1 v → 0 ∉ v.desk.ticks := by
  have hplain (op : Operation) (hop : ∀ s, op ≠ .restore s) :
      Restores (Work.Fits .standard) op := fun s hs => absurd hs (hop s)
  have hu := (arises_firstBench (Work.Fits .standard) fun _ _ => True).perform
    (hplain .step (by simp))
  have hw := (((arises_firstBench (Work.Fits .standard) (Reaction.Asking Operation.Calming)).perform
    (hplain .step (by simp))).perform (hplain .step (by simp))).perform (hplain .run (by simp))
  obtain ⟨-, hsession, hmachine, -, -, -, hlater, -⟩ := restoring_leaves_nothing hu hw
  refine ⟨_, _, hu, hw, by decide +kernel, by decide +kernel, by decide +kernel, hsession,
    congrArg Machine.steps hmachine, by decide +kernel, fun v hv => hlater v hv 0 ?_⟩
  decide +kernel

end Workbench

end TapeLab
