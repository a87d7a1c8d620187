import TapeLab.Proofs.Workbench.Arises

/-!
Runs and their endings. While a run is going on there is one timer for a tick, the end of this run
has not been told, and the machine has not halted; the end of every other run has been told once. It
is told when an operation ends the run, and then the pacer is idle; or by a tick, and then the pacer
has halted.
-/

namespace TapeLab

namespace Desk

variable {only : Prop} {d : Desk}

theorem InStep.answer_run (h : d.InStep only) :
    d.run.answer = if d.running || d.machine.halted then .ok false
      else if d.loop then .ok true else .error .noLoop := by
  cases hrunning : d.running with
  | true =>
    rw [run_of_running hrunning]
    rfl
  | false =>
    rw [run_eq]
    cases hhalted : d.machine.halted with
    | true => simp [Outcome.refused]
    | false =>
      have hphase := h.phase_eq_idle hrunning hhalted
      cases d.loop <;> simp [hphase, Outcome.failed, Outcome.changed]

theorem pacer_run (h : d.run.answer.map Answer.flag = .ok (.flag true)) :
    d.run.desk.pacer.current = some d.pacer.runs ∧ d.run.desk.pacer.runs = d.pacer.runs + 1 := by
  have hok : d.run.answer = .ok true := by
    cases hanswer : d.run.answer with
    | error f =>
      rw [hanswer] at h
      cases h
    | ok started =>
      rw [hanswer] at h
      cases h
      rfl
  obtain ⟨-, -, hrun⟩ := run_of_ok hok
  rw [hrun]
  exact ⟨rfl, rfl⟩

end Desk

namespace Pacer

variable {p : Pacer}

theorem endings_stop (h : p.current = none) (phase : Phase) :
    (p.stop phase).endings = p.endings := by
  simp [stop, h]

end Pacer

namespace Operation

variable {d : Desk} {op : Operation}

theorem endings_of_idle (hcurrent : d.pacer.current = none) :
    (op.apply d).desk.pacer.endings = d.pacer.endings := by
  by_cases hrun : op = .run
  · subst hrun
    show d.run.desk.pacer.endings = _
    rw [Desk.run_eq]
    split
    · split <;> rfl
    · rfl
  · cases op.turns hrun d with
    | paced delay hgears => exact congrArg (fun g => g.pacer.endings) hgears
    | stopped hpacer _ =>
      rw [hpacer, Desk.pacer_stopRun]
      exact Pacer.endings_stop (p := { d.pacer with handle := none }) hcurrent .idle

theorem endings_apply (hcoherent : d.pacer.Coherent) :
    (op.Ends d.catalog.challenges.length →
      (op.apply d).desk.pacer.endings = (d.pacer.stop .idle).endings) ∧
    (¬ op.Ends d.catalog.challenges.length →
      (op.apply d).desk.pacer.endings = d.pacer.endings) := by
  cases hrunning : d.running with
  | false =>
    have hcurrent := hcoherent.current_eq_none hrunning
    rw [Pacer.endings_stop hcurrent]
    exact ⟨fun _ => endings_of_idle hcurrent, fun _ => endings_of_idle hcurrent⟩
  | true =>
    refine ⟨fun hends => ?_, fun hends => ?_⟩
    · rw [pacer_of_ends hrunning hends]
      rfl
    · obtain ⟨delay, hpacer⟩ := pacer_of_not_ends hrunning hends
      rw [hpacer]

end Operation

namespace Workbench

variable {c : Catalog} {w v : Workbench}

theorem pacer_tick (hls : Modest (fun _ => False) w.listeners)
    (hfine : w.stepAnnounced.2 = none) (hbounded : w.desk.work.Bounded)
    (hrunning : w.desk.running = true) :
    (w.tick.desk.pacer.current = w.desk.pacer.current ∧
        w.tick.desk.pacer.endings = w.desk.pacer.endings) ∨
      (w.tick.desk.pacer.current = none ∧
        w.tick.desk.pacer.endings = (w.desk.pacer.stop .halted).endings) := by
  obtain ⟨u, fault, j, change, hannounced, hu, htick⟩ := tick_of_running hbounded hrunning
  rw [hannounced] at hfine
  obtain rfl : fault = none := hfine
  obtain ⟨e, he⟩ : ∃ e : Desk, e = { w.desk.stepped with journal := j } := ⟨_, rfl⟩
  rw [← he] at hu
  have hcalm : Calm w.listeners := hls.mono fun _ hop => hop.elim
  have hpacer := pacer_tell (w := { w with desk := e }) hls (some change)
  have hwork := (calm_tell (w := { w with desk := e }) hcalm (some change)).2.1
  rw [hu] at hpacer hwork
  have hpacer : u.desk.pacer = w.desk.pacer.beginTick := hpacer.trans (he ▸ rfl)
  have hwork : u.desk.work = w.desk.work.advanced := hwork.trans (he ▸ rfl)
  have hmachine : u.desk.machine = w.desk.work.advanced.machine := congrArg Work.machine hwork
  have hgoing : u.desk.pacer.running = true := by rw [hpacer]; exact hrunning
  have hdesk : w.tick.desk.pacer = (u.desk.pacer.endTick Alarm.tick
      (!w.desk.work.advanced.machine.halted) u.desk.machine.halted u.desk.agenda).1 := by
    rw [htick]
    rfl
  rw [hdesk, Pacer.endTick, hgoing, hmachine]
  cases w.desk.work.advanced.machine.halted with
  | false => exact .inl (by rw [hpacer]; exact ⟨rfl, rfl⟩)
  | true => exact .inr (by rw [hpacer]; exact ⟨rfl, rfl⟩)

theorem pacer_stirs (h : Orderly c True Reaction.Harmless w) (hv : Stirs w v) :
    (v.desk.pacer.current = w.desk.pacer.current ∧
        v.desk.pacer.endings = w.desk.pacer.endings) ∨
      (v.desk.pacer.current = none ∧
        v.desk.pacer.endings = (w.desk.pacer.stop .halted).endings) := by
  have hls : Modest (fun _ => False) w.listeners := h.modest
  cases hv with
  | @fire id alarm a halarms hnext =>
    cases alarm with
    | tick =>
      have hheld := (h.inStep.sound.beginTick halarms hnext).1 trivial
      have hrunning : w.desk.running = true := by
        rw [← h.inStep.awaited trivial]
        exact Option.isSome_iff_exists.2 ⟨id, hheld⟩
      have hfine := h.unfailing fun _ hr => hr
      exact pacer_tick (w := w.withAgenda a) hls (hfine _ w.flagged _) h.bounded hrunning
    | keeper alarm =>
      have hpacer := (w.withAgenda a).desk.pacer_answerKeeper alarm
      exact .inl ⟨congrArg Pacer.current hpacer, congrArg Pacer.endings hpacer⟩
  | pass _ _ => exact .inl ⟨rfl, rfl⟩

/-- In every state, as long as listeners are harmless and sessions that are restored fit: a run is
going on just if one timer is set for a tick, and just if the end of the current run has not been
told; then the machine has not halted, and a pacer that has halted has a machine that has. So a run
can be started just if none is going on and the machine has not halted. Of every other run the end
has been told once. Operations that end a run tell that the pacer is idle then, and others tell
nothing; a timer that fires tells nothing or that the pacer has halted. -/
theorem runs_in_step (h : Arises c (Work.Fits c) Reaction.Harmless w) :
    (w.desk.running = true ↔ ∃ id, w.desk.ticks = [id]) ∧
    (w.desk.running = false → w.desk.ticks = []) ∧
    (w.desk.running = true ↔ w.desk.pacer.current.isSome = true) ∧
    (w.desk.running = true → w.desk.machine.halted = false) ∧
    (w.desk.pacer.phase = .halted → w.desk.machine.halted = true) ∧
    ((w.perform .run).2 = if w.desk.running || w.desk.machine.halted then .ok (.flag false)
      else if w.desk.loop then .ok (.flag true) else .error .noLoop) ∧
    ((w.perform .run).2 = .ok (.flag true) →
      (w.perform .run).1.desk.pacer.current = some w.desk.pacer.runs ∧
      (w.perform .run).1.desk.pacer.runs = w.desk.pacer.runs + 1) ∧
    (∀ run < w.desk.pacer.runs, (w.desk.pacer.endings.map Ending.run).count run =
      if w.desk.pacer.current = some run then 0 else 1) ∧
    (∀ op : Operation,
      (op.Ends c.challenges.length →
        (w.perform op).1.desk.pacer.endings = (w.desk.pacer.stop .idle).endings) ∧
      (¬ op.Ends c.challenges.length →
        (w.perform op).1.desk.pacer.endings = w.desk.pacer.endings)) ∧
    ∀ v, Stirs w v →
      (v.desk.pacer.current = w.desk.pacer.current ∧
        v.desk.pacer.endings = w.desk.pacer.endings) ∨
      (v.desk.pacer.current = none ∧
        v.desk.pacer.endings = (w.desk.pacer.stop .halted).endings) := by
  have horderly := h.orderly_of_harmless
  have hfine := horderly.unfailing fun _ hr => hr
  have hstep := horderly.inStep
  have hls : Modest (fun _ => False) w.listeners := horderly.modest
  refine ⟨hstep.running_iff_ticks trivial, hstep.ticks_eq_nil trivial, ?_,
    hstep.running trivial, hstep.halted, ?_,
    fun hrun => ?_, fun run hrun => hstep.sound.coherent.count_endings hrun, fun op => ?_,
    fun v hv => pacer_stirs horderly hv⟩
  · rw [show w.desk.running = w.desk.gears.pacer.running from rfl, ← hstep.sound.coherent.current]
    rfl
  · rw [hfine.answer .run]
    show w.desk.run.answer.map Answer.flag = _
    rw [hstep.answer_run]
    cases w.desk.running || w.desk.machine.halted <;> cases w.desk.loop <;> rfl
  · rw [pacer_perform hls .run]
    exact Desk.pacer_run ((hfine.answer .run).symm.trans hrun)
  · rw [pacer_perform hls op, ← horderly.catalog]
    exact Operation.endings_apply hstep.sound.coherent

/-- A second run is going on; the first one has been paused. -/
theorem second_run_in_step :
    ∃ w, Arises .standard (Work.Fits .standard) Reaction.Harmless w ∧ w.desk.running = true ∧
      (∃ id, w.desk.ticks = [id]) ∧ w.desk.pacer.endings = [⟨0, .idle⟩] ∧
      (w.desk.pacer.endings.map Ending.run).count 0 = 1 ∧
      (w.perform .pause).1.desk.pacer.endings = [⟨1, .idle⟩, ⟨0, .idle⟩] := by
  have hplain (op : Operation) (hop : ∀ s, op ≠ .restore s) :
      Restores (Work.Fits .standard) op := fun s hs => absurd hs (hop s)
  have hfirst := arises_firstBench (Work.Fits .standard) Reaction.Harmless
  have hrun := hfirst.perform (hplain .run (by simp))
  have hpause := hrun.perform (hplain .pause (by simp))
  have hagain := hpause.perform (hplain .run (by simp))
  obtain ⟨hticks, -, -, -, -, -, -, hcount, hends, -⟩ := runs_in_step hagain
  have hrunning : ((((firstBench.perform .run).1.perform .pause).1).perform
      .run).1.desk.running = true := by decide +kernel
  exact ⟨_, hagain, hrunning, hticks.1 hrunning, by decide +kernel,
    (hcount 0 (by decide +kernel)).trans (by decide +kernel),
    ((hends .pause).1 trivial).trans (by decide +kernel)⟩

theorem lost_challenge_leaves_run :
    ∃ w, Arises .standard (fun _ => True) Reaction.Harmless w ∧ w.desk.running = true ∧
      w.desk.ticks = [] ∧ w.desk.machine.halted = true ∧
      (w.perform .run).2 = .ok (.flag false) := by
  have hfirst := arises_firstBench (fun _ => True) Reaction.Harmless
  have hany (op : Operation) : Restores (fun _ => True) op := fun _ _ => trivial
  have hlost := hfirst.perform (hany (.restore ⟨some 99, none, none, none⟩))
  have hload := hlost.perform (hany (.loadTape [] 0))
  have hrun := hload.perform (hany .run)
  obtain ⟨w, hw⟩ : ∃ w, w = ((((firstBench.perform
    (.restore ⟨some 99, none, none, none⟩)).1.perform (.loadTape [] 0)).1).perform .run).1 :=
      ⟨_, rfl⟩
  rw [← hw] at hrun
  have hfire : Stirs w ((w.withAgenda { w.desk.agenda with queue := #[] }).fire .tick) :=
    @Stirs.fire w 0 .tick _ (by rw [hw]; decide +kernel) rfl
  refine ⟨_, hrun.stir hfire, ?_⟩
  rw [hw]
  decide +kernel

def crier (output : Output) : Listener := ⟨"crier", fun _ => [.print output]⟩

theorem refused_print_leaves_run :
    ∃ w, Arises .standard (Work.Fits .standard) (Reaction.Asking fun _ => False) w ∧
      w.desk.running = true ∧ w.desk.ticks = [] ∧ w.desk.machine.halted = false := by
  obtain ⟨host, hhost⟩ : ∃ host : Host, host = ⟨fun _ => some "", 100⟩ := ⟨_, rfl⟩
  have hnew : Arises .standard (Work.Fits .standard) (Reaction.Asking fun _ => False)
      (.new host firstDesk) :=
    @Arises.new .standard _ _ .default none .empty true firstDesk host new_firstDesk
  have hlistens := hnew.subscribe (l := crier (.line "")) (fun _ r hr => by
    obtain rfl := List.mem_singleton.1 hr
    trivial) fun op hop => by
      obtain ⟨d, hd⟩ := hop
      cases List.mem_singleton.1 hd
  have hrun := @Arises.perform _ _ _ _ .run hlistens fun s hs => absurd hs (by simp)
  obtain ⟨w, hw⟩ : ∃ w, w = (((Workbench.new host firstDesk).subscribe
    (crier (.line ""))).perform .run).1 := ⟨_, rfl⟩
  rw [← hw] at hrun
  have hfire : Stirs w ((w.withAgenda { w.desk.agenda with queue := #[] }).fire .tick) :=
    @Stirs.fire w 0 .tick _ (by rw [hw, hhost]; decide +kernel) rfl
  refine ⟨_, hrun.stir hfire, ?_⟩
  rw [hw, hhost]
  decide +kernel

/-- A run may be left behind that goes on without a timer: if a session has brought the number of a
challenge that there is not, and a tick has entered the halting state; and if a listener prints what
the console does not show. -/
theorem run_left_without_timer :
    (∃ w, Arises .standard (fun _ => True) Reaction.Harmless w ∧ w.desk.running = true ∧
      w.desk.ticks = [] ∧ w.desk.machine.halted = true ∧
      (w.perform .run).2 = .ok (.flag false)) ∧
    ∃ w, Arises .standard (Work.Fits .standard) (Reaction.Asking fun _ => False) w ∧
      w.desk.running = true ∧ w.desk.ticks = [] ∧ w.desk.machine.halted = false :=
  ⟨lost_challenge_leaves_run, refused_print_leaves_run⟩

end Workbench

end TapeLab
