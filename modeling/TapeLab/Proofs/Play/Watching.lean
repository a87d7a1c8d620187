import TapeLab.Proofs.Desk.Advance
import TapeLab.Proofs.Play.Saving
import TapeLab.Proofs.Workbench.Pacing

/-!
Runs that are watched. Whatever comes of waiting for Enter, and whenever it comes: when the watching
is over, no run is going on and no timer is set for a tick, the listeners are those from before, and
the machine has been advanced some times and nothing else has happened to the work. So no run is
going on where a command is expected, in any session.
-/

namespace TapeLab

open Workbench

variable {c : Catalog} {start w v u : Workbench}

namespace Play

variable {p : Play}

structure GoesOn (c : Catalog) (start w : Workbench) : Prop where
  governed : Governed c w
  listeners : w.listeners = start.listeners
  advanced : ∃ n, w.desk.work = start.desk.work.advanceMany n

/-- What a run has left of the workbench `w` when it is over. -/
structure Leaves (w v : Workbench) : Prop where
  idle : v.desk.running = false
  ticks : v.desk.ticks = []
  listeners : v.listeners = w.listeners
  catalog : v.desk.catalog = w.desk.catalog
  index : v.desk.index = w.desk.index
  rules : v.desk.machine.rules = w.desk.machine.rules
  machine : ∃ n, v.desk.machine = (w.desk.work.advanceMany n).machine

theorem goesOn_self (h : Governed c w) : GoesOn c w w := ⟨h, rfl, 0, rfl⟩

theorem GoesOn.stir (h : GoesOn c start w) (hv : Stirs w v) : GoesOn c start v := by
  have hgoverned := h.governed.stir hv
  cases hv with
  | @fire id alarm a _ _ =>
    cases alarm with
    | tick =>
      obtain ⟨hlisteners, hwork⟩ := paced_tick (w := w.withAgenda a)
        (h.governed.silent.mono fun _ hasked => hasked.elim)
      obtain ⟨n, hn⟩ := h.advanced
      refine ⟨hgoverned, hlisteners.trans h.listeners, ?_⟩
      split at hwork
      · exact ⟨n + 1, hwork.trans (congrArg Work.advanced hn)⟩
      · exact ⟨n, hwork.trans hn⟩
    | keeper alarm =>
      exact ⟨hgoverned, h.listeners,
        h.advanced.imp fun _ hn => (Desk.work_answerKeeper _ alarm).trans hn⟩
  | pass _ _ => exact ⟨hgoverned, h.listeners, h.advanced⟩

theorem enduring_goesOn : Enduring Operation.Pacing (GoesOn c start) where
  note w j h := ⟨h.governed.note j, h.listeners, h.advanced⟩
  stir _ _ h hv := h.stir hv
  perform w op h hop := by
    obtain ⟨hlisteners, hwork, -⟩ :=
      paced_perform (h.governed.silent.mono fun _ hasked => hasked.elim) op
    have hrestores : Restores (Work.Fits c) op := by
      rintro s rfl
      exact hop.elim
    exact ⟨h.governed.perform hrestores, hlisteners.trans h.listeners,
      h.advanced.imp fun _ hn => (hwork.trans (hop.work w.desk)).trans hn⟩

theorem attended_goesOn : Attended (GoesOn c start) where
  enduring := enduring_goesOn.mono fun op hop => by
    subst hop
    trivial
  silent _ h := h.governed.silent
  coherent _ h := h.governed.coherent

theorem GoesOn.leaves (h : AtRest (GoesOn c start) w) : Leaves start w := by
  obtain ⟨⟨hgoverned, hlisteners, n, hn⟩, hidle⟩ := h
  have hcatalog := (congrArg Work.catalog hn).trans (start.desk.work.advanceMany_catalog n)
  have hindex := (congrArg Work.index hn).trans (Work.advanceMany_index n start.desk.work)
  have hmachine := congrArg Work.machine hn
  have hrules := (congrArg Machine.rules hmachine).trans
    (Work.advanceMany_rules n start.desk.work)
  exact ⟨hidle, hgoverned.geared.ticks_eq_nil hidle, hlisteners, hcatalog, hindex, hrules,
    n, hmachine⟩

theorem GoesOn.flush (h : AtRest (GoesOn c start) w) : AtRest (GoesOn c start) w.flush := by
  obtain ⟨⟨hgoverned, hlisteners, hadvanced⟩, hidle⟩ := h
  exact ⟨⟨hgoverned.flush, hlisteners,
    hadvanced.imp fun _ hn => w.desk.work_flush.trans hn⟩,
    (congrArg Pacer.running (Desk.pacer_flush w.desk)).trans hidle⟩

theorem GoesOn.dropTracer (h : AtRest (GoesOn c (w.subscribe tracer)) v) :
    AtRest (GoesOn c w) (dropTracer v) := by
  obtain ⟨⟨hgoverned, hlisteners, hadvanced⟩, hidle⟩ := h
  refine ⟨⟨hgoverned.listen fun l hl => ?_, ?_, hadvanced⟩, hidle⟩
  · exact hgoverned.silent l (List.dropLast_subset _ hl)
  · show v.listeners.dropLast = w.listeners
    rw [hlisteners]
    exact List.dropLast_concat

theorem leaves_leave (e : Ending) (h : AtRest (GoesOn c w) v) : Leaves w (leave e v).bench :=
  GoesOn.leaves (GoesOn.flush h)

theorem leaves_proceed {r : Command.Result} (h : AtRest (GoesOn c w) r.1) :
    Leaves w (proceed r).bench := by
  unfold proceed
  split
  · exact GoesOn.leaves h
  · exact leaves_leave _ h

theorem leaves_unwatched {r : Command.Result} (h : AtRest (GoesOn c (w.subscribe tracer)) r.1) :
    Leaves w (proceed ((unwatch r).andThen Command.showMachine)).bench :=
  leaves_proceed (Attempt.andThen_keeps (GoesOn.dropTracer h) fun _ hv =>
    attended_goesOn.atRest.showView hv _)

theorem goesOn_watch (h : Governed c w) :
    GoesOn c (w.subscribe tracer) ((w.subscribe tracer).perform .run).1 := by
  refine enduring_goesOn.perform _ .run (goesOn_self (h.listen fun l hl => ?_)) trivial
  obtain hl | hl := List.mem_append.1 hl
  · exact h.silent l hl
  · exact silent_tracer l hl

theorem leaves_receive (h : GoesOn c (w.subscribe tracer) v) (patience : Nat) (reading : Reading) :
    Leaves w (receive patience reading ⟨v, .watching⟩).bench := by
  cases reading with
  | typed line => exact leaves_unwatched (attended_goesOn.runUntilEnter patience (some line) h)
  | ended delay =>
    unfold receive
    dsimp only
    split
    · have hended := attended_goesOn.awaitEnter patience delay h
      unfold endWatched
      dsimp only
      split
      · exact leaves_leave _ (GoesOn.dropTracer hended)
      · exact leaves_unwatched hended
    · exact leaves_unwatched (attended_goesOn.runUntilEnter patience none h)

/-- A workbench at a prompt: no run is going on and no timer is set for a tick, and the machine has
been shown as it stands. -/
structure AtPrompt (w : Workbench) : Prop where
  idle : w.desk.running = false
  ticks : w.desk.ticks = []
  shown : w.Shown

theorem watchUntil_eq_watch (h : (watch w).stage ≠ .watching) (patience : Nat)
    (reading : Reading) : watchUntil patience reading w = watch w := by
  unfold watchUntil
  dsimp only
  split
  · next hwatching => exact absurd hwatching h
  · rfl

theorem stage_proceed (r : Command.Result) : (proceed r).stage ≠ .watching := by
  unfold proceed
  split <;> nofun

theorem leaves_watchUntil (h : Governed c w)
    (hharmless : Reacting (Reaction.Harmless w.host) w.listeners) (hprompt : AtPrompt w)
    (hindents : w.host.Indents) (patience : Nat) (reading : Reading) :
    Leaves w (watchUntil patience reading w).bench := by
  have hrest : AtRest (GoesOn c w) w := ⟨goesOn_self h, hprompt.idle⟩
  obtain hwatch | ⟨f, hfailed, hwatch⟩ | hwatch := watch_cases w
  · rw [watchUntil_eq_watch (hwatch ▸ stage_proceed _), hwatch]
    exact leaves_proceed (attended_goesOn.atRest.print hrest _)
  · rw [watchUntil_eq_watch (by rw [hwatch]; nofun), hwatch]
    have hidle := idle_of_watch_fault hharmless hindents hprompt.shown hprompt.idle hfailed
    exact leaves_leave _ (GoesOn.dropTracer ⟨goesOn_watch h, hidle⟩)
  · unfold watchUntil
    rw [hwatch]
    exact leaves_receive (goesOn_watch h) patience reading

theorem habits_governed (c : Catalog) (host : Host) :
    Habits fun w => Governed c w ∧ w.host = host where
  enduring :=
    { note w j h := ⟨h.1.note j, h.2⟩
      stir w v h hv := by
        refine ⟨h.1.stir hv, ?_⟩
        cases hv with
        | @fire id alarm a _ _ => exact (stands_fire (w.withAgenda a) alarm).host.trans h.2
        | pass _ _ => exact h.2
      perform w op h hop :=
        ⟨h.1.perform fun s hs => absurd hs (hop s), (stands_perform op w).host.trans h.2⟩ }
  listen _ _ h hls := ⟨h.1.listen hls, h.2⟩
  silent _ h := h.1.silent
  coherent _ h := h.1.coherent

theorem within_play {settings : Settings} {fresh : Bool} {env : CommandLine.Environment}
    (hplay : CommandLine.play settings fresh env = .playing p) :
    p.Within fun w => Governed .standard w ∧ w.host = env.host := by
  unfold CommandLine.play at hplay
  split at hplay
  · cases hplay
  · split at hplay
    · cases hplay
    · next hdesk =>
      obtain rfl := CommandLine.Progress.playing.inj hplay
      obtain ⟨hgoverned, hidle⟩ := rest_playDesk hdesk env.host
      exact (habits_governed .standard env.host).start ⟨⟨⟨hgoverned, rfl⟩, rfl⟩, hidle⟩
        fun v hv => flush_of_new (hv.trans (keeper_playDesk hdesk))

theorem work_command_perform {op : Operation} {next : Answer → Workbench → Command.Result}
    (hnext : ∀ answer v, (next answer v).1.desk.work = v.desk.work) :
    (Command.perform op w next).1.desk.work = (w.perform op).1.desk.work := by
  unfold Command.perform
  split
  · next v f hfailed => rw [hfailed]
  · next v answer hdone =>
    rw [hdone]
    refine Attempt.andThen_keeps (P := fun u => u.desk.work = v.desk.work) (hnext answer v)
      fun u hu => ?_
    obtain ⟨j, hj⟩ := Command.showView_eq u.desk.machineView u
    exact (congrArg (fun u => u.desk.work) hj).trans hu

theorem work_typed_step (h : Governed c w) (hidle : w.desk.running = false)
    (hhalted : w.desk.machine.halted = false) :
    (Command.handle "s" [] w).1.desk.work = w.desk.work.advanced := by
  have hperform := (perform_step (h.silent.mono fun _ hasked => hasked.elim)).1
  rw [hidle, hhalted] at hperform
  refine Eq.trans ?_ hperform
  show (Command.step w).1.desk.work = _
  unfold Command.step
  rw [hhalted]
  refine work_command_perform fun answer v => ?_
  dsimp only
  split
  · rfl
  · exact Command.work_print _ v

theorem work_typed_undo (h : Governed c w) (hidle : w.desk.running = false)
    {m : Machine} (hundo : w.desk.machine.undo? = some m) :
    (Command.handle "u" [] w).1.desk.work = { w.desk.work with machine := m } := by
  obtain ⟨v, hperform, -, -, hwork⟩ :=
    calm_undo (h.silent.mono fun _ hasked => hasked.elim) hidle hundo
  have hperformed : (w.perform .undo).1.desk.work = v.desk.work :=
    congrArg (fun r => r.1.desk.work) hperform
  refine (work_command_perform fun answer v => ?_).trans (hperformed.trans hwork)
  unfold Command.unlessDone
  split
  · exact Command.work_print _ v
  · rfl

/-- What a run that is watched leaves of a workbench at a prompt. Enter or the end of the input may
come at any time, while the run is going on or after its end, and time may pass before that is
noticed and afterwards; the console may refuse a line in the middle of the run or after it. When the
watching is over, so is the run, and nothing else has happened than that the machine has been
advanced. So at every prompt of every session no run is going on, and neither a step nor an undo is
refused for one. -/
theorem runs_are_over_at_prompt (h : Arises c (Work.Fits c) Reaction.Harmless w)
    (hprompt : AtPrompt w) (hindents : w.host.Indents) {settings : Settings} {fresh : Bool}
    {env : CommandLine.Environment} {p : Play}
    (hplay : CommandLine.play settings fresh env = .playing p) (henv : env.host.Indents) :
    (∀ patience reading, Leaves w (watchUntil patience reading w).bench) ∧
    (∀ v u, (watch w).stage = .watching → Relation.ReflTransGen Stirs (watch w).bench v →
      (Relation.ReflTransGen Stirs (Command.printLine pausedLine (v.perform .pause).1).1 u ∨
        v.desk.running = false ∧
          Relation.ReflTransGen Stirs (Command.printLine finishedLine v).1 u) →
      Leaves w (dropTracer u)) ∧
    ∀ (patience : Nat) (readings : List Reading) (q : Play),
      q = readings.foldl (fun p reading => p.receive patience reading) p → q.stage = .prompt →
        AtPrompt q.bench ∧ q.bench.listeners = [] ∧
        (q.bench.desk.machine.halted = false →
          (Command.handle "s" [] q.bench).1.desk.work = q.bench.desk.work.advanced) ∧
        (∀ m, q.bench.desk.machine.undo? = some m →
          (Command.handle "u" [] q.bench).1.desk.work = { q.bench.desk.work with machine := m }) ∧
        ∀ reading, Leaves q.bench (watchUntil patience reading q.bench).bench := by
  have hgoverned : Governed c w := h.governed fun _ _ hasked => hasked
  have hharmless := h.orderly_of_harmless.listeners
  refine ⟨leaves_watchUntil hgoverned hharmless hprompt hindents,
    fun v u hwatching hv hu => ?_, fun patience readings q hq hstage => ?_⟩
  · have hbegun : GoesOn c (w.subscribe tracer) (watch w).bench := by
      obtain hwatch | ⟨f, -, hwatch⟩ | hwatch := watch_cases w
      · exact absurd (hwatch ▸ hwatching) (stage_proceed _)
      · rw [hwatch] at hwatching
        cases hwatching
      · exact hwatch ▸ goesOn_watch hgoverned
    have hwatched : GoesOn c (w.subscribe tracer) v :=
      attended_goesOn.enduring.abiding.reached hbegun hv
    have habiding := (@attended_goesOn c (w.subscribe tracer)).atRest.abiding
    have hover : AtRest (GoesOn c (w.subscribe tracer)) u := by
      obtain hpaused | ⟨hended, hfinished⟩ := hu
      · exact habiding.reached
          (attended_goesOn.atRest.print (attended_goesOn.pause hwatched) _) hpaused
      · exact habiding.reached (attended_goesOn.atRest.print ⟨hwatched, hended⟩ _) hfinished
    exact GoesOn.leaves (GoesOn.dropTracer hover)
  · have hwithin : q.Within fun w => Governed .standard w ∧ w.host = env.host := by
      rw [hq]
      exact (habits_governed .standard env.host).receiveAll patience readings (within_play hplay)
    obtain ⟨bench, stage⟩ := q
    obtain rfl : stage = .prompt := hstage
    obtain ⟨⟨⟨⟨hbench, hhost⟩, halone⟩, hrest⟩, hshown⟩ := hwithin
    have hat : AtPrompt bench := ⟨hrest, hbench.geared.ticks_eq_nil hrest, hshown⟩
    have hnone : Reacting (Reaction.Harmless bench.host) bench.listeners := by
      rw [halone]
      exact fun l hl => absurd hl List.not_mem_nil
    exact ⟨hat, halone, work_typed_step hbench hrest, fun m => work_typed_undo hbench hrest,
      leaves_watchUntil hbench hnone hat (hhost ▸ henv) patience⟩

/-- The input ends while the inverter is run: the run is paused after two steps and a command is
expected. The input ends after the inverter has halted: that is the end of playing. -/
theorem input_ends_in_run :
    ∃ paused finished, paused = watchUntil 30 (.ended 700) firstBench ∧
      finished = watchUntil 30 (.ended 70000) firstBench ∧
      AtPrompt firstBench ∧ firstBench.host.Indents ∧
      paused.stage = .prompt ∧ paused.bench.desk.machine.steps = 2 ∧
      Leaves firstBench paused.bench ∧
      finished.stage = .over .endOfInput ∧ finished.bench.desk.machine.steps = 8 ∧
      Leaves firstBench finished.bench := by
  have harises := arises_firstBench (Work.Fits .standard) Reaction.Harmless
  have hprompt : AtPrompt firstBench := ⟨rfl, rfl, rfl⟩
  have hindents : Host.plain.Indents := fun _ _ _ => rfl
  obtain ⟨p, hplay⟩ : ∃ p, CommandLine.play
      { Settings.default with sessionFile := ⟨"", ["last.json"]⟩ } true
        ⟨.ofText "/", .empty, .plain⟩ = .playing p := ⟨_, rfl⟩
  obtain ⟨hleaves, -⟩ := runs_are_over_at_prompt harises hprompt hindents hplay hindents
  exact ⟨_, _, rfl, rfl, hprompt, hindents, by decide +kernel, by decide +kernel, hleaves 30 _,
    by decide +kernel, by decide +kernel, hleaves 30 _⟩

end Play

end TapeLab
