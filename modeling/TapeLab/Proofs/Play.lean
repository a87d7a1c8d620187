import TapeLab.Play
import TapeLab.Proofs.Command
import TapeLab.Proofs.Workbench.Geared
import TapeLab.Proofs.Workbench.Waiting

/-!
Playing, from the first line to the last. While a command is expected no run is going on and the
machine has been shown as it stands; and however playing ends, the keeper is flushed. What is kept
by what typed lines bring about is kept throughout.
-/

namespace TapeLab

namespace Desk

variable {d : Desk}

theorem desk_run_of_error {f : Fault} (h : d.run.answer = .error f) : d.run = .failed d f := by
  rw [run_eq] at h ⊢
  split at h
  · next hfree =>
    split at h
    · cases h
    · next hloop =>
      rw [if_pos hfree, if_neg hloop]
      cases h
      rfl
  · cases h

end Desk

theorem Pacer.current_endTick {α : Type} (tick : α) (more halted : Bool) (p : Pacer)
    (a : Agenda α) :
    (p.endTick tick more halted a).1.current = p.current ∨
      (p.endTick tick more halted a).1.running = false := by
  unfold endTick
  split
  · exact .inl rfl
  · split
    · exact .inl rfl
    · right
      cases halted <;> rfl

namespace Workbench

variable {may : Operation → Prop} {P : Workbench → Prop} {w v : Workbench} {run : Nat}

theorem current_tick_of_silent (hls : Silent w.listeners) :
    w.tick.desk.pacer.current = w.desk.pacer.current ∧ w.desk.running = true ∨
      w.tick.desk.running = false := by
  obtain ⟨d, hd⟩ : ∃ d, d = { w.desk with pacer := w.desk.pacer.beginTick } := ⟨_, rfl⟩
  have hrunning : d.running = w.desk.running := by rw [hd]; rfl
  have hcurrent : d.pacer.current = w.desk.pacer.current := by rw [hd]; rfl
  unfold tick
  simp only [← hd, hrunning]
  cases hrun : w.desk.running with
  | false => exact .inr (hrunning.trans hrun)
  | true =>
    have htell : ({ w with desk := d.advance.desk }.tell d.advance.change).1.desk.pacer = d.pacer :=
      (pacer_tell (w := { w with desk := d.advance.desk }) hls _).trans
        (congrArg Gears.pacer d.gears_advance)
    generalize { w with desk := d.advance.desk }.tell d.advance.change = r at htell
    simp only [Bool.not_true, Bool.false_eq_true, if_false, and_true]
    split
    · next v more _ =>
      obtain hsame | hover :=
        v.desk.pacer.current_endTick Alarm.tick more v.desk.machine.halted v.desk.agenda
      · exact .inl (hsame.trans ((congrArg Pacer.current htell).trans hcurrent))
      · exact .inr hover
    · exact .inl ((congrArg Pacer.current htell).trans hcurrent)

theorem Enduring.abiding (h : Enduring may P) : Abiding P := h.stir

theorem Enduring.idle (h : Enduring may P) (hsilent : ∀ w, P w → Silent w.listeners) :
    Enduring (fun op => may op ∧ op ≠ .run) fun w => P w ∧ w.desk.running = false where
  note w j hw := ⟨h.note w j hw.1, hw.2⟩
  stir w v hw hv := ⟨h.stir w v hw.1 hv, idle_stirs hw.2 hv⟩
  perform w op hw hop := by
    have hpacer := pacer_perform (hsilent w hw.1) op
    exact ⟨h.perform w op hw.1 hop.1,
      (congrArg Pacer.running hpacer).trans (op.running_of_idle hop.2 hw.2)⟩

theorem Enduring.among (h : Enduring may P) (ls : List Listener) :
    Enduring may fun w => P w ∧ w.listeners = ls where
  note w j hw := ⟨h.note w j hw.1, hw.2⟩
  stir w v hw hv := by
    refine ⟨h.stir w v hw.1 hv, ?_⟩
    cases hv with
    | @fire id alarm a _ _ => exact (stands_fire (w.withAgenda a) alarm).listeners.trans hw.2
    | pass _ _ => exact hw.2
  perform w op hw hop :=
    ⟨h.perform w op hw.1 hop, (stands_perform op w).listeners.trans hw.2⟩

theorem current_stirs (hls : Silent w.listeners)
    (hw : w.desk.pacer.current = some run ∨ w.desk.running = false) (hv : Stirs w v) :
    v.desk.pacer.current = some run ∨ v.desk.running = false := by
  obtain hcurrent | hidle := hw
  · cases hv with
    | @fire id alarm a _ _ =>
      cases alarm with
      | tick =>
        obtain ⟨hsame, -⟩ | hover := current_tick_of_silent (w := w.withAgenda a) hls
        · exact .inl (hsame.trans hcurrent)
        · exact .inr hover
      | keeper alarm =>
        exact .inl ((congrArg Pacer.current (Desk.pacer_answerKeeper _ alarm)).trans hcurrent)
    | pass _ _ => exact .inl hcurrent
  · exact .inr (idle_stirs hidle hv)

theorem Abiding.current (h : Abiding P) (hsilent : ∀ w, P w → Silent w.listeners) (run : Nat) :
    Abiding fun w => P w ∧ (w.desk.pacer.current = some run ∨ w.desk.running = false) :=
  fun w v hw hv => ⟨h w v hw.1 hv, current_stirs (hsilent w hw.1) hw.2 hv⟩

end Workbench

/-- Digits and spaces in front of a line are no reason to refuse it. -/
def Host.Indents (h : Host) : Prop :=
  ∀ (n : Int) (markup : String), h.Takes (.line markup) →
    h.Takes (.line s!"{Machine.stepText n}    {markup}")

namespace Play

open Workbench

variable {P : Workbench → Prop} {w : Workbench} {p : Play}

def AtRest (P : Workbench → Prop) (w : Workbench) : Prop := P w ∧ w.desk.running = false

/-- What is kept while a run is watched: listeners that ask for nothing, and a pacer that tells the
ends of its runs. -/
structure Attended (P : Workbench → Prop) : Prop where
  enduring : Enduring (fun op => op = .pause) P
  silent : ∀ w, P w → Silent w.listeners
  coherent : ∀ w, P w → w.desk.pacer.Coherent

/-- What playing keeps: it listens and does not go to sessions, and a run that it has waited for has
ended. -/
structure Habits (P : Workbench → Prop) : Prop where
  enduring : Enduring (fun op => ∀ s, op ≠ .restore s) P
  listen : ∀ w ls, P w → Silent ls → P { w with listeners := ls }
  silent : ∀ w, P w → Silent w.listeners
  coherent : ∀ w, P w → w.desk.pacer.Coherent

theorem Attended.atRest (h : Attended P) :
    Enduring (fun op => op = .pause ∧ op ≠ .run) (AtRest P) := h.enduring.idle h.silent

def Among (P : Workbench → Prop) (ls : List Listener) (w : Workbench) : Prop :=
  P w ∧ w.listeners = ls

theorem Habits.attended (h : Habits P) : Attended (Among P [tracer]) where
  enduring := (h.enduring.mono fun op hop s => by rintro rfl; cases hop).among [tracer]
  silent w hw := h.silent w hw.1
  coherent w hw := h.coherent w hw.1

theorem Habits.atPrompt (h : Habits P) :
    Enduring (fun op => (∀ s, op ≠ .restore s) ∧ op ≠ .run) (AtRest (Among P [])) :=
  (h.enduring.among []).idle fun w hw => h.silent w hw.1

/-- At the prompt no run is going on and the machine has been shown. When playing is over, the
keeper has been flushed, and no run was going on then, if the console is as it should be. -/
def Within (P : Workbench → Prop) (p : Play) : Prop :=
  match p.stage with
  | .prompt => AtRest (Among P []) p.bench ∧ p.bench.Shown
  | .watching => Among P [tracer] p.bench
  | .over _ => ∃ w, P w ∧ p.bench = w.flush ∧ (w.host.Indents → w.desk.running = false)

theorem within_leave (e : Ending) (hw : P w) (hidle : w.host.Indents → w.desk.running = false) :
    (leave e w).Within P := ⟨w, hw, rfl, hidle⟩

theorem within_conclude {r : Command.Result} (e : Ending) (hr : AtRest (Among P []) r.1) :
    (conclude e r).Within P := within_leave _ hr.1.1 fun _ => hr.2

theorem within_proceed {r : Command.Result} (hr : AtRest (Among P []) r.1)
    (hshown : r.2 = none → r.1.Shown) : (proceed r).Within P := by
  unfold proceed
  split
  · next hfine => exact ⟨hr, hshown hfine⟩
  · exact within_leave _ hr.1.1 fun _ => hr.2

theorem start_bench (w : Workbench) :
    ∃ j, (start w).bench = { w with desk := { w.desk with journal := j } } := by
  show ∃ j, ((Command.printLine Command.help w).andThen fun w =>
    Command.showView w.desk.challengeView w).1 = _
  refine Attempt.andThen_keeps
    (P := fun v => ∃ j, v = { w with desk := { w.desk with journal := j } })
    (Command.print_eq _ w) ?_
  rintro v ⟨j, rfl⟩
  exact Command.showView_eq _ _

theorem Habits.start (h : Habits P) (hw : AtRest (Among P []) w)
    (hclean : ∀ v : Workbench, v.desk.keeper = w.desk.keeper → v.flush = v) :
    (start w).Within P := by
  obtain ⟨j, hj⟩ := start_bench w
  have hrest : AtRest (Among P []) (Play.start w).bench := hj ▸ h.atPrompt.note w j hw
  have hsame : (Play.start w).bench.flush = (Play.start w).bench := hclean _ (by rw [hj])
  obtain ⟨r, hr⟩ : ∃ r, r = (Command.printLine Command.help w).andThen fun w =>
      Command.showView w.desk.challengeView w := ⟨_, rfl⟩
  have hstart : Play.start w = ⟨r.1, (r.2.map fun e => Stage.over (.fault e)).getD .prompt⟩ := by
    rw [hr]
    rfl
  rw [hstart] at hrest hsame ⊢
  cases hfault : r.2 with
  | some e => exact ⟨r.1, hrest.1.1, hsame.symm, fun _ => hrest.2⟩
  | none =>
    refine ⟨hrest, ?_⟩
    rw [hr] at hfault ⊢
    have hshow := (Attempt.andThen_of_none hfault).2
    rw [hshow] at hfault ⊢
    exact Command.shown_showChallenge hfault

theorem silent_tracer : Silent [tracer] := by
  intro l hl op hop
  obtain rfl := List.mem_singleton.1 hl
  obtain ⟨d, hd⟩ := hop
  unfold tracer at hd
  dsimp only at hd
  split at hd
  · cases List.mem_singleton.1 hd
  · cases hd

theorem Habits.dropTracer (h : Habits P) (hw : AtRest (Among P [tracer]) w) :
    AtRest (Among P []) (dropTracer w) := by
  obtain ⟨⟨hP, hlisteners⟩, hidle⟩ := hw
  have hdropped : (Play.dropTracer w).listeners = [] := by
    rw [Play.dropTracer, hlisteners]
    rfl
  have hsilent : Silent (Play.dropTracer w).listeners := by
    rw [hdropped]
    exact fun l hl => absurd hl List.not_mem_nil
  exact ⟨⟨h.listen w _ hP hsilent, hdropped⟩, hidle⟩

theorem Attended.pause (h : Attended P) (hw : P w) : AtRest P (w.perform .pause).1 := by
  refine ⟨h.enduring.perform w .pause hw rfl, ?_⟩
  have hpacer : (w.perform .pause).1.desk.pacer = w.desk.pause.desk.pacer :=
    pacer_perform (h.silent w hw) .pause
  refine (congrArg Pacer.running hpacer).trans ?_
  cases hrunning : w.desk.running with
  | true => rw [Desk.pacer_pause hrunning]; rfl
  | false =>
    rw [Desk.pause, hrunning]
    exact hrunning

theorem Attended.interrupt (h : Attended P) (patience : Nat) (hw : P w) :
    AtRest P (interrupt patience w).1 := by
  have hpaused := h.pause (h.enduring.abiding.passTurns hw patience 2)
  unfold Play.interrupt
  split
  · next v f hfailed => rwa [hfailed] at hpaused
  · next v answer hdone =>
    rw [hdone] at hpaused
    exact Attempt.andThen_keeps (h.atRest.print hpaused _) fun u hu =>
      h.atRest.abiding.passTurns hu patience 3

theorem Attended.outlast (h : Attended P) (patience enter : Nat) (hw : AtRest P w) :
    AtRest P (outlast patience enter w).1 := by
  refine Attempt.andThen_keeps (h.atRest.print (h.atRest.abiding.passTurns hw patience 4) _)
    fun u hu => ?_
  dsimp only
  split
  · exact hu
  · exact h.atRest.abiding.passTurns (h.atRest.abiding.goUntil hu _ patience) patience 1

theorem idle_of_ending (hcoherent : w.desk.pacer.Coherent) {run : Nat} {e : TapeLab.Ending}
    (hended : w.desk.pacer.ending? run = some e)
    (hcurrent : w.desk.pacer.current = some run ∨ w.desk.running = false) :
    w.desk.running = false := by
  obtain hcurrent | hidle := hcurrent
  · have hdistinct := hcoherent.told.nodup_iff.2 List.nodup_range
    rw [hcurrent, Option.toList_some, List.singleton_append, List.nodup_cons] at hdistinct
    have hrun : e.run = run := by simpa using List.find?_some hended
    exact absurd (List.mem_map.2 ⟨e, List.mem_of_find?_eq_some hended, hrun⟩) hdistinct.1
  · exact hidle

section Waiting

variable (habiding : Abiding P) (hsilent : ∀ w, P w → Silent w.listeners)
  (hcoherent : ∀ w, P w → w.desk.pacer.Coherent) (patience : Nat)

include habiding hsilent hcoherent

theorem awaitEnter_cases (delay : Rat) (hw : P w) :
    ∃ u, P u ∧
      (finishes patience delay w = false ∧ awaitEnter patience delay w = interrupt patience u ∨
        finishes patience delay w = true ∧ u.desk.running = false ∧
          ∃ bell, awaitEnter patience delay w = outlast patience bell u) := by
  obtain ⟨v, hv⟩ : ∃ v, v = (clockwork.setBell (.finite delay) 0 w).1 := ⟨_, rfl⟩
  obtain ⟨bell, hbell⟩ : ∃ bell, bell = (clockwork.setBell (.finite delay) 0 w).2 := ⟨_, rfl⟩
  have hP : P v := hv ▸ habiding.setBell hw _ _
  unfold awaitEnter finishes
  simp only [← hv, ← hbell]
  cases hrun : v.desk.pacer.current with
  | none =>
    have hidle : v.desk.running = false := by
      have hcurrent := (hcoherent v hP).current
      rw [hrun] at hcurrent
      exact hcurrent.symm
    exact ⟨v, hP, .inr ⟨rfl, hidle, bell, rfl⟩⟩
  | some run =>
    obtain ⟨hwaited, hcurrent⟩ := (habiding.current hsilent run).goUntil ⟨hP, .inl hrun⟩
      (fun w => ((clockwork.pacer w).ending? run).isSome ||
        (some bell).any fun b => clockwork.hasRung b w) patience
    unfold PacedClockwork.awaitEnding
    dsimp only
    generalize clockwork.goUntil _ patience v = u at hwaited hcurrent ⊢
    cases hended : (clockwork.pacer u).ending? run with
    | none => exact ⟨u, hwaited, .inl ⟨rfl, rfl⟩⟩
    | some e =>
      have hidle := idle_of_ending (hcoherent u hwaited) hended hcurrent
      exact ⟨u, hwaited, .inr ⟨rfl, hidle, bell, rfl⟩⟩

theorem runUntilEnter_cases (enter : Option TypedLine) (hw : P w) :
    ∃ u, P u ∧ (runUntilEnter patience enter w = interrupt patience u ∨
      u.desk.running = false ∧
        ∃ bell, runUntilEnter patience enter w = outlast patience bell u) := by
  unfold runUntilEnter
  split
  · exact ⟨w, hw, .inl rfl⟩
  · next line =>
    dsimp only
    split
    · obtain ⟨u, hu, ⟨-, hpaused⟩ | ⟨-, hfinished⟩⟩ :=
        awaitEnter_cases habiding hsilent hcoherent patience (line.delay.getD enterDelay) hw
      · exact ⟨u, hu, .inl hpaused⟩
      · exact ⟨u, hu, .inr hfinished⟩
    · exact ⟨w, hw, .inl rfl⟩

end Waiting

theorem Attended.awaitEnter (h : Attended P) (patience : Nat) (delay : Rat) (hw : P w) :
    AtRest P (awaitEnter patience delay w).1 := by
  obtain ⟨u, hu, ⟨-, hpaused⟩ | ⟨-, hidle, bell, hfinished⟩⟩ :=
    awaitEnter_cases h.enduring.abiding h.silent h.coherent patience delay hw
  · exact hpaused ▸ h.interrupt patience hu
  · exact hfinished ▸ h.outlast patience bell ⟨hu, hidle⟩

theorem Attended.runUntilEnter (h : Attended P) (patience : Nat) (enter : Option TypedLine)
    (hw : P w) : AtRest P (runUntilEnter patience enter w).1 := by
  obtain ⟨u, hu, hpaused | ⟨hidle, bell, hfinished⟩⟩ :=
    runUntilEnter_cases h.enduring.abiding h.silent h.coherent patience enter hw
  · exact hpaused ▸ h.interrupt patience hu
  · exact hfinished ▸ h.outlast patience bell ⟨hu, hidle⟩

theorem harmless_tracer (hindents : w.host.Indents) (hshown : w.Shown) {d : Desk}
    (hmachine : d.machine = w.desk.machine) : ∀ r ∈ tracer.react d, r.Harmless w.host := by
  unfold tracer
  dsimp only
  split
  · rintro r hr
    obtain rfl := List.mem_singleton.1 hr
    have htakes := hindents d.machine.steps _ hshown
    rwa [← hmachine] at htakes
  · exact fun r hr => absurd hr List.not_mem_nil

theorem idle_of_watch_fault (hls : Reacting (Reaction.Harmless w.host) w.listeners)
    (hindents : w.host.Indents) (hshown : w.Shown) (hidle : w.desk.running = false) {f : Fault}
    (hfault : ((w.subscribe tracer).perform .run).2 = .error f) :
    ((w.subscribe tracer).perform .run).1.desk.running = false := by
  have hrun : Operation.run.apply (w.subscribe tracer).desk = w.desk.run.map .flag := rfl
  have hmachine : w.desk.run.desk.machine = w.desk.machine :=
    congrArg Work.machine (@Operation.Pacing.work .run trivial w.desk)
  have htold : ((w.subscribe tracer).announced .run).2 = none := by
    refine tell_of_harmless (w := { w.subscribe tracer with desk := w.desk.run.desk })
      (fun l hl d hd => ?_) _
    rcases List.mem_append.1 hl with hl | hl
    · exact hls l hl d
    · obtain rfl := List.mem_singleton.1 hl
      exact harmless_tracer hindents hshown (hd.trans hmachine)
  rw [perform_snd, htold, hrun] at hfault
  have hfailed : w.desk.run.answer = .error f := by
    cases hanswer : w.desk.run.answer with
    | error g =>
      simp only [Outcome.map, hanswer] at hfault
      cases hfault
      rfl
    | ok more =>
      simp only [Outcome.map, hanswer] at hfault
      cases hfault
  rw [perform_fst, announced, hrun, Desk.desk_run_of_error hfailed]
  exact hidle

theorem watch_cases (w : Workbench) :
    watch w = proceed (Command.printLine Command.haltedLine w) ∨
      (∃ f, ((w.subscribe tracer).perform .run).2 = .error f ∧
        watch w = leave (.fault (.fault f)) (dropTracer ((w.subscribe tracer).perform .run).1)) ∨
      watch w = ⟨((w.subscribe tracer).perform .run).1, .watching⟩ := by
  unfold watch
  split
  · exact .inl rfl
  · right
    split
    · next v f hfailed => exact .inl ⟨f, by rw [hfailed], by rw [hfailed]⟩
    · next v answer hdone => exact .inr (by rw [hdone])

theorem Habits.watch (h : Habits P) (hw : AtRest (Among P []) w) (hshown : w.Shown) :
    (watch w).Within P := by
  have hlisteners : w.listeners ++ [tracer] = [tracer] := by rw [hw.1.2]; rfl
  have hbegun : Among P [tracer] ((w.subscribe tracer).perform .run).1 := by
    refine (h.enduring.among [tracer]).perform _ .run ⟨h.listen w _ hw.1.1 ?_, hlisteners⟩ nofun
    rw [hlisteners]
    exact silent_tracer
  obtain hwatch | ⟨f, hfailed, hwatch⟩ | hwatch := watch_cases w <;> rw [hwatch]
  · exact within_proceed (h.atPrompt.print hw _) fun _ => Command.shown_print hshown _
  · refine within_leave _ (h.listen _ _ hbegun.1 ?_) fun hindents => ?_
    · rw [hbegun.2]
      exact fun l hl => absurd hl List.not_mem_nil
    · have hhost : ((w.subscribe tracer).perform .run).1.host = w.host :=
        (stands_perform .run (w.subscribe tracer)).host
      refine idle_of_watch_fault (fun l hl => ?_) (hhost ▸ hindents) hshown hw.2 hfailed
      rw [hw.1.2] at hl
      exact absurd hl List.not_mem_nil
  · exact hbegun

theorem Habits.unwatched (h : Habits P) {r : Command.Result}
    (hr : AtRest (Among P [tracer]) r.1) :
    (proceed ((unwatch r).andThen Command.showMachine)).Within P := by
  have hdropped : AtRest (Among P []) (unwatch r).1 := h.dropTracer hr
  refine within_proceed (Attempt.andThen_keeps hdropped fun v hv => h.atPrompt.showView hv _)
    fun hfine => ?_
  have hshow := (Attempt.andThen_of_none hfine).2
  rw [hshow] at hfine ⊢
  exact Command.shown_showMachine hfine

theorem shown_stirs {v : Workbench} (hidle : w.desk.running = false) (hshown : w.Shown)
    (hv : Stirs w v) : v.Shown := by
  cases hv with
  | @fire id alarm a _ _ =>
    cases alarm with
    | tick =>
      show ((w.withAgenda a).tick).Shown
      rw [tick_of_idle (w := w.withAgenda a) hidle]
      exact hshown
    | keeper alarm =>
      have hmachine := congrArg Work.machine ((w.withAgenda a).desk.work_answerKeeper alarm)
      show w.host.Takes (.line ((w.withAgenda a).desk.answerKeeper alarm).machine.snapshot.markup)
      rw [show ((w.withAgenda a).desk.answerKeeper alarm).machine = w.desk.machine from hmachine]
      exact hshown
  | pass _ _ => exact hshown

theorem Habits.await (h : Habits P) (patience : Nat) (line : TypedLine)
    (hw : AtRest (Among P []) w ∧ w.Shown) :
    AtRest (Among P []) (await patience line w) ∧ (await patience line w).Shown := by
  have habiding : Abiding fun v => AtRest (Among P []) v ∧ v.Shown :=
    fun u v hu hv => ⟨h.atPrompt.stir u v hu.1 hv, shown_stirs hu.1.2 hu.2 hv⟩
  unfold Play.await
  split
  · exact hw
  · split
    · exact habiding.sleep hw patience _
    · exact hw

theorem Habits.command (h : Habits P) (line : String) (hw : AtRest (Among P []) w)
    (hshown : w.Shown) : (command line w).Within P := by
  unfold Play.command
  split
  · exact within_leave _ hw.1.1 fun _ => hw.2
  · exact h.watch hw hshown
  · refine within_proceed (h.atPrompt.handle (fun op hop => ⟨hop.ne_restore, ?_⟩) _ _ hw)
      (Command.shown_handle _ _ hshown)
    rintro rfl
    exact hop

theorem Habits.read (h : Habits P) (patience : Nat) (line : Option TypedLine) (hp : p.Within P) :
    (p.read patience line).Within P := by
  obtain ⟨bench, stage⟩ := p
  match stage with
  | .over e => exact hp
  | .prompt =>
    cases line with
    | none => exact within_leave _ hp.1.1.1 fun _ => hp.1.2
    | some line =>
      obtain ⟨hrest, hshown⟩ := h.await patience line hp
      exact h.command _ hrest hshown
  | .watching => exact h.unwatched (h.attended.runUntilEnter patience line hp)

theorem Habits.receive (h : Habits P) (patience : Nat) (reading : Reading) (hp : p.Within P) :
    (p.receive patience reading).Within P := by
  obtain ⟨bench, stage⟩ := p
  cases reading with
  | typed line =>
    match stage with
    | .over e => exact hp
    | .prompt => exact h.read patience (some line) hp
    | .watching => exact h.read patience (some line) hp
  | ended delay =>
    match stage with
    | .over e => exact hp
    | .prompt =>
      obtain ⟨hrest, -⟩ := h.await patience ⟨some delay, ""⟩ hp
      exact within_leave _ hrest.1.1 fun _ => hrest.2
    | .watching =>
      unfold Play.receive
      dsimp only
      split
      · have hended := h.attended.awaitEnter patience delay hp
        unfold endWatched
        dsimp only
        split
        · exact within_conclude _ (h.dropTracer hended)
        · exact h.unwatched hended
      · exact h.read patience none hp

theorem Habits.receiveAll (h : Habits P) (patience : Nat) (readings : List Reading)
    (hp : p.Within P) :
    (readings.foldl (fun p reading => p.receive patience reading) p).Within P :=
  List.foldlRecOn readings _ hp fun _ hq reading _ => h.receive patience reading hq

end Play

end TapeLab
