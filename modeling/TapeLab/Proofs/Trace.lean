import TapeLab.Proofs.Play
import TapeLab.Proofs.Trial.Run
import TapeLab.Proofs.Workbench.Tracing

/-!
The traces that are shown of runs, by the watcher of a trial and by the tracer of a run that is
watched. Both show every transition once, in order, with the number of its step. They show more than
that: a run that follows a transition begins with the line of this one, and a trial that the limit
ends shows its last line twice.
-/

namespace TapeLab

open Workbench

variable {c : Catalog} {asked : Host → Reaction → Prop} {start w v : Workbench} {limit n : Nat}

namespace Trial

theorem journal_saved (change : Change) (d : Desk) : (saved change d).journal = d.journal := by
  cases change with
  | passing => rfl
  | kept => exact d.journal_scheduleSave

theorem tracing_watcher (limit : Nat) {host : Host} (hdepth : 0 < host.depth) :
    Tracing host True (watcher limit true) where
  pacing := (calm_watcher (w := { firstBench with listeners := [watcher limit true] }) rfl).mono
    fun _ h => h.pacing
  told w change hhost hl hrunning hshows := by
    have hmachine : (saved change w.desk).machine = w.desk.machine :=
      congrArg Work.machine (work_saved change w.desk)
    have hpaused := (saved change w.desk).running_paused
    have hsaved : (saved change w.desk).running = true :=
      (congrArg Pacer.running (pacer_saved change w.desk)).trans hrunning
    refine ⟨_, tell_watcher hl (hhost ▸ hdepth) (fun _ => hhost ▸ hshows) change, ?_,
      fun hhalted => ?_⟩
    · show Journal.shown (told limit true _ ++ _) =
        (if (watched limit (saved change w.desk)).running then _ else _) ++ _
      rw [told, watched]
      cases isOver limit (saved change w.desk) with
      | true =>
        simp only [if_true, hpaused, Bool.false_eq_true, if_false]
        rw [List.append_assoc, Journal.shown_traceEntries, List.cons_append, Journal.shown_log,
          Journal.shown_traceEntries, hmachine, journal_saved]
        rfl
      | false =>
        simp only [Bool.false_eq_true, if_false, hsaved, if_true]
        rw [Journal.shown_traceEntries, hmachine, journal_saved]
        rfl
    · have hover : isOver limit (saved change w.desk) = false := by
        rw [isOver_saved, isOver, hhalted trivial, Bool.not_true, Bool.and_false, Bool.false_and]
      show (watched limit (saved change w.desk)).running = true
      rw [watched, hover]
      exact hsaved

theorem reached_run {trace : Bool}
    (h : (prepared limit trace w).perform .run = (v, .ok (.flag true))) :
    Relation.ReflTransGen Stirs v (run limit trace w).1 := by
  rw [run_eq_awaitEnd h]
  unfold awaitEnd
  split
  · exact .refl
  · have hreached := (abiding_reached v).goUntil .refl
    unfold PacedClockwork.awaitEnding
    dsimp only
    split
    · next heq => exact (congrArg Prod.fst heq) ▸ hreached _ _
    · next heq => exact (congrArg Prod.fst heq) ▸ hreached _ _

end Trial

namespace Play

theorem announce_tracer (hl : w.listeners = [tracer])
    (hshows : w.desk.running = true → w.desk.machine.Showable w.host) (depth : Nat) :
    announce (serve depth) w = ({ w with desk := { w.desk with
      journal := w.desk.machine.traceEntries w.desk.running ++ w.desk.journal } }, none) := by
  have hreact : tracer.react w.desk = w.desk.machine.traceReactions w.desk.running := rfl
  rw [announce_of_singleton hl, hreact, inTurn_traceReactions hshows]

theorem tell_tracer (hl : w.listeners = [tracer])
    (hshows : w.desk.running = true → w.desk.machine.Showable w.host) (change : Change) :
    ∃ d : Desk, w.tell (some change) = ({ w with desk := d }, none) ∧ d.work = w.desk.work ∧
      d.running = w.desk.running ∧
      d.journal = w.desk.machine.traceEntries w.desk.running ++ w.desk.journal := by
  cases change with
  | passing => exact ⟨_, announce_tracer hl hshows w.host.depth, rfl, rfl, rfl⟩
  | kept =>
    obtain ⟨d, hd⟩ : ∃ d, d = w.desk.scheduleSave := ⟨_, rfl⟩
    have hwork : d.work = w.desk.work := hd ▸ w.desk.work_scheduleSave
    have hrunning : d.running = w.desk.running :=
      congrArg Pacer.running (hd ▸ w.desk.pacer_scheduleSave)
    have hmachine : d.machine = w.desk.machine := congrArg Work.machine hwork
    have hjournal : d.journal = w.desk.journal := hd ▸ w.desk.journal_scheduleSave
    have htell := announce_tracer (w := { w with desk := d }) hl
      (fun hgoing => hmachine ▸ hshows (hrunning ▸ hgoing)) w.host.depth
    refine ⟨_, (congrArg (fun d => announce (serve w.host.depth) { w with desk := d })
      hd.symm).trans htell, hwork, hrunning, ?_⟩
    show d.machine.traceEntries d.running ++ d.journal = _
    rw [hmachine, hrunning, hjournal]

theorem tracing_tracer (host : Host) : Tracing host False tracer where
  pacing l hl op hop := (silent_tracer l hl op hop).elim
  told w change hhost hl hrunning hshows := by
    obtain ⟨d, hd, -, hgoing, hjournal⟩ := tell_tracer hl (fun _ => hhost ▸ hshows) change
    refine ⟨_, hd, ?_, fun _ => hgoing.trans hrunning⟩
    show d.journal.shown = (if d.running then _ else _) ++ _
    rw [hjournal, Journal.shown_traceEntries, hgoing, hrunning]
    rfl

theorem bench_watch_of_ok (hl : w.listeners = []) (hbounded : w.desk.work.Bounded)
    (htrace : w.desk.work.Shown w.host) (hrun : w.desk.run.answer = .ok true) :
    (watch w).bench = ((w.subscribe tracer).perform .run).1 := by
  have hsubscribed : (w.subscribe tracer).listeners = [tracer] := by simp [subscribe, hl]
  have htracing : Tracing (w.subscribe tracer).host False tracer := tracing_tracer _
  obtain ⟨u, hperform, -⟩ := htracing.begin hsubscribed hbounded htrace hrun
  unfold watch
  rw [(Desk.run_of_ok hrun).2.1, hperform]
  rfl

/-- No run is going on, and its trace is complete. -/
def Rests (d : Desk) (n : Nat) (more : List Output) (w : Workbench) : Prop :=
  w.desk.running = false ∧ Traces d n more w.desk

variable {d : Desk} {more : List Output}

theorem abiding_rests : Abiding (Rests d n more) := by
  rintro w v ⟨hidle, htraces⟩ hv
  refine ⟨idle_stirs hidle hv, ?_⟩
  cases hv with
  | @fire id alarm a _ _ =>
    cases alarm with
    | tick =>
      show Traces d n more (w.withAgenda a).tick.desk
      rw [tick_of_idle (w := w.withAgenda a) hidle]
      exact ⟨htraces.work, htraces.before, htraces.shown⟩
    | keeper alarm =>
      exact ⟨(Desk.work_answerKeeper _ alarm).trans htraces.work, htraces.before,
        (Desk.shown_answerKeeper _ alarm).trans htraces.shown⟩
  | pass _ _ => exact ⟨htraces.work, htraces.before, htraces.shown⟩

def taken (host : Host) (line : String) : List Output :=
  if host.Takes (.line line) then [.line line] else []

theorem Rests.printLine (h : Rests d n more w) (line : String) :
    Rests d n (taken w.host line ++ more) (Command.printLine line w).1 := by
  have hprint : (Command.printLine line w).1 = (w.print (.line line)).1 := by
    show ((w.print (.line line)).andThen _).1 = _
    rcases w.print (.line line) with ⟨v, _ | fault⟩ <;> rfl
  rw [hprint, taken]
  split
  · next htakes =>
    rw [print_of_takes htakes]
    exact ⟨h.1, h.2.work, h.2.before, congrArg (List.cons _) h.2.shown⟩
  · next hrefused =>
    unfold Workbench.print
    split
    · next htakes => exact absurd htakes hrefused
    · exact h

theorem rests_of_traced (h : TracedRun False start n w) (hidle : w.desk.running = false) :
    Rests start.desk n [] w :=
  ⟨hidle, h.echo_eq_nil id ▸ h.traces⟩

theorem rests_of_pause (hstart : start.listeners = [tracer]) (h : TracedRun False start n w) :
    ∃ v, w.perform .pause = (v, .ok .done) ∧ Rests start.desk n [] v ∧ v.host = w.host := by
  cases hrunning : w.desk.running with
  | false =>
    have hpause := Desk.apply_pause_of_idle hrunning
    have hsame : w.perform .pause = (w, .ok .done) := by
      rw [perform_of_silent (by rw [hpause]; rfl), hpause]
      rfl
    exact ⟨w, hsame, rests_of_traced h hrunning, rfl⟩
  | true =>
    have hpause := Desk.apply_pause_of_running hrunning
    obtain ⟨e, he⟩ : ∃ e : Desk, e = w.desk.paused.log .runPaused := ⟨_, rfl⟩
    rw [← he] at hpause
    have hidle : e.running = false := by rw [he]; exact w.desk.running_paused
    have htraces := h.traces
    rw [h.echo_eq_nil id] at htraces
    have htold := announce_tracer (w := { w with desk := e }) (h.advanced.listeners.trans hstart)
      (fun hgoing => (Bool.false_ne_true (hidle.symm.trans hgoing)).elim) w.host.depth
    refine ⟨_, perform_of_told hpause htold, ⟨hidle, ?_, htraces.before, ?_⟩, rfl⟩
    · show e.work = _
      rw [← htraces.work, he]
      rfl
    · show Journal.shown (e.machine.traceEntries e.running ++ e.journal) = _
      rw [hidle, Journal.shown_traceEntries, ← htraces.shown, he]
      rfl

structure Watched (c : Catalog) (start w : Workbench) : Prop where
  orderly : Orderly c False (fun _ _ => True) w
  traced : ∃ n, TracedRun False start n w

section Watched

variable (hstart : start.listeners = [tracer]) (hbounded : start.desk.work.Bounded)
  (htrace : start.desk.work.Shown start.host)

include hstart

theorem Watched.silent (h : Watched c start w) : Silent w.listeners := by
  obtain ⟨n, hn⟩ := h.traced
  rw [hn.advanced.listeners.trans hstart]
  exact silent_tracer

include hbounded htrace

theorem abiding_watched : Abiding (Watched c start) :=
  fun w v hw hv => ⟨hw.orderly.stir False.elim hv,
    abiding_traced (tracing_tracer start.host) hstart hbounded htrace w v hw.traced hv⟩

variable (h : Watched c start w)

include h

theorem Watched.interrupt (patience : Nat) :
    ∃ n, Rests start.desk n (taken start.host pausedLine) (interrupt patience w).1 := by
  obtain ⟨n, hn⟩ := ((abiding_watched hstart hbounded htrace).passTurns h patience 2).traced
  obtain ⟨v, hpause, hrests, hhost⟩ := rests_of_pause hstart hn
  have hshown := hrests.printLine pausedLine
  rw [hhost, hn.advanced.host, List.append_nil] at hshown
  refine ⟨n, ?_⟩
  unfold Play.interrupt
  rw [hpause]
  exact Attempt.andThen_keeps hshown fun u hu => abiding_rests.passTurns hu patience 3

theorem Watched.outlast (hidle : w.desk.running = false) (patience enter : Nat) :
    ∃ n, Rests start.desk n (taken start.host finishedLine) (outlast patience enter w).1 := by
  have habiding : Abiding fun v => Watched c start v ∧ v.desk.running = false := fun u v hu hv =>
    ⟨abiding_watched hstart hbounded htrace u v hu.1 hv, idle_stirs hu.2 hv⟩
  obtain ⟨⟨-, n, hn⟩, hidle⟩ := habiding.passTurns ⟨h, hidle⟩ patience 4
  have hshown := (rests_of_traced hn hidle).printLine finishedLine
  rw [hn.advanced.host, List.append_nil] at hshown
  refine ⟨n, Attempt.andThen_keeps hshown fun u hu => ?_⟩
  dsimp only
  split
  · exact hu
  · exact abiding_rests.passTurns (abiding_rests.goUntil hu _ patience) patience 1

theorem Watched.runUntilEnter (patience : Nat) (enter : Option TypedLine) :
    ∃ n, ∃ last ∈ [pausedLine, finishedLine],
      Rests start.desk n (taken start.host last) (runUntilEnter patience enter w).1 := by
  obtain ⟨u, hu, hpaused | ⟨hidle, bell, hfinished⟩⟩ := runUntilEnter_cases
    (abiding_watched hstart hbounded htrace) (fun _ hv => hv.silent hstart)
    (fun _ hv => hv.orderly.inStep.sound.coherent) patience enter h
  · rw [hpaused]
    exact (hu.interrupt hstart hbounded htrace patience).imp
      fun _ hn => ⟨pausedLine, by simp, hn⟩
  · rw [hfinished]
    exact (hu.outlast hstart hbounded htrace hidle patience bell).imp
      fun _ hn => ⟨finishedLine, by simp, hn⟩

end Watched

end Play

/-- In the trace of a run every transition has one line, in order, with the machine just after it,
so the numbers of the steps increase by one. Before these lines stands the line of the step that has
been made just before the run, if there is one, although it is no transition of the run; and after
them the last line once more, if the limit of a trial has ended the run. -/
theorem trace_shows_transitions (h : Arises c (Work.Fits c) asked w) (hlisteners : w.listeners = [])
    (hrun : w.desk.run.answer = .ok true) (hdepth : 0 < w.host.depth)
    (htrace : w.desk.work.Shown w.host) :
    (∀ n, (w.desk.work.transitions n).map Machine.steps =
      (List.range (w.desk.work.transitions n).length).map fun i : Nat =>
        w.desk.machine.steps + i + 1) ∧
    (∀ limit v,
      Relation.ReflTransGen Stirs ((Trial.prepared limit true w).perform .run).1 v →
        ∃ n, Traces w.desk n (echo v.desk) v.desk) ∧
    (∀ limit, ∃ n, Traces w.desk n (echo (Trial.run limit true w).1.desk)
      (Trial.run limit true w).1.desk) ∧
    (∀ v, Relation.ReflTransGen Stirs (Play.watch w).bench v →
      ∃ n, Traces w.desk n [] v.desk) ∧
    ∀ patience enter, ∃ n, ∃ last ∈ [Play.pausedLine, Play.finishedLine],
      Traces w.desk n (Play.taken w.host last)
        (Play.runUntilEnter patience enter (Play.watch w).bench).1.desk := by
  have horderly := h.orderly_of_any
  have hbounded : w.desk.work.Bounded := horderly.bounded
  have hprepared (limit : Nat) :
      (Trial.prepared limit true w).listeners = [Trial.watcher limit true] := by
    simp [Trial.prepared, subscribe, hlisteners]
  have hsubscribed : (w.subscribe Play.tracer).listeners = [Play.tracer] := by
    simp [subscribe, hlisteners]
  have htrial (limit : Nat) :
      Tracing (Trial.prepared limit true w).host True (Trial.watcher limit true) :=
    Trial.tracing_watcher limit hdepth
  have hplay : Tracing (w.subscribe Play.tracer).host False Play.tracer := Play.tracing_tracer _
  have hwatch := Play.bench_watch_of_ok hlisteners hbounded htrace hrun
  refine ⟨Work.numbers_transitions hbounded, fun limit v hv => ?_, fun limit => ?_, fun v hv => ?_,
    fun patience enter => ?_⟩
  · exact ((htrial limit).reached (hprepared limit) hbounded htrace hrun hv).imp
      fun _ hn => hn.traces
  · obtain ⟨u, hperform, -⟩ := (htrial limit).begin (hprepared limit) hbounded htrace hrun
    have hreached := Trial.reached_run hperform
    rw [show u = ((Trial.prepared limit true w).perform .run).1 by rw [hperform]] at hreached
    exact ((htrial limit).reached (hprepared limit) hbounded htrace hrun hreached).imp
      fun _ hn => hn.traces
  · rw [hwatch] at hv
    obtain ⟨n, hn⟩ := hplay.reached hsubscribed hbounded htrace hrun hv
    exact ⟨n, hn.echo_eq_nil id ▸ hn.traces⟩
  · rw [hwatch]
    have hsubscribe : Orderly c False (fun _ _ => True) (w.subscribe Play.tracer) := by
      refine ⟨fun _ _ _ _ _ => trivial, fun l hl op hop => ?_, horderly.catalog, hbounded,
        horderly.inStep⟩
      exact (Play.silent_tracer l (hsubscribed ▸ hl) op hop).elim
    have hwatched : Play.Watched c (w.subscribe Play.tracer)
        ((w.subscribe Play.tracer).perform .run).1 :=
      ⟨hsubscribe.perform (by rintro s ⟨⟩),
        hplay.reached hsubscribed hbounded htrace hrun .refl⟩
    obtain ⟨n, last, hlast, -, htraces⟩ :=
      hwatched.runUntilEnter hsubscribed hbounded htrace patience enter
    exact ⟨n, last, hlast, htraces⟩

/-- A trial that follows a step by hand. -/
theorem trace_after_step :
    ∃ w n, w.desk.machine.steps = 1 ∧ w.desk.machine.transitionLine ≠ [] ∧
      Traces w.desk n (echo (Trial.run 3 true w).1.desk) (Trial.run 3 true w).1.desk ∧
      (w.desk.work.transitions n).map Machine.steps = [2, 3] := by
  have hfirst := arises_firstBench (Work.Fits .standard) Reaction.Harmless
  have hstep := @Arises.perform _ _ _ _ .step hfirst (by rintro s ⟨⟩)
  obtain ⟨w, hw⟩ : ∃ w, w = (firstBench.perform .step).1 := ⟨_, rfl⟩
  rw [← hw] at hstep
  have hplain : w.host = .plain := by rw [hw]; rfl
  obtain ⟨hnumbers, -, htrial, -⟩ := trace_shows_transitions hstep (by rw [hw]; rfl)
    (by rw [hw]; decide +kernel) (by rw [hplain]; decide) (by rw [hplain]; exact fun _ _ => rfl)
  obtain ⟨n, hn⟩ := htrial 3
  have hsteps : w.desk.machine.steps = 1 := by rw [hw]; decide +kernel
  have hmany : (Trial.run 3 true w).1.desk.machine.steps = 3 := by rw [hw]; decide +kernel
  have hlength : (w.desk.work.transitions n).length = 2 := by
    have hcount := Work.steps_transitions hstep.orderly_of_any.bounded n
    rw [← hn.work] at hcount
    change (Trial.run 3 true w).1.desk.machine.steps = w.desk.machine.steps + _ at hcount
    omega
  refine ⟨w, n, hsteps, by rw [hw]; decide +kernel, hn, ?_⟩
  rw [hnumbers, hlength, hsteps]
  rfl

/-- A trial that the limit ends after its first transition shows the line of this one twice; and a
run that is watched after a step by hand begins with the line of this step. -/
theorem trace_repeats_lines :
    (∃ v, v = (Trial.run 1 true firstBench).1 ∧ v.desk.machine.steps = 1 ∧
      v.desk.journal.shown = [v.desk.machine.traceLine, v.desk.machine.traceLine]) ∧
    ∃ w v, w = (firstBench.perform .step).1 ∧ v = (Play.watch w).bench ∧
      v.desk.machine = w.desk.machine ∧ v.desk.running = true ∧
      v.desk.journal.shown = [w.desk.machine.traceLine] :=
  ⟨⟨_, rfl, by decide +kernel⟩, _, _, rfl, rfl, by decide +kernel⟩

end TapeLab
