import TapeLab.Console.Status
import TapeLab.Proofs.Workbench.Pacing
import TapeLab.Proofs.Workbench.Waiting

/-!
Traces of runs. A listener that traces a run shows the machine whenever it is told of a change while
the run is going on, if the machine still marks a rule that it has applied. That is so after every
transition of the run; but it is so as well when the run begins, if a transition has been made just
before, and when the listener ends the run itself, since it is told of this, too.
-/

namespace TapeLab

def Entry.output? : Entry → Option Output
  | .shown output => some output
  | _ => none

def Journal.shown (j : Journal) : List Output := j.filterMap Entry.output?

theorem Journal.shown_append (j k : Journal) : Journal.shown (j ++ k) = j.shown ++ k.shown :=
  List.filterMap_append

@[simp] theorem Journal.shown_log (l : Log) (j : Journal) :
    Journal.shown (.logged l :: j) = j.shown := rfl

@[simp] theorem Journal.shown_logs (ls : List Log) (j : Journal) :
    Journal.shown ((ls.map Entry.logged).reverse ++ j) = j.shown := by
  rw [shown_append, Journal.shown, List.filterMap_eq_nil_iff.2, List.nil_append]
  intro entry hentry
  obtain ⟨l, -, rfl⟩ := List.mem_map.1 (List.mem_reverse.1 hentry)
  rfl

namespace Desk

variable (d : Desk)

theorem journal_scheduleSave : d.scheduleSave.journal = d.journal := by
  unfold scheduleSave
  split <;> rfl

theorem shown_answerKeeper (alarm : KeeperAlarm) :
    (d.answerKeeper alarm).journal.shown = d.journal.shown := by
  unfold answerKeeper withWork
  split
  · rfl
  · rw [logAll_eq_journal]
    exact Journal.shown_logs _ _

end Desk

def Machine.transitionLine (m : Machine) : List Output :=
  if m.active.isSome then [m.traceLine] else []

def Machine.Showable (host : Host) (m : Machine) : Prop :=
  m.active.isSome = true → host.Takes m.traceLine

def Machine.traceReactions (m : Machine) (shows : Bool) : List Reaction :=
  if shows && m.active.isSome then [.print m.traceLine] else []

def Machine.traceEntries (m : Machine) (shows : Bool) : Journal :=
  if shows && m.active.isSome then [.shown m.traceLine] else []

theorem Journal.shown_traceEntries (m : Machine) (shows : Bool) (j : Journal) :
    Journal.shown (m.traceEntries shows ++ j) =
      (if shows then m.transitionLine else []) ++ j.shown := by
  unfold Machine.traceEntries Machine.transitionLine
  cases shows <;> cases m.active.isSome <;> rfl

namespace Work

variable {u : Work} {n : Nat}

/-- The machines after the transitions that so many advances have made, in their order. -/
def transitions (u : Work) : Nat → List Machine
  | 0 => []
  | n + 1 =>
    let m := (u.advanceMany (n + 1)).machine
    u.transitions n ++ if m.active.isSome then [m] else []

def traceLines (u : Work) (n : Nat) : List Output :=
  ((u.transitions n).map Machine.traceLine).reverse

theorem traceLines_succ (u : Work) (n : Nat) :
    u.traceLines (n + 1) =
      (u.advanceMany (n + 1)).machine.transitionLine ++ u.traceLines n := by
  unfold traceLines Machine.transitionLine
  rw [transitions]
  split <;> simp

/-- The console shows every line of a trace that begins here. -/
def Shown (host : Host) (u : Work) : Prop := ∀ n, (u.advanceMany n).machine.Showable host

theorem advanced_steps_eq (h : u.Bounded) :
    u.advanced.machine.steps =
      u.machine.steps + if u.advanced.machine.active.isSome then 1 else 0 := by
  obtain ⟨_, _, hjudged⟩ := judged_cases u.catalog u.index u.machine.step.1
  have hsame : u.advanced.machine.steps = u.machine.step.1.steps ∧
      u.advanced.machine.active = u.machine.step.1.active := by
    rw [advanced, hjudged]
    exact ⟨rfl, rfl⟩
  rw [hsame.1, hsame.2]
  cases hrule : u.machine.rule? with
  | some r =>
    rw [Machine.step_of_rule h.machine.onTape hrule]
    rfl
  | none =>
    obtain ⟨message, lastStep, hstep⟩ := Machine.step_of_no_rule hrule
    rw [hstep]
    exact (Int.add_zero _).symm

theorem steps_transitions (h : u.Bounded) (n : Nat) :
    (u.advanceMany n).machine.steps = u.machine.steps + (u.transitions n).length := by
  induction n with
  | zero => exact (Int.add_zero _).symm
  | succ n ih =>
    rw [advanceMany, advanced_steps_eq (h.advanceMany n), ih, transitions, advanceMany]
    split
    · rw [List.length_append, List.length_singleton]
      omega
    · rw [List.append_nil, Int.add_zero]

theorem numbers_transitions (h : u.Bounded) (n : Nat) :
    (u.transitions n).map Machine.steps =
      (List.range (u.transitions n).length).map fun i : Nat => u.machine.steps + i + 1 := by
  induction n with
  | zero => rfl
  | succ n ih =>
    rw [transitions]
    split
    · next hactive =>
      have hlast : (u.advanceMany (n + 1)).machine.steps =
          u.machine.steps + (u.transitions n).length + 1 := by
        rw [advanceMany] at hactive ⊢
        rw [advanced_steps_eq (h.advanceMany n), if_pos hactive, steps_transitions h]
      rw [List.map_append, ih, List.length_append, List.length_singleton, List.range_succ,
        List.map_append, List.map_singleton, List.map_singleton, hlast]
    · rw [List.append_nil]
      exact ih

end Work

namespace Workbench

variable {start w v : Workbench} {n : Nat} {l : Listener} {stops : Prop}

theorem serve_print (depth : Nat) (o : Output) (w : Workbench) :
    serve depth (.print o) w = w.print o := by
  cases depth <;> rfl

theorem print_of_takes {o : Output} (h : w.host.Takes o) :
    w.print o = ({ w with desk := w.desk.print o }, none) := by
  rw [print, show w.host.refusal o = none from h]

theorem inTurn_traceReactions {m : Machine} {shows : Bool}
    (hshows : shows = true → m.Showable w.host) (depth : Nat) :
    inTurn (serve depth) (m.traceReactions shows) w =
      ({ w with desk := { w.desk with journal := m.traceEntries shows ++ w.desk.journal } },
        none) := by
  unfold Machine.traceReactions Machine.traceEntries
  split
  · next hactive =>
    rw [Bool.and_eq_true] at hactive
    rw [inTurn, serve_print, print_of_takes (hshows hactive.1 hactive.2)]
    rfl
  · rfl

/-- A listener that leaves the machine alone and shows it whenever it is told of a change while a
run is going on, if the console shows it; and once more if it ends the run, which it may do if
`stops` holds and the machine has not halted. -/
structure Tracing (host : Host) (stops : Prop) (l : Listener) : Prop where
  pacing : Modest Operation.Pacing [l]
  told : ∀ (w : Workbench) (change : Change), w.host = host → w.listeners = [l] →
    w.desk.running = true → w.desk.machine.Showable host →
    ∃ v, w.tell (some change) = (v, none) ∧
      v.desk.journal.shown = (if v.desk.running then [] else w.desk.machine.transitionLine) ++
        (w.desk.machine.transitionLine ++ w.desk.journal.shown) ∧
      ((stops → w.desk.machine.halted = true) → v.desk.running = true)

/-- What is shown once more where a run has been ended before the machine has halted. -/
def echo (d : Desk) : List Output :=
  if d.running || d.machine.halted then [] else d.machine.transitionLine

/-- The machine of the first desk has been advanced so many times at the second one, and all its
transitions have been shown, after the line of the step that had been made just before, if any, and
before some `more` outputs. -/
structure Traces (d : Desk) (n : Nat) (more : List Output) (e : Desk) : Prop where
  work : e.work = d.work.advanceMany n
  before : ∀ i < n, (d.work.advanceMany i).machine.halted = false
  shown : e.journal.shown =
    more ++ (d.work.traceLines n ++ (d.machine.transitionLine ++ d.journal.shown))

structure TracedRun (stops : Prop) (start : Workbench) (n : Nat) (w : Workbench) : Prop where
  advanced : Advanced True start n w
  settled : ¬ stops → w.desk.running = true ∨ w.desk.machine.halted = true
  shown : w.desk.journal.shown = echo w.desk ++ (start.desk.work.traceLines n ++
    (start.desk.machine.transitionLine ++ start.desk.journal.shown))

theorem TracedRun.traces (h : TracedRun stops start n w) :
    Traces start.desk n (echo w.desk) w.desk :=
  ⟨h.advanced.work, h.advanced.before trivial, h.shown⟩

theorem TracedRun.echo_eq_nil (h : TracedRun stops start n w) (hstops : ¬ stops) :
    echo w.desk = [] :=
  if_pos (by simpa using h.settled hstops)

theorem TracedRun.same (h : TracedRun stops start n w) (hv : Stands (fun _ => True) w v)
    (hwork : v.desk.work = w.desk.work) (hrunning : v.desk.running = w.desk.running)
    (hshown : v.desk.journal.shown = w.desk.journal.shown) : TracedRun stops start n v := by
  have hmachine : v.desk.machine = w.desk.machine := congrArg Work.machine hwork
  refine ⟨h.advanced.same hv hwork fun _ hhalted => ?_, ?_, ?_⟩
  · rw [hrunning]
    exact h.advanced.resting trivial (hmachine ▸ hhalted)
  · rw [hrunning, hmachine]
    exact h.settled
  · rw [hshown, h.shown, echo, echo, hrunning, hmachine]

section TracedRun

variable (hl : Tracing start.host stops l) (hstart : start.listeners = [l])
  (hbounded : start.desk.work.Bounded) (htrace : start.desk.work.Shown start.host)

include hl hstart hbounded htrace

theorem Tracing.begin (hrun : start.desk.run.answer = .ok true) :
    ∃ v, start.perform .run = (v, .ok (.flag true)) ∧ TracedRun stops start 0 v := by
  obtain ⟨hphase, hhalted, -⟩ := Desk.run_of_ok hrun
  have hidle : start.desk.running = false := by simp [Desk.running, Pacer.running, hphase]
  obtain ⟨v, hv, hshown, hgoesOn⟩ := hl.told { start with desk := start.desk.begun } .passing rfl
    hstart rfl (htrace 0)
  have hperform := perform_of_told (Desk.apply_run_of_ok hrun) hv
  have hadvanced := (@Paced.perform _ _ _ .run .start trivial).advanced hidle hbounded
    (hstart ▸ hl.pacing : Modest Operation.Pacing start.listeners)
  rw [hperform] at hadvanced
  have hsame : v.desk.machine = start.desk.machine := congrArg Work.machine hadvanced.work
  refine ⟨v, hperform, ⟨hadvanced.listeners, hadvanced.host, hadvanced.work,
    fun _ i hi => absurd hi (Nat.not_lt_zero i), fun _ hover => ?_⟩,
    fun hstops => .inl (hgoesOn fun h => absurd h hstops), ?_⟩
  · rw [hsame, hhalted] at hover
    cases hover
  · rw [hshown, echo, hsame, hhalted, Bool.or_false]
    rfl

theorem TracedRun.tick (h : TracedRun stops start n w) (a : Agenda Alarm) :
    ∃ k, TracedRun stops start k (w.withAgenda a).tick := by
  have hpacing : Modest Operation.Pacing start.listeners := hstart ▸ hl.pacing
  cases hrunning : w.desk.running with
  | false =>
    rw [tick_of_idle (w := w.withAgenda a) hrunning]
    exact ⟨n, h.same ⟨rfl, trivial, rfl⟩ rfl rfl rfl⟩
  | true =>
    have hwork : (w.withAgenda a).desk.work.Bounded := h.advanced.work ▸ hbounded.advanceMany n
    -- the step is announced at the desk `d`, and `u` is the workbench after that
    obtain ⟨d, hd⟩ : ∃ d : Desk, d = { (w.withAgenda a).desk.stepped with
      journal := (w.desk.work.report.map .logged).reverse ++ w.desk.journal } := ⟨_, rfl⟩
    obtain ⟨change, hchange⟩ : ∃ change : Change, (w.withAgenda a).stepAnnounced =
        { w with desk := d }.tell (some change) := ⟨_, hd ▸ stepAnnounced_eq hwork⟩
    have hgoing : d.running = true := by rw [hd]; exact hrunning
    have hmachine : d.machine = (start.desk.work.advanceMany (n + 1)).machine := by
      rw [hd, Work.advanceMany, ← h.advanced.work]
      rfl
    have hjournal : d.journal.shown = start.desk.work.traceLines n ++
        (start.desk.machine.transitionLine ++ start.desk.journal.shown) := by
      rw [hd, Journal.shown_logs, h.shown, echo, hrunning]
      rfl
    have hlisteners : w.listeners = [l] := h.advanced.listeners.trans hstart
    obtain ⟨u, hu, hshown, hgoesOn⟩ := hl.told { w with desk := d } change h.advanced.host
      hlisteners hgoing (hmachine ▸ htrace (n + 1))
    rw [hu] at hchange
    have hadvanced := h.advanced.tick hbounded hpacing a fun _ => by rw [hchange]
    rw [hrunning, if_pos rfl] at hadvanced
    have htold : u.desk.machine = d.machine := by
      have hpaced := (paced_tell (w := { w with desk := d }) (hlisteners ▸ hl.pacing)
        (some change)).2.1
      rw [hu] at hpaced
      exact congrArg Work.machine hpaced
    have htick := tick_eq_endTick hwork hrunning
    rw [hchange, show (w.withAgenda a).desk.work.advanced.machine = d.machine by rw [hd]; rfl]
      at htick
    rw [show (w.withAgenda a).tick = _ from htick] at hadvanced ⊢
    have hrunning' := Desk.running_endTick (!d.machine.halted) u.desk
    refine ⟨n + 1, hadvanced, fun hstops => ?_, ?_⟩
    · show _ ∨ u.desk.machine.halted = true
      rw [hrunning', hgoesOn fun h => absurd h hstops, htold]
      cases d.machine.halted <;> simp
    · show u.desk.journal.shown = _
      have hecho : echo (u.desk.endTick (!d.machine.halted)) =
          if u.desk.running then [] else d.machine.transitionLine := by
        rw [echo, hrunning', show (u.desk.endTick _).machine = d.machine from htold]
        cases hended : u.desk.running with
        | true => cases d.machine.halted <;> simp
        | false =>
          cases hhalted : d.machine.halted with
          | true => exact absurd (hgoesOn fun _ => hhalted) (by simp [hended])
          | false => rfl
      rw [hshown, hecho, hjournal, Work.traceLines_succ, hmachine, List.append_assoc]

theorem abiding_traced : Abiding fun w => ∃ n, TracedRun stops start n w := by
  intro w v ⟨n, h⟩ hv
  cases hv with
  | @fire id alarm a _ _ =>
    cases alarm with
    | tick => exact h.tick hl hstart hbounded htrace a
    | keeper alarm =>
      exact ⟨n, h.same ⟨rfl, trivial, rfl⟩ (Desk.work_answerKeeper _ alarm)
        (congrArg Pacer.running (Desk.pacer_answerKeeper _ alarm))
        (Desk.shown_answerKeeper _ alarm)⟩
  | pass _ _ => exact ⟨n, h.same ⟨rfl, trivial, rfl⟩ rfl rfl rfl⟩

theorem Tracing.reached (hrun : start.desk.run.answer = .ok true)
    (hv : Relation.ReflTransGen Stirs (start.perform .run).1 v) :
    ∃ n, TracedRun stops start n v := by
  obtain ⟨u, hperform, htraced⟩ := hl.begin hstart hbounded htrace hrun
  rw [hperform] at hv
  exact (abiding_traced hl hstart hbounded htrace).reached ⟨0, htraced⟩ hv

end TracedRun

end Workbench

end TapeLab
