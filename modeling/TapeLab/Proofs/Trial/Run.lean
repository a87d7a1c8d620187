import TapeLab.Proofs.Clockwork
import TapeLab.Proofs.Desk.Progress
import TapeLab.Proofs.Trial.Course
import TapeLab.Proofs.Workbench.Geared

/-!
Trials as loops. A trial is a chain of ticks that is begun by hand; whoever waits for its end, and
has the patience for all that is on the agenda meanwhile, finds the machine that is advanced again
and again until it stops.
-/

namespace TapeLab

namespace Trial

open Workbench

variable {only : Prop} {limit : Nat} {trace : Bool} {host : Host} {start : Work} {delay : Int}
  {number i n : Nat} {w : Workbench}

structure Ready (only : Prop) (limit : Nat) (trace : Bool) (w : Workbench) : Prop where
  listeners : w.listeners = []
  inStep : w.desk.InStep only
  bounded : w.desk.work.Bounded
  loop : w.desk.loop = true
  idle : w.desk.running = false
  halted : w.desk.machine.halted = false
  steps : w.desk.machine.steps < limit
  host : Affords w.host limit trace w.desk.work

def prepared (limit : Nat) (trace : Bool) (w : Workbench) : Workbench :=
  { w with flagged := false }.subscribe (watcher limit trace)

theorem run_eq_awaitEnd {v : Workbench}
    (h : (prepared limit trace w).perform .run = (v, .ok (.flag true))) :
    run limit trace w = awaitEnd limit v := by
  rw [prepared] at h
  rw [run, h]

theorem Ready.run_answer (h : Ready only limit trace w) : w.desk.run.answer = .ok true := by
  rw [Desk.run_eq, if_pos ⟨h.inStep.phase_eq_idle h.idle h.halted, h.halted⟩, if_pos h.loop]
  rfl

theorem Ready.tell_begun (h : Ready only limit trace w) :
    ∃ j, { prepared limit trace w with desk := w.desk.begun }.tell (some .passing) =
      ({ prepared limit trace w with desk := { w.desk.begun with journal := j } }, none) := by
  have hlisteners : (prepared limit trace w).listeners = [watcher limit trace] := by
    simp [prepared, subscribe, h.listeners]
  have hover : isOver limit w.desk.begun = false := by
    have hnot : ¬ (limit : Int) ≤ w.desk.begun.machine.steps := Int.not_le.2 h.steps
    rw [isOver, decide_eq_false hnot, Bool.and_false]
  have hwatched : watched limit (saved .passing w.desk.begun) = w.desk.begun := by
    rw [watched, isOver_saved, hover]
    rfl
  have hshows (htrace : trace = true) : w.desk.begun.machine.Showable w.host :=
    h.host.shows htrace 0 fun k hk => absurd hk (Nat.not_lt_zero k)
  rw [tell_watcher (w := { prepared limit trace w with desk := w.desk.begun }) hlisteners
    h.host.depth hshows]
  dsimp only
  rw [hwatched, hover, Bool.or_false]
  exact ⟨_, rfl⟩

theorem Ready.begin (h : Ready only limit trace w) :
    ∃ v, (prepared limit trace w).perform .run = (v, .ok (.flag true)) ∧
      Going only limit trace w.host w.desk.work w.desk.pacer.delay w.desk.pacer.runs 0 v ∧
      v.desk.keeper = w.desk.keeper ∧
      v.desk.agenda = (w.desk.agenda.set (.finite w.desk.pacer.delay) (.alarm .tick)).1 := by
  obtain ⟨j, hj⟩ := h.tell_begun
  have hperform := perform_of_told (w := prepared limit trace w)
    (Desk.apply_run_of_ok h.run_answer) hj
  have hinStep := inStep_perform (w := prepared limit trace w) h.inStep .run
  rw [hperform] at hinStep
  refine ⟨_, hperform, ?_, rfl, rfl⟩
  exact {
    listeners := by simp [prepared, subscribe, h.listeners]
    host := rfl
    flagged := rfl
    inStep := hinStep
    running := rfl
    delay := rfl
    current := rfl
    handle := rfl
    work := rfl
    before := fun k hk => by
      rw [Nat.le_zero.1 hk]
      exact ⟨h.halted, h.steps⟩ }

theorem timely_saved {d : Desk} (h : d.gears.Timely) (change : Change) :
    (saved change d).gears.Timely := by
  cases change with
  | passing => exact h
  | kept => exact Desk.timely_scheduleSave h

theorem load_saved (change : Change) (d : Desk) :
    (saved change d).agenda.load Alarm.calls ≤ d.agenda.load Alarm.calls + 2 := by
  cases change with
  | passing => exact Nat.le_add_right _ _
  | kept => exact d.load_scheduleSave

section Loop

variable (hstart : start.Bounded) (hhost : Affords host limit trace start)

include hstart hhost

theorem Going.tick_load (h : Going only limit trace host start delay number i w)
    {a : Agenda Alarm}
    (hmore : Going only limit trace host start delay number (i + 1) (w.withAgenda a).tick)
    (htimely : (w.withAgenda a).desk.gears.Timely) :
    (w.withAgenda a).tick.desk.gears.Timely ∧
      (w.withAgenda a).tick.desk.agenda.load Alarm.calls ≤ a.load Alarm.calls + 3 := by
  have hnext : (w.withAgenda a).desk.work.advanced = start.advanceMany (i + 1) := h.advanced
  obtain ⟨hhalted, hsteps⟩ := hmore.before (i + 1) (Nat.le_refl _)
  obtain ⟨-, d, change, hgears, htick⟩ :=
    (h.watching hstart hhost a).gears_tick_of_more (hnext ▸ hhalted) (hnext ▸ hsteps)
  have hd : d.gears.Timely := hgears ▸ ⟨htimely.agenda, htimely.keeper⟩
  have hsaved := timely_saved hd change
  have hload := load_saved change d
  have hagenda : d.agenda = a := congrArg Gears.agenda hgears
  rw [hagenda] at hload
  refine ⟨?_, ?_⟩
  · rw [htick]
    exact ⟨hsaved.agenda.set _ _, hsaved.keeper⟩
  · have htick' : (w.withAgenda a).tick.desk.agenda =
        (d.pacer.schedule .tick (saved change d).agenda).2 := congrArg Gears.agenda htick
    rw [htick']
    show ((saved change d).agenda.set (.finite d.pacer.delay) (.alarm .tick)).1.load _ ≤ _
    rw [Agenda.load_set, Nat.add_comm]
    exact Nat.add_le_add_right hload 1

/-- A call that is carried out ends the run, or it takes one off what is left to do: the load of the
agenda, and three calls for each advance that is still to come. -/
theorem Going.respond (h : Going only limit trace host start delay number i w)
    (htimely : w.desk.gears.Timely) {answer : Option Alarm} {a : Agenda Alarm}
    (hadvance : w.desk.agenda.advance? = some (answer, a)) :
    Ended only limit trace host start delay number (i + 1) (clockwork.respond (answer, a) w) ∨
      ∃ j, Going only limit trace host start delay number j (clockwork.respond (answer, a) w) ∧
        (clockwork.respond (answer, a) w).desk.gears.Timely ∧
        (clockwork.respond (answer, a) w).desk.agenda.load Alarm.calls + 3 * i <
          w.desk.agenda.load Alarm.calls + 3 * j := by
  have hload := Agenda.advance?_load Alarm.calls hadvance
  have htimely' : (w.withAgenda a).desk.gears.Timely :=
    ⟨htimely.agenda.advance? hadvance, htimely.keeper⟩
  cases answer with
  | none =>
    obtain ⟨halarms, hnext⟩ := Agenda.advance?_pass hadvance
    have hsame := h.same (v := w.withAgenda a) rfl
      (inStep_pass h.inStep halarms (Nat.le_of_eq hnext.symm)) rfl rfl
    rw [Option.elim_none] at hload
    exact .inr ⟨i, hsame, htimely', Nat.add_lt_add_right (Nat.lt_of_succ_le hload) _⟩
  | some alarm =>
    obtain ⟨id, halarms, hnext⟩ := Agenda.advance?_fire hadvance
    have hinStep := h.inStep_stirs hstart hhost (.fire halarms hnext)
    rw [Option.elim_some] at hload
    cases alarm with
    | tick =>
      have hcost : Alarm.tick.calls = 1 := rfl
      refine (h.tick hstart hhost hinStep).imp_right fun hmore => ?_
      obtain ⟨htimely'', hload'⟩ := h.tick_load hstart hhost hmore htimely'
      refine ⟨i + 1, hmore, htimely'', ?_⟩
      show (w.withAgenda a).tick.desk.agenda.load Alarm.calls + _ < _
      omega
    | keeper alarm =>
      have hload' := (w.withAgenda a).desk.load_answerKeeper alarm
      have hagenda : (w.withAgenda a).desk.agenda = a := rfl
      rw [hagenda] at hload'
      refine .inr ⟨i, h.answerKeeper hinStep, Desk.timely_answerKeeper htimely' alarm, ?_⟩
      show ((w.withAgenda a).desk.answerKeeper alarm).agenda.load Alarm.calls + _ < _
      omega

theorem Going.goUntil (hn : start.Stops limit n) {patience : Nat}
    (h : Going only limit trace host start delay number i w) (htimely : w.desk.gears.Timely)
    (hpatience : w.desk.agenda.load Alarm.calls + 3 * (n - i) ≤ patience) :
    Ended only limit trace host start delay number n
      (clockwork.goUntil (fun w => (w.desk.pacer.ending? number).isSome) patience w) := by
  let told (w : Workbench) : Bool := (w.desk.pacer.ending? number).isSome
  show Ended only limit trace host start delay number n (clockwork.goUntil told patience w)
  -- on the patience, which what is left to do never exceeds
  induction patience generalizing i w with
  | zero => exact absurd (h.lt hn) (by omega)
  | succ patience ih =>
    have hlt := h.lt hn
    have huntold : told w = false :=
      congrArg Option.isSome (h.inStep.sound.coherent.ending?_current h.current)
    obtain ⟨id, -, hwaits⟩ := h.alarm
    obtain ⟨answer, a, hadvance⟩ : ∃ answer a, w.desk.agenda.advance? = some (answer, a) :=
      Agenda.advance?_isSome htimely.agenda (List.ne_nil_of_mem hwaits)
    rw [Clockwork.goUntil_of_advance _ huntold hadvance]
    obtain hended | ⟨j, hgoing, htimely', hless⟩ := h.respond hstart hhost htimely hadvance
    · obtain rfl := hended.stops.unique hn
      have htold : told (clockwork.respond (answer, a) w) = true :=
        congrArg Option.isSome hended.told
      rwa [Clockwork.goUntil_of_done _ htold]
    · have hj := hgoing.lt hn
      exact ih hgoing htimely' (by omega)

end Loop

theorem run_ended (h : Ready only limit trace w) (htimely : w.desk.gears.Timely)
    (hsteps : w.desk.machine.steps = 0) (hn : w.desk.work.Stops limit n) :
    Ended only limit trace w.host w.desk.work w.desk.pacer.delay w.desk.pacer.runs n
        (run limit trace w).1 ∧
      (run limit trace w).2 = .over (!(w.desk.work.advanceMany n).machine.halted) := by
  obtain ⟨v, hperform, hgoing, hkeeper, hagenda⟩ := h.begin
  have htimely' : v.desk.gears.Timely := by
    refine ⟨?_, fun k hk => htimely.keeper k (hkeeper.symm.trans hk)⟩
    show v.desk.agenda.Timely
    rw [hagenda]
    exact htimely.agenda.set _ _
  have hle := hn.le h.bounded hsteps
  have hpatience : v.desk.agenda.load Alarm.calls + 3 * (n - 0) ≤ patience limit v := by
    unfold patience
    omega
  have hended := hgoing.goUntil h.bounded h.host hn htimely' hpatience
  have hawait : clockwork.awaitEnding (patience limit v) w.desk.pacer.runs none v =
      (clockwork.goUntil (fun w' => (w'.desk.pacer.ending? w.desk.pacer.runs).isSome)
          (patience limit v) v,
        some ⟨w.desk.pacer.runs,
          if (w.desk.work.advanceMany n).machine.halted then .halted else .idle⟩) := by
    rw [← hended.told]
    simp only [PacedClockwork.awaitEnding, Option.any_none, Bool.or_false]
    rfl
  rw [run_eq_awaitEnd hperform, awaitEnd, hgoing.current]
  dsimp only
  rw [hawait]
  exact ⟨hended, congrArg Result.over hended.flagged⟩

/-- Where the trial of a workbench has led to, after so many advances: no run is going on, no timer
is known to the pacer, nor is there any for a tick if `only` holds, and the run is told to have been
stopped just if the machine has not halted. -/
structure Stopped (only : Prop) (n : Nat) (w v : Workbench) : Prop where
  work : v.desk.work = w.desk.work.advanceMany n
  idle : v.desk.running = false
  pending : v.desk.pacer.pending = false
  ticks : only → v.desk.ticks = []
  told : v.desk.pacer.ending? w.desk.pacer.runs = some ⟨w.desk.pacer.runs,
    if (w.desk.work.advanceMany n).machine.halted then .halted else .idle⟩

theorem Ended.stopped {v : Workbench}
    (h : Ended only limit trace w.host w.desk.work delay w.desk.pacer.runs n v) :
    Stopped only n w v where
  work := h.work
  idle := h.idle
  pending := by rw [Pacer.pending, h.handle]; rfl
  ticks ho := h.inStep.ticks_eq_nil ho h.idle
  told := h.told

variable {c : Catalog} {kept : Session → Prop} {asked : Host → Reaction → Prop}

/-- A machine that has not made a step, on a workbench where nobody listens. -/
structure Loaded (w : Workbench) : Prop where
  listeners : w.listeners = []
  loop : w.desk.loop = true
  idle : w.desk.running = false
  halted : w.desk.machine.halted = false
  steps : w.desk.machine.steps = 0

theorem ready_of_arises (h : Arises c kept asked w) (hbounded : w.desk.work.Bounded)
    (hloaded : Loaded w) (hlimit : 0 < limit) (hhost : Affords w.host limit trace w.desk.work) :
    Ready (∀ host op, asked host (.perform op) → op ≠ .run) limit trace w where
  listeners := hloaded.listeners
  inStep := h.inStep.of_geared (fun hasked => (h.geared hasked).2) hloaded.idle
  bounded := hbounded
  loop := hloaded.loop
  idle := hloaded.idle
  halted := hloaded.halted
  steps := hloaded.steps ▸ Int.ofNat_lt.2 hlimit
  host := hhost

/-- A trial of a machine that has not made a step begins with a run, if there is a challenge with
its number, its head stands on the tape, and the console shows the lines of its trace. In whatever
order timers fire then, the machine is never advanced beyond the place where it stops, and if no
timer of a tick is left waiting for ever, the trial stops there for good. So it does when it is
waited for, if the time of every timer will come, and the answer is whether the machine has not
halted. -/
theorem trial_stops (h : Arises c kept asked w) (hbounded : w.desk.work.Bounded)
    (hloaded : Loaded w) (hlimit : 0 < limit)
    (hhost : Affords w.host limit trace w.desk.work) :
    ∃ n v, w.desk.work.Stops limit n ∧
      (prepared limit trace w).perform .run = (v, .ok (.flag true)) ∧
      (∀ s : Nat → Workbench, s 0 = v → Course s →
        (∀ t, (∃ k ≤ n, (s t).desk.work = w.desk.work.advanceMany k) ∧
          (s t).desk.machine.steps ≤ limit) ∧
        (Fair s → ∃ t, ∀ u ≥ t,
          Stopped (∀ host op, asked host (.perform op) → op ≠ .run) n w (s u) ∧
          (s u).flagged = !(w.desk.work.advanceMany n).machine.halted)) ∧
      (w.desk.gears.Timely →
        Stopped (∀ host op, asked host (.perform op) → op ≠ .run) n w (run limit trace w).1 ∧
        (run limit trace w).2 = .over (!(w.desk.work.advanceMany n).machine.halted)) := by
  have hready := ready_of_arises h hbounded hloaded hlimit hhost
  obtain ⟨n, hn⟩ : ∃ n, w.desk.work.Stops limit n := Work.exists_stops hbounded hloaded.steps
  obtain ⟨v, hperform, hgoing, -, -⟩ := hready.begin
  refine ⟨n, v, hn, hperform, fun s hzero hs => ?_, fun htimely => ?_⟩
  · have hbegin : Going _ limit trace w.host _ _ _ 0 (s 0) := hzero.symm ▸ hgoing
    refine ⟨fun t => ?_, fun hfair => ?_⟩
    · obtain ⟨i, hi, hwork⟩ : ∃ i ≤ n, (s t).desk.work = w.desk.work.advanceMany i := by
        obtain ⟨i, hgoing | hended⟩ := hbegin.always hbounded hhost hs t
        · exact ⟨i, Nat.le_of_lt (hgoing.lt hn), hgoing.work⟩
        · exact ⟨i, Nat.le_of_eq (hended.stops.unique hn), hended.work⟩
      refine ⟨⟨i, hi, hwork⟩, ?_⟩
      rw [show (s t).desk.machine = (s t).desk.work.machine from rfl, hwork]
      exact hn.steps_le hbounded (Int.le_of_lt hready.steps) hi
    · obtain ⟨t, hended⟩ := hbegin.ends hbounded hhost hs hfair hn (Nat.zero_add n).symm
      refine ⟨t, fun u hle => ?_⟩
      have hlater := hended.always hs (u - t)
      rw [Nat.add_sub_cancel' hle] at hlater
      exact ⟨hlater.stopped, hlater.flagged⟩
  · obtain ⟨hended, hanswer⟩ := run_ended hready htimely hloaded.steps hn
    exact ⟨hended.stopped, hanswer⟩

/-- The inverter has not halted after three transitions. -/
theorem inverter_stops_at_limit :
    ∃ n, firstDesk.work.Stops 3 n ∧ Stopped True n firstBench (run 3 true firstBench).1 ∧
      (run 3 true firstBench).2 = .over true ∧
      (run 3 true firstBench).1.desk.machine.steps = 3 := by
  have harises := arises_firstBench (Work.Fits .standard) Reaction.Harmless
  have hhost : Affords firstBench.host 3 true firstBench.desk.work :=
    ⟨by decide, fun _ _ _ _ => rfl⟩
  obtain ⟨n, v, hn, -, -, hrun⟩ := trial_stops harises harises.orderly_of_any.bounded
    ⟨rfl, rfl, rfl, rfl, rfl⟩ (by decide) hhost
  obtain ⟨hstopped, -⟩ := hrun ⟨fun t ht => absurd ht List.not_mem_nil, fun k hk => by cases hk⟩
  refine ⟨n, hn, ⟨hstopped.work, hstopped.idle, hstopped.pending, fun _ => ?_, hstopped.told⟩,
    by decide +kernel, by decide +kernel⟩
  exact hstopped.ticks fun _ _ hop => hop.elim

def strictHost : Host where
  refusal o :=
    if o = .line "    1    [reverse]1[/]011001  [cyan]\\[[/x]][/]" then
      some "closing tag '[/x]' at position 38 doesn't match any open tag"
    else none
  depth := 100

theorem lost_challenge_goes_on :
    ∃ w, Arises .standard (fun _ => True) Reaction.Harmless w ∧ Loaded w ∧
      (run 5 false w).2 = .endless ∧ (run 5 false w).1.desk.running = true ∧
      (run 5 false w).1.desk.ticks = [] := by
  have hfirst := arises_firstBench (fun _ => True) Reaction.Harmless
  have hany (op : Operation) : Restores (fun _ => True) op := fun _ _ => trivial
  have hlost := hfirst.perform (hany (.restore ⟨some 99, none, none, none⟩))
  have hload := hlost.perform (hany (.loadTape [blank] 0))
  refine ⟨_, hload, ⟨rfl, rfl, rfl, rfl, rfl⟩, ?_⟩
  decide +kernel

theorem refused_trace_goes_on :
    ∃ w, Arises .standard (Work.Fits .standard) Reaction.Harmless w ∧ Loaded w ∧
      (run 5 true w).2 = .endless ∧ (run 5 true w).1.desk.running = true ∧
      (run 5 true w).1.desk.ticks = [] := by
  have hnew : Arises .standard (Work.Fits .standard) Reaction.Harmless
      (.new strictHost firstDesk) :=
    @Arises.new .standard _ _ .default none .empty true firstDesk strictHost new_firstDesk
  have hplain : Restores (Work.Fits .standard)
      (.useRules ⟨[⟨initialState, "1", "1", .stay, "[/x]"⟩]⟩) := fun s hs => absurd hs (by simp)
  have hrules := hnew.perform hplain
  refine ⟨_, hrules, ⟨rfl, rfl, rfl, rfl, rfl⟩, ?_⟩
  decide +kernel

/-- A trial may go on for ever: where a restored session has brought the number of a challenge that
there is not, and where the console does not show a line of the trace. Then the tick that should end
the run fails. -/
theorem trial_may_go_on :
    (∃ w, Arises .standard (fun _ => True) Reaction.Harmless w ∧ Loaded w ∧
      (run 5 false w).2 = .endless ∧ (run 5 false w).1.desk.running = true ∧
      (run 5 false w).1.desk.ticks = []) ∧
    ∃ w, Arises .standard (Work.Fits .standard) Reaction.Harmless w ∧ Loaded w ∧
      (run 5 true w).2 = .endless ∧ (run 5 true w).1.desk.running = true ∧
      (run 5 true w).1.desk.ticks = [] :=
  ⟨lost_challenge_goes_on, refused_trace_goes_on⟩

end Trial

end TapeLab
