import TapeLab.Proofs.Desk.Advance
import TapeLab.Proofs.Trial
import TapeLab.Proofs.Workbench.Arises

/-!
The course of a trial. Whatever timers fire, a tick advances the machine once and any other timer
does nothing to it; so the run goes on with one advance after the other until the machine stops, and
it ends with the tick that has made it stop. If no timer of a tick is left waiting for ever, that
tick comes.
-/

namespace TapeLab.Trial

open Workbench

variable {only : Prop} {limit : Nat} {trace : Bool} {host : Host} {start : Work} {delay : Int}
  {number i : Nat} {w v : Workbench}

/-- The console shows the line of every machine that a trial comes to, and the watcher may pause the
run. -/
structure Affords (host : Host) (limit : Nat) (trace : Bool) (start : Work) : Prop where
  depth : 0 < host.depth
  shows : trace = true → ∀ i, (∀ k < i, (start.advanceMany k).machine.halted = false ∧
    (start.advanceMany k).machine.steps < limit) → (start.advanceMany i).machine.Showable host

/-- The run is going on, and its machine has been advanced so many times. -/
structure Going (only : Prop) (limit : Nat) (trace : Bool) (host : Host) (start : Work)
    (delay : Int) (number i : Nat) (w : Workbench) : Prop where
  listeners : w.listeners = [watcher limit trace]
  host : w.host = host
  flagged : w.flagged = false
  inStep : w.desk.InStep only
  running : w.desk.running = true
  delay : w.desk.pacer.delay = delay
  current : w.desk.pacer.current = some number
  handle : w.desk.pacer.handle.isSome = true
  work : w.desk.work = start.advanceMany i
  before : ∀ k ≤ i,
    (start.advanceMany k).machine.halted = false ∧ (start.advanceMany k).machine.steps < limit

/-- The run has ended with the step that advanced the machine for the last time. The flag tells
whether the machine has not halted. -/
structure Ended (only : Prop) (limit : Nat) (trace : Bool) (host : Host) (start : Work)
    (delay : Int) (number i : Nat) (w : Workbench) : Prop where
  listeners : w.listeners = [watcher limit trace]
  host : w.host = host
  flagged : w.flagged = !(start.advanceMany i).machine.halted
  inStep : w.desk.InStep only
  idle : w.desk.running = false
  delay : w.desk.pacer.delay = delay
  handle : w.desk.pacer.handle = none
  told : w.desk.pacer.ending? number =
    some ⟨number, if (start.advanceMany i).machine.halted then .halted else .idle⟩
  work : w.desk.work = start.advanceMany i
  stops : start.Stops limit i

theorem Going.stop {phase : Phase} (h : Going only limit trace host start delay number i w)
    (hv : Stands (fun _ => True) w v) (hinStep : v.desk.InStep only)
    (hpacer : v.desk.pacer = w.desk.pacer.beginTick.stop phase)
    (hflag : v.flagged = !(start.advanceMany (i + 1)).machine.halted)
    (hwork : v.desk.work = start.advanceMany (i + 1))
    (hphase : phase = if (start.advanceMany (i + 1)).machine.halted then .halted else .idle)
    (hstopped : (start.advanceMany (i + 1)).machine.halted = true ∨
      (start.advanceMany (i + 1)).machine.steps = limit) :
    Ended only limit trace host start delay number (i + 1) v where
  listeners := hv.listeners.trans h.listeners
  host := hv.host.trans h.host
  flagged := hflag
  inStep := hinStep
  idle := by
    rw [Desk.running, hpacer, hphase]
    cases (start.advanceMany (i + 1)).machine.halted <;> rfl
  delay := by
    rw [hpacer]
    exact h.delay
  handle := by
    rw [hpacer]
    rfl
  told := by
    rw [hpacer, ← hphase]
    exact Pacer.ending?_stop (p := w.desk.pacer.beginTick) h.current
  work := hwork
  stops := ⟨fun k hk => h.before k (Nat.le_of_lt_succ hk), hstopped⟩

section Affords

variable (hstart : start.Bounded) (hhost : Affords host limit trace start)

theorem Going.advanced (h : Going only limit trace host start delay number i w) :
    w.desk.work.advanced = start.advanceMany (i + 1) := by
  rw [h.work]
  rfl

include hstart hhost

theorem Going.watching (h : Going only limit trace host start delay number i w)
    (a : Agenda Alarm) : Watching limit trace (w.withAgenda a) where
  listeners := h.listeners
  bounded := h.work ▸ hstart.advanceMany i
  running := h.running
  depth := h.host ▸ hhost.depth
  shows htrace := by
    show w.desk.work.advanced.machine.Showable w.host
    rw [h.host, h.advanced]
    exact hhost.shows htrace (i + 1) fun k hk => h.before k (Nat.le_of_lt_succ hk)

theorem Going.tick (h : Going only limit trace host start delay number i w) {a : Agenda Alarm}
    (hinStep : (w.withAgenda a).tick.desk.InStep only) :
    Ended only limit trace host start delay number (i + 1) (w.withAgenda a).tick ∨
      Going only limit trace host start delay number (i + 1) (w.withAgenda a).tick := by
  have hwatching := h.watching hstart hhost a
  have hnext : (w.withAgenda a).desk.work.advanced = start.advanceMany (i + 1) := h.advanced
  have hv : Stands (fun _ => True) w (w.withAgenda a).tick :=
    (stands_fire (w.withAgenda a) .tick).of_desk
  have hwork := (calm_tick (calm_watcher hwatching.listeners)).2
  rw [hwatching.running, if_pos rfl, hnext] at hwork
  cases hhalted : (start.advanceMany (i + 1)).machine.halted with
  | true =>
    obtain ⟨hpacer, hflag⟩ := hwatching.pacer_tick_of_halted (hnext ▸ hhalted)
    exact .inl (h.stop hv hinStep hpacer (by rw [hflag, hhalted]; exact h.flagged) hwork
      (by rw [hhalted]; rfl) (.inl hhalted))
  | false =>
    have hsteps : (start.advanceMany (i + 1)).machine.steps ≤ limit :=
      Int.le_trans (Work.steps_succ_le hstart i) (h.before i (Nat.le_refl i)).2
    by_cases hlimit : (limit : Int) ≤ (start.advanceMany (i + 1)).machine.steps
    · obtain ⟨hpacer, hflag⟩ :=
        hwatching.pacer_tick_of_limit (hnext ▸ hhalted) (hnext ▸ hlimit)
      exact .inl (h.stop hv hinStep hpacer (by rw [hflag, hhalted]; rfl) hwork
        (by rw [hhalted]; rfl) (.inr (Int.le_antisymm hsteps hlimit)))
    · have hbelow := Int.not_le.1 hlimit
      obtain ⟨hflag, d, change, hgears, htick⟩ :=
        hwatching.gears_tick_of_more (hnext ▸ hhalted) (hnext ▸ hbelow)
      have hd : d.pacer = w.desk.pacer.beginTick := congrArg Gears.pacer hgears
      have hpacer : (w.withAgenda a).tick.desk.pacer =
          { w.desk.pacer with handle := some (saved change d).agenda.next } := by
        refine (congrArg Gears.pacer htick).trans ?_
        rw [hd]
        rfl
      refine .inr ⟨hv.listeners.trans h.listeners, hv.host.trans h.host, hflag.trans h.flagged,
        hinStep, ?_, ?_, ?_, ?_, hwork, fun k hk => ?_⟩
      · rw [Desk.running, hpacer]
        exact h.running
      · rw [hpacer]
        exact h.delay
      · rw [hpacer]
        exact h.current
      · rw [hpacer]
        rfl
      · rcases Nat.lt_or_eq_of_le hk with hlt | rfl
        · exact h.before k (Nat.le_of_lt_succ hlt)
        · exact ⟨hhalted, hbelow⟩

omit hstart hhost

theorem Going.same (h : Going only limit trace host start delay number i w)
    (hv : v = { w with desk := v.desk }) (hinStep : v.desk.InStep only)
    (hpacer : v.desk.pacer = w.desk.pacer) (hwork : v.desk.work = w.desk.work) :
    Going only limit trace host start delay number i v where
  listeners := (congrArg Workbench.listeners hv).trans h.listeners
  host := (congrArg Workbench.host hv).trans h.host
  flagged := (congrArg Workbench.flagged hv).trans h.flagged
  inStep := hinStep
  running := (congrArg Pacer.running hpacer).trans h.running
  delay := (congrArg Pacer.delay hpacer).trans h.delay
  current := (congrArg Pacer.current hpacer).trans h.current
  handle := hpacer ▸ h.handle
  work := hwork.trans h.work
  before := h.before

theorem Going.answerKeeper (h : Going only limit trace host start delay number i w)
    {a : Agenda Alarm} {alarm : KeeperAlarm}
    (hinStep : ((w.withAgenda a).fire (.keeper alarm)).desk.InStep only) :
    Going only limit trace host start delay number i ((w.withAgenda a).fire (.keeper alarm)) :=
  h.same rfl hinStep ((w.withAgenda a).desk.pacer_answerKeeper alarm)
    ((w.withAgenda a).desk.work_answerKeeper alarm)

include hstart hhost

theorem Going.inStep_stirs (h : Going only limit trace host start delay number i w)
    (hv : Stirs w v) : v.desk.InStep only := by
  cases hv with
  | @fire id alarm a halarms hnext =>
    exact inStep_fire h.inStep (calm_watcher h.listeners) (fun _ _ hop => hop)
      (fun _ => (h.watching hstart hhost a).tick_eq.1) (h.work ▸ hstart.advanceMany i) halarms hnext
  | pass halarms hnext => exact inStep_pass h.inStep halarms hnext

theorem Going.stirs (h : Going only limit trace host start delay number i w) (hv : Stirs w v) :
    (Going only limit trace host start delay number i v ∧
        v.desk.pacer.handle = w.desk.pacer.handle) ∨
      Ended only limit trace host start delay number (i + 1) v ∨
      Going only limit trace host start delay number (i + 1) v := by
  have hinStep := h.inStep_stirs hstart hhost hv
  cases hv with
  | @fire id alarm a halarms hnext =>
    cases alarm with
    | tick => exact .inr (h.tick hstart hhost hinStep)
    | keeper alarm =>
      have hpacer := (w.withAgenda a).desk.pacer_answerKeeper alarm
      exact .inl ⟨h.answerKeeper hinStep, congrArg Pacer.handle hpacer⟩
  | pass _ _ => exact .inl ⟨h.same rfl hinStep rfl rfl, rfl⟩

omit hstart hhost

theorem Ended.stirs (h : Ended only limit trace host start delay number i w) (hv : Stirs w v) :
    Ended only limit trace host start delay number i v := by
  cases hv with
  | @fire id alarm a halarms hnext =>
    cases alarm with
    | tick =>
      have hinStep := inStep_tick_of_idle h.inStep h.idle halarms hnext
      have htick := tick_of_idle (w := w.withAgenda a) h.idle
      show Ended only limit trace host start delay number i (w.withAgenda a).tick
      rw [htick] at hinStep ⊢
      exact ⟨h.listeners, h.host, h.flagged, hinStep, h.idle, h.delay, rfl, h.told, h.work,
        h.stops⟩
    | keeper alarm =>
      have hinStep := inStep_answerKeeper h.inStep halarms hnext
      have hpacer := (w.withAgenda a).desk.pacer_answerKeeper alarm
      have hwork := (w.withAgenda a).desk.work_answerKeeper alarm
      exact ⟨h.listeners, h.host, h.flagged, hinStep, (congrArg Pacer.running hpacer).trans h.idle,
        (congrArg Pacer.delay hpacer).trans h.delay, (congrArg Pacer.handle hpacer).trans h.handle,
        (congrArg (fun p => p.ending? number) hpacer).trans h.told, hwork.trans h.work, h.stops⟩
  | pass halarms hnext =>
    exact ⟨h.listeners, h.host, h.flagged, inStep_pass h.inStep halarms hnext, h.idle, h.delay,
      h.handle, h.told, h.work, h.stops⟩

def Course (s : Nat → Workbench) : Prop := ∀ t, Stirs (s t) (s (t + 1))

/-- No timer of a tick is left waiting for ever. -/
def Fair (s : Nat → Workbench) : Prop :=
  ∀ t id, (id, .tick) ∈ (s t).desk.agenda.alarms →
    ∃ u, t ≤ u ∧ (id, .tick) ∉ (s u).desk.agenda.alarms

variable {s : Nat → Workbench} {t u : Nat}

theorem Going.alarm (h : Going only limit trace host start delay number i w) :
    ∃ id, w.desk.pacer.handle = some id ∧ (id, .tick) ∈ w.desk.agenda.alarms := by
  obtain ⟨id, hid⟩ := Option.isSome_iff_exists.1 h.handle
  exact ⟨id, hid, h.inStep.sound.pacer.held id hid⟩

include hstart hhost

theorem Going.later (hs : Course s)
    (h : Going only limit trace host start delay number i (s t)) (n : Nat) :
    (∃ u, Ended only limit trace host start delay number (i + 1) (s u) ∨
        Going only limit trace host start delay number (i + 1) (s u)) ∨
      (Going only limit trace host start delay number i (s (t + n)) ∧
        (s (t + n)).desk.pacer.handle = (s t).desk.pacer.handle) := by
  induction n with
  | zero => exact .inr ⟨h, rfl⟩
  | succ n ih =>
    rcases ih with hcome | ⟨hgoing, hhandle⟩
    · exact .inl hcome
    · rcases hgoing.stirs hstart hhost (hs (t + n)) with ⟨hsame, hkept⟩ | hmoved
      · exact .inr ⟨hsame, hkept.trans hhandle⟩
      · exact .inl ⟨_, hmoved⟩

theorem Going.moves (hs : Course s) (hfair : Fair s)
    (h : Going only limit trace host start delay number i (s t)) :
    ∃ u, Ended only limit trace host start delay number (i + 1) (s u) ∨
      Going only limit trace host start delay number (i + 1) (s u) := by
  obtain ⟨id, hid, hwaits⟩ := h.alarm
  obtain ⟨u, hle, hgone⟩ := hfair t id hwaits
  rcases h.later hstart hhost hs (u - t) with hcome | ⟨hgoing, hhandle⟩
  · exact hcome
  · rw [Nat.add_sub_cancel' hle] at hgoing hhandle
    exact absurd (hgoing.inStep.sound.pacer.held id (hhandle.trans hid)) hgone

omit hstart hhost

theorem Going.lt {n : Nat} (h : Going only limit trace host start delay number i w)
    (hn : start.Stops limit n) : i < n :=
  Nat.lt_of_not_le fun hle => hn.not_going (h.before n hle)

include hstart hhost

theorem Going.ends (hs : Course s) (hfair : Fair s) {n : Nat}
    (hn : start.Stops limit n) {left : Nat} (hleft : n = i + left)
    (h : Going only limit trace host start delay number i (s t)) :
    ∃ u, Ended only limit trace host start delay number n (s u) := by
  -- on the advances that are left
  induction left generalizing i t with
  | zero => exact absurd (h.lt hn) (by omega)
  | succ left ih =>
    obtain ⟨u, hended | hgoing⟩ := h.moves hstart hhost hs hfair
    · obtain rfl := hended.stops.unique hn
      exact ⟨u, hended⟩
    · exact ih (by omega) hgoing

theorem Going.always (hs : Course s)
    (h : Going only limit trace host start delay number 0 (s 0)) (t : Nat) :
    ∃ i, Going only limit trace host start delay number i (s t) ∨
      Ended only limit trace host start delay number i (s t) := by
  induction t with
  | zero => exact ⟨0, .inl h⟩
  | succ t ih =>
    obtain ⟨i, hgoing | hended⟩ := ih
    · rcases hgoing.stirs hstart hhost (hs t) with ⟨hsame, -⟩ | hended | hmoved
      · exact ⟨i, .inl hsame⟩
      · exact ⟨i + 1, .inr hended⟩
      · exact ⟨i + 1, .inl hmoved⟩
    · exact ⟨i, .inr (hended.stirs (hs t))⟩

omit hstart hhost

theorem Ended.always (hs : Course s)
    (h : Ended only limit trace host start delay number i (s t)) (n : Nat) :
    Ended only limit trace host start delay number i (s (t + n)) := by
  induction n with
  | zero => exact h
  | succ n ih => exact ih.stirs (hs (t + n))

end Affords

end TapeLab.Trial
