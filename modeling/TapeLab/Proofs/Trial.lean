import TapeLab.Trial
import TapeLab.Proofs.Workbench.Tracing

/-!
The watcher of a trial, and what a tick does while it watches. The watcher pauses the run in the
middle of the tick that has come to the limit, if the machine has not halted; then the run has ended
before the tick ends. Otherwise the tick ends the run itself, with a halt, or it sets the timer of
the next one.
-/

namespace TapeLab

namespace Trial

open Workbench

variable {limit : Nat} {trace : Bool} {w : Workbench}

def isOver (limit : Nat) (d : Desk) : Bool :=
  d.running && !d.machine.halted && limit ≤ d.machine.steps

def watched (limit : Nat) (d : Desk) : Desk := if isOver limit d then d.paused else d

theorem running_of_isOver {d : Desk} (h : isOver limit d = true) : d.running = true := by
  simp only [isOver, Bool.and_eq_true] at h
  exact h.1.1

theorem isOver_paused (limit : Nat) (d : Desk) : isOver limit d.paused = false := by
  simp [isOver, d.running_paused]

/-- What comes into the journal when the watcher is told of a change: if it pauses the run, it is
told of this as well, and shows the machine again. -/
def told (limit : Nat) (trace : Bool) (d : Desk) : Journal :=
  let entries := d.machine.traceEntries trace
  if isOver limit d then entries ++ .logged .runPaused :: entries else entries

theorem announce_eq (hl : w.listeners = [watcher limit trace])
    (hshows : trace = true → w.desk.machine.Showable w.host) (depth : Nat) :
    announce (serve depth) w =
      inTurn (serve depth) (if isOver limit w.desk then [.flag, .perform .pause] else [])
        { w with desk := { w.desk with
          journal := w.desk.machine.traceEntries trace ++ w.desk.journal } } := by
  have hreact : (watcher limit trace).react w.desk =
      w.desk.machine.traceReactions trace ++
        if isOver limit w.desk then [.flag, .perform .pause] else [] := rfl
  rw [announce_of_singleton hl, hreact, inTurn_append, inTurn_traceReactions hshows]
  rfl

theorem serve_pause (hl : w.listeners = [watcher limit trace]) (hrunning : w.desk.running = true)
    (hshows : trace = true → w.desk.machine.Showable w.host) (depth : Nat) :
    serve (depth + 1) (.perform .pause) w =
      ({ w with desk := { w.desk.paused with
        journal :=
          w.desk.machine.traceEntries trace ++ .logged .runPaused :: w.desk.journal } }, none) := by
  have hover : isOver limit (w.desk.paused.log .runPaused) = false :=
    isOver_paused limit w.desk
  have hj := announce_eq (w := { w with desk := w.desk.paused.log .runPaused }) hl hshows depth
  rw [hover] at hj
  rw [serve, Desk.apply_pause_of_running hrunning]
  show (announce (serve depth) { w with desk := w.desk.paused.log .runPaused }).andThen _ = _
  rw [hj]
  rfl

theorem announce_watcher (hl : w.listeners = [watcher limit trace])
    (hshows : trace = true → w.desk.machine.Showable w.host) (depth : Nat) :
    announce (serve (depth + 1)) w =
      ({ w with
        desk := { watched limit w.desk with
          journal := told limit trace w.desk ++ w.desk.journal }
        flagged := w.flagged || isOver limit w.desk }, none) := by
  rw [announce_eq hl hshows (depth + 1)]
  unfold watched told
  split
  · next hover =>
    have hpause := serve_pause (w := { w with
        desk := { w.desk with journal := w.desk.machine.traceEntries trace ++ w.desk.journal }
        flagged := true }) hl (running_of_isOver hover) hshows depth
    rw [inTurn, serve]
    show (serve (depth + 1) (.perform .pause) _).andThen _ = _
    rw [hpause, hover, Bool.or_true, List.append_assoc]
    rfl
  · next hover =>
    rw [Bool.eq_false_iff.2 hover, Bool.or_false]
    rfl

def saved : Change → Desk → Desk
  | .kept, d => d.scheduleSave
  | .passing, d => d

theorem work_saved (change : Change) (d : Desk) : (saved change d).work = d.work := by
  cases change with
  | passing => rfl
  | kept => exact d.work_scheduleSave

theorem pacer_saved (change : Change) (d : Desk) : (saved change d).pacer = d.pacer := by
  cases change with
  | passing => rfl
  | kept => exact d.pacer_scheduleSave

theorem isOver_saved (limit : Nat) (change : Change) (d : Desk) :
    isOver limit (saved change d) = isOver limit d := by
  have hmachine : (saved change d).machine = d.machine :=
    congrArg Work.machine (work_saved change d)
  unfold isOver Desk.running
  rw [pacer_saved, hmachine]

theorem tell_watcher (hl : w.listeners = [watcher limit trace]) (hdepth : 0 < w.host.depth)
    (hshows : trace = true → w.desk.machine.Showable w.host) (change : Change) :
    w.tell (some change) =
      ({ w with
        desk := { watched limit (saved change w.desk) with
          journal := told limit trace (saved change w.desk) ++ (saved change w.desk).journal }
        flagged := w.flagged || isOver limit w.desk }, none) := by
  obtain ⟨depth, hdepth⟩ := Nat.exists_eq_add_one_of_ne_zero (Nat.ne_of_gt hdepth)
  have htell : w.tell (some change) =
      announce (serve (depth + 1)) { w with desk := saved change w.desk } := by
    rw [Workbench.tell, hdepth]
    cases change <;> rfl
  have hmachine : (saved change w.desk).machine = w.desk.machine :=
    congrArg Work.machine (work_saved change w.desk)
  rw [htell, announce_watcher (w := { w with desk := saved change w.desk }) hl
    (fun htrace => hmachine ▸ hshows htrace) depth, isOver_saved]

theorem calm_watcher (hl : w.listeners = [watcher limit trace]) : Calm w.listeners := by
  intro l hlisten op hop
  rw [hl] at hlisten
  obtain rfl := List.mem_singleton.1 hlisten
  obtain ⟨d, hd⟩ := hop
  unfold watcher at hd
  dsimp only at hd
  rcases List.mem_append.1 hd with hshow | hpause
  · split at hshow
    · simp at hshow
    · cases hshow
  · split at hpause
    · obtain rfl : op = .pause := by simpa using hpause
      trivial
    · cases hpause

/-- A run is going on under the eyes of the watcher, and the console shows what the next step leads
to. -/
structure Watching (limit : Nat) (trace : Bool) (w : Workbench) : Prop where
  listeners : w.listeners = [watcher limit trace]
  bounded : w.desk.work.Bounded
  running : w.desk.running = true
  depth : 0 < w.host.depth
  shows : trace = true → w.desk.work.advanced.machine.Showable w.host

theorem Watching.tick_eq (h : Watching limit trace w) :
    w.stepAnnounced.2 = none ∧ ∃ (d : Desk) (change : Change) (j : Journal),
      d.gears = { w.desk.gears with pacer := w.desk.pacer.beginTick } ∧
      d.work = w.desk.work.advanced ∧
      w.tick = { w with
        desk := Desk.endTick (!w.desk.work.advanced.machine.halted)
          { watched limit (saved change d) with journal := j }
        flagged := w.flagged || isOver limit d } := by
  obtain ⟨v, fault, j, change, hannounced, hv, htick⟩ := tick_of_running h.bounded h.running
  obtain ⟨d, hd⟩ : ∃ d : Desk, d = { w.desk.stepped with journal := j } := ⟨_, rfl⟩
  have hmachine : d.machine = w.desk.work.advanced.machine := by rw [hd]; rfl
  rw [← hd, tell_watcher (w := { w with desk := d }) h.listeners h.depth
    (fun htrace => hmachine ▸ h.shows htrace) change] at hv
  obtain ⟨rfl, rfl⟩ := Prod.mk.inj hv
  exact ⟨congrArg Prod.snd hannounced, d, change, _, hd ▸ rfl, hd ▸ rfl, htick⟩

theorem Watching.pacer_tick_of_halted (h : Watching limit trace w)
    (hhalted : w.desk.work.advanced.machine.halted = true) :
    w.tick.desk.pacer = w.desk.pacer.beginTick.stop .halted ∧ w.tick.flagged = w.flagged := by
  obtain ⟨-, d, change, j, hgears, hwork, htick⟩ := h.tick_eq
  have hpacer : d.pacer = w.desk.pacer.beginTick := congrArg Gears.pacer hgears
  have hmachine : d.machine = w.desk.work.advanced.machine := congrArg Work.machine hwork
  have hover : isOver limit d = false := by
    rw [isOver, hmachine, hhalted, Bool.not_true, Bool.and_false, Bool.false_and]
  have hwatched : watched limit (saved change d) = saved change d := by
    rw [watched, isOver_saved, hover]
    rfl
  have hmachine' : (saved change d).machine.halted = true := by
    rw [← hhalted, ← hmachine]
    exact congrArg (fun u => u.machine.halted) (work_saved change d)
  rw [htick, hwatched, hhalted]
  refine ⟨?_, by rw [hover, Bool.or_false]⟩
  show ((saved change d).pacer.endTick Alarm.tick false (saved change d).machine.halted _).1 = _
  rw [pacer_saved, hpacer, hmachine', Pacer.endTick, show w.desk.pacer.beginTick.running = true from
    h.running]
  rfl

theorem Watching.pacer_tick_of_limit (h : Watching limit trace w)
    (hhalted : w.desk.work.advanced.machine.halted = false)
    (hlimit : limit ≤ w.desk.work.advanced.machine.steps) :
    w.tick.desk.pacer = w.desk.pacer.beginTick.stop .idle ∧ w.tick.flagged = true := by
  obtain ⟨-, d, change, j, hgears, hwork, htick⟩ := h.tick_eq
  have hpacer : d.pacer = w.desk.pacer.beginTick := congrArg Gears.pacer hgears
  have hmachine : d.machine = w.desk.work.advanced.machine := congrArg Work.machine hwork
  have hgoing : w.desk.pacer.beginTick.running = true := h.running
  have hover : isOver limit d = true := by
    have hrunning' : d.running = true := by rw [Desk.running, hpacer]; exact hgoing
    rw [isOver, hrunning', hmachine, hhalted, decide_eq_true hlimit]
    rfl
  have hwatched : watched limit (saved change d) = (saved change d).paused := by
    rw [watched, isOver_saved, hover]
    rfl
  have hstopped : (saved change d).paused.pacer = w.desk.pacer.beginTick.stop .idle := by
    show ((saved change d).pacer.pause _).1 = _
    rw [Pacer.pause_eq, pacer_saved, hpacer, if_pos hgoing]
    rfl
  rw [htick, hwatched]
  refine ⟨?_, by rw [hover, Bool.or_true]⟩
  show ((saved change d).paused.pacer.endTick Alarm.tick _ _ _).1 = _
  rw [hstopped]
  rfl

theorem Watching.gears_tick_of_more (h : Watching limit trace w)
    (hhalted : w.desk.work.advanced.machine.halted = false)
    (hlimit : w.desk.work.advanced.machine.steps < limit) :
    w.tick.flagged = w.flagged ∧ ∃ (d : Desk) (change : Change),
      d.gears = { w.desk.gears with pacer := w.desk.pacer.beginTick } ∧
      w.tick.desk.gears = { (saved change d).gears with
        pacer := (d.pacer.schedule .tick (saved change d).agenda).1
        agenda := (d.pacer.schedule .tick (saved change d).agenda).2 } := by
  obtain ⟨-, d, change, j, hgears, hwork, htick⟩ := h.tick_eq
  have hpacer : d.pacer = w.desk.pacer.beginTick := congrArg Gears.pacer hgears
  have hmachine : d.machine = w.desk.work.advanced.machine := congrArg Work.machine hwork
  have hgoing : w.desk.pacer.beginTick.running = true := h.running
  have hover : isOver limit d = false := by
    have hnot : ¬ (limit : Int) ≤ w.desk.work.advanced.machine.steps := Int.not_le.2 hlimit
    rw [isOver, hmachine, decide_eq_false hnot, Bool.and_false]
  have hwatched : watched limit (saved change d) = saved change d := by
    rw [watched, isOver_saved, hover]
    rfl
  refine ⟨by rw [htick, hover, Bool.or_false], d, change, hgears, ?_⟩
  rw [htick, hwatched, hhalted]
  unfold Desk.endTick Pacer.endTick Desk.withPacer Desk.gears
  simp only [pacer_saved, hpacer, hgoing, Bool.not_true, Bool.not_false, Bool.false_eq_true,
    if_false, if_true]

end Trial

end TapeLab
