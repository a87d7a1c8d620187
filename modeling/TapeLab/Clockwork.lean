import TapeLab.Pacer

/-!
Waiting. While someone waits, the calls of an agenda are carried out in their order, until a bell
has rung or a run has ended. The number of calls during one wait is bounded by `patience`, since
timers without delay can go on at one time for ever.
-/

namespace TapeLab

/-- States with an agenda, and what the alarms of their timers do. -/
structure Clockwork (σ α : Type) where
  agenda : σ → Agenda α
  withAgenda : Agenda α → σ → σ
  fire : α → σ → σ

structure PacedClockwork (σ α : Type) extends Clockwork σ α where
  pacer : σ → Pacer

namespace Clockwork

variable {σ α : Type} (c : Clockwork σ α)

def goUntil (done : σ → Bool) : Nat → σ → σ
  | 0, s => s
  | patience + 1, s =>
    if done s then s
    else match (c.agenda s).advance? with
      | none => s
      | some (none, a) => goUntil done patience (c.withAgenda a s)
      | some (some alarm, a) => goUntil done patience (c.fire alarm (c.withAgenda a s))

def hasRung (bell : Nat) (s : σ) : Bool := (c.agenda s).hasRung bell

def setBell (delay : Time) (turns : Nat) (s : σ) : σ × Nat :=
  let (a, bell) := (c.agenda s).set delay (.bell turns)
  (c.withAgenda a s, bell)

def awaitBell (patience bell : Nat) (s : σ) : σ := c.goUntil (c.hasRung bell) patience s

def passTurns (patience turns : Nat) (s : σ) : σ :=
  let (a, bell) := (c.agenda s).putOff (.bell (turns - 1))
  c.awaitBell patience bell (c.withAgenda a s)

/-- Waits for some milliseconds. Who sleeps is woken a turn after the time has come. -/
def sleep (patience : Nat) (delay : Rat) (s : σ) : σ :=
  if 0 < delay then
    let (s, bell) := c.setBell (.finite delay) 1 s
    c.awaitBell patience bell s
  else c.passTurns patience 1 s

end Clockwork

namespace PacedClockwork

variable {σ α : Type} (c : PacedClockwork σ α)

/-- Waits until a run has ended, or a bell has rung if there is one, and tells how the run ended. -/
def awaitEnding (patience run : Nat) (bell : Option Nat) (s : σ) : σ × Option Ending :=
  let s := c.goUntil
    (fun s => ((c.pacer s).ending? run).isSome || bell.any fun b => c.hasRung b s) patience s
  (s, (c.pacer s).ending? run)

def longestWait : Rat := 3600000

/-- Waits for the end of the run that is going, and answers the phase in which it ended; none if
that takes too long. If no run is going, the answer is the present phase. Who waits looks at the
pacer in the next turn, and is told two turns after that or four after the end of the run. -/
def wait (patience : Nat) (s : σ) : σ × Option Phase :=
  let (s, limit) := c.setBell (.finite longestWait) 4 s
  let s := c.passTurns patience 1 s
  let (s, phase) := match (c.pacer s).current with
    | none => (c.passTurns patience 2 s, some (c.pacer s).phase)
    | some run =>
      match c.awaitEnding patience run (some limit) s with
      | (s, some e) => (c.passTurns patience 4 s, some e.phase)
      | (s, none) => (s, none)
  (c.withAgenda ((c.agenda s).cancel limit) s, phase)

end PacedClockwork

end TapeLab
