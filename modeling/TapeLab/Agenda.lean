import TapeLab.Heap

/-!
Agendas: what is to be done later. An agenda goes on in turns. A turn begins with what was put off
to it, in order, and goes on with the timers that are due; when nothing has been put off, the time
moves on to the first timer. A timer without delay is due at the next turn of the same time.

A cancelled timer stays in the queue, with nothing to do, until it comes to the front or until such
timers are the greater part of a long queue.
-/

namespace TapeLab

inductive Time
  | finite (ms : Rat)
  | never
  /-- A time that stands in no order to any other. -/
  | unclear
  deriving DecidableEq, Repr

namespace Time

def before : Time → Time → Bool
  | finite a, finite b => a < b
  | finite _, never => true
  | _, _ => false

def after (now : Rat) : Time → Time
  | finite ms => finite (now + ms)
  | t => t

/-- Whether a time has come. An unclear time has come always. -/
def hasCome (now : Rat) : Time → Bool
  | finite ms => ms ≤ now
  | never => false
  | unclear => true

end Time

inductive Call (α : Type)
  | alarm (a : α)
  /-- Rings a bell after some more turns. -/
  | bell (turns : Nat)
  deriving DecidableEq, Repr

structure Timer (α : Type) where
  id : Nat
  due : Time
  call : Option (Call α)
  deriving DecidableEq, Repr

namespace Timer

variable {α : Type}

def before (t u : Timer α) : Bool := t.due.before u.due

def isLive (t : Timer α) : Bool := t.call.isSome

def calls (cost : α → Nat) (t : Timer α) : Nat :=
  match t.call with
  | none => 1
  | some (.alarm x) => cost x
  | some (.bell turns) => turns + 1

def withdraw (id : Nat) (t : Timer α) : Timer α := if t.id = id then { t with call := none } else t

end Timer

structure Agenda (α : Type) where
  now : Rat
  next : Nat
  ready : List (Timer α)
  soon : List (Timer α)
  queue : Array (Timer α)
  /-- The cancelled timers in the queue, as far as they are counted. -/
  stale : Nat
  rung : List Nat
  deriving DecidableEq, Repr

namespace Agenda

variable {α : Type}

def empty : Agenda α := ⟨0, 0, [], [], #[], 0, []⟩

def set (a : Agenda α) (delay : Time) (call : Call α) : Agenda α × Nat :=
  ({ a with
      next := a.next + 1
      queue := Heap.push Timer.before a.queue ⟨a.next, delay.after a.now, some call⟩ }, a.next)

def putOff (a : Agenda α) (call : Call α) : Agenda α × Nat :=
  ({ a with
      next := a.next + 1
      soon := a.soon ++ [⟨a.next, .finite a.now, some call⟩] }, a.next)

def cancel (a : Agenda α) (id : Nat) : Agenda α :=
  { a with
    ready := a.ready.map (Timer.withdraw id)
    soon := a.soon.map (Timer.withdraw id)
    queue := a.queue.map (Timer.withdraw id)
    stale := if a.queue.any fun t => t.id == id && t.isLive then a.stale + 1 else a.stale }

def timers (a : Agenda α) : List (Timer α) := a.ready ++ a.soon ++ a.queue.toList

def load (cost : α → Nat) (a : Agenda α) : Nat :=
  a.timers.foldr (fun t calls => t.calls cost + calls) 0

def isLive (a : Agenda α) (id : Nat) : Bool := a.timers.any fun t => t.id == id && t.isLive

def hasRung (a : Agenda α) (bell : Nat) : Bool := a.rung.contains bell

def dropStale : Nat → Agenda α → Agenda α
  | 0, a => a
  | count + 1, a =>
    match Heap.pop? Timer.before a.queue with
    | none => a
    | some (t, queue) =>
      if t.isLive then a else dropStale count { a with queue := queue, stale := a.stale - 1 }

def longQueue : Nat := 100

/-- Drops cancelled timers: those in front, or all of them if they are more than half of a long
queue. -/
def tidy (a : Agenda α) : Agenda α :=
  if longQueue < a.queue.size && a.queue.size < 2 * a.stale then
    { a with queue := Heap.ofArray Timer.before (a.queue.filter Timer.isLive), stale := 0 }
  else dropStale a.queue.size a

def moveOn (a : Agenda α) : Agenda α :=
  match a.soon, (a.queue[0]?).map Timer.due with
  | [], some (.finite due) => if a.now < due then { a with now := due } else a
  | _, _ => a

def takeDue : Nat → Agenda α → Agenda α
  | 0, a => a
  | count + 1, a =>
    match Heap.pop? Timer.before a.queue with
    | none => a
    | some (t, queue) =>
      if t.due.hasCome a.now then
        takeDue count { a with queue := queue, ready := a.ready ++ [t] }
      else a

/-- Begins the next turn. -/
def turn (a : Agenda α) : Agenda α :=
  let a := a.tidy.moveOn
  takeDue a.queue.size { a with ready := a.soon, soon := [] }

def perform (a : Agenda α) (t : Timer α) : Option α × Agenda α :=
  match t.call with
  | none => (none, a)
  | some (.alarm x) => (some x, a)
  | some (.bell 0) => (none, { a with rung := t.id :: a.rung })
  | some (.bell (turns + 1)) =>
    (none, { a with soon := a.soon ++ [{ t with call := some (.bell turns) }] })

/-- Goes on by one call, in the next turn if this one is over, and answers the alarm, if it is one.
`none` if there is nothing left to be done. -/
def advance? (a : Agenda α) : Option (Option α × Agenda α) :=
  let a := if a.ready.isEmpty then a.turn else a
  match a.ready with
  | [] => none
  | t :: rest => some ({ a with ready := rest }.perform t)

end Agenda

end TapeLab
