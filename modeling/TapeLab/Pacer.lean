import TapeLab.Agenda

/-!
Pacers. A pacer lets a step happen again and again, with a delay before each, until the step ends
the run or the run is stopped from outside. A run that ends with a halt leaves the pacer halted
until it is reset. One tick is a `beginTick`, the step, and an `endTick`; what the step does to
the pacer itself happens in between.
-/

namespace TapeLab

inductive Phase
  | idle
  | running
  | halted
  deriving DecidableEq, Repr

def Phase.name : Phase → String
  | idle => "idle"
  | running => "running"
  | halted => "halted"

structure Ending where
  run : Nat
  phase : Phase
  deriving DecidableEq, Repr

structure Pacer where
  phase : Phase
  delay : Int
  /-- The timer of the next tick, as far as the pacer knows. -/
  handle : Option Nat
  /-- The run whose end has not been told yet. -/
  current : Option Nat
  runs : Nat
  endings : List Ending
  deriving DecidableEq, Repr

namespace Pacer

variable {α : Type}

def new (delay : Int) : Pacer := ⟨.idle, delay, none, none, 0, []⟩

def running (p : Pacer) : Bool := p.phase == .running

def pending (p : Pacer) : Bool := p.handle.isSome

def ending? (p : Pacer) (run : Nat) : Option Ending := p.endings.find? fun e => e.run == run

def schedule (tick : α) (p : Pacer) (a : Agenda α) : Pacer × Agenda α :=
  let (a, id) := a.set (.finite p.delay) (.alarm tick)
  ({ p with handle := some id }, a)

/-- Starts a run, unless one is going, has halted, or cannot make a step. -/
def start? (tick : α) (halted : Bool) (p : Pacer) (a : Agenda α) : Option (Pacer × Agenda α) :=
  if p.phase ≠ .idle || halted then none
  else
    let p := { p with phase := .running, current := some p.runs, runs := p.runs + 1 }
    some (p.schedule tick a)

def cancel (p : Pacer) (a : Agenda α) : Pacer × Agenda α :=
  match p.handle with
  | none => (p, a)
  | some id => ({ p with handle := none }, a.cancel id)

def stop (phase : Phase) (p : Pacer) : Pacer :=
  { p with
    phase := phase
    current := none
    endings := match p.current with
      | none => p.endings
      | some run => ⟨run, phase⟩ :: p.endings }

def pause (p : Pacer) (a : Agenda α) : Pacer × Agenda α :=
  let (p, a) := p.cancel a
  (if p.running then p.stop .idle else p, a)

def reset (p : Pacer) (a : Agenda α) : Pacer × Agenda α :=
  let (p, a) := p.cancel a
  (p.stop .idle, a)

def beginTick (p : Pacer) : Pacer := { p with handle := none }

/-- A tick ends, after a step that told whether there is more to do. Unless the step stopped the
run, the next tick is scheduled or the run ends. -/
def endTick (tick : α) (more halted : Bool) (p : Pacer) (a : Agenda α) : Pacer × Agenda α :=
  if !p.running then (p, a)
  else if more then p.schedule tick a
  else (p.stop (if halted then .halted else .idle), a)

end Pacer

end TapeLab
