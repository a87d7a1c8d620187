import TapeLab.Clockwork

/-!
Rehearsals: a pacer on its own, whose step follows a script. The script tells for each call of the
step whether it halts, what it does to the pacer before it returns, and whether there is more to do.
Waiters stand beside the pacer and wait for the end of the run that is going when they look.
-/

namespace TapeLab

inductive PacerAction
  | start
  | pause
  | reset
  | cancel
  deriving DecidableEq, Repr

/-- One call of a scripted step. -/
structure ScriptedCall where
  halts : Bool
  actions : List PacerAction
  more : Bool
  deriving DecidableEq, Repr

abbrev Script := Nat → ScriptedCall

inductive Attention
  | fresh
  | watching (run : Nat)
  | leaving
  | told (phase : Option Phase)
  deriving DecidableEq, Repr

/-- Someone who waits for the end of a run, no longer than until the limit's timer fires. -/
structure Waiter where
  attention : Attention
  limit : Option Nat
  deriving DecidableEq, Repr

inductive Cue
  | tick
  | arrive (waiter : Nat)
  | look (waiter : Nat)
  | tell (waiter : Nat) (phase : Option Phase) (turns : Nat)
  | giveUp (waiter : Nat)
  deriving DecidableEq, Repr

structure Rehearsal where
  pacer : Pacer
  agenda : Agenda Cue
  halted : Bool
  calls : Nat
  ticks : List Rat
  waiters : List Waiter
  loop : Bool
  deriving Repr

namespace Rehearsal

def new (delay : Int) (halted loop : Bool) : Rehearsal :=
  ⟨.new delay, .empty, halted, 0, [], [], loop⟩

def putOff (cue : Cue) (r : Rehearsal) : Rehearsal :=
  { r with agenda := (r.agenda.putOff (.alarm cue)).1 }

def setAttention (i : Nat) (a : Attention) (r : Rehearsal) : Rehearsal :=
  { r with waiters := r.waiters.modify i fun w => { w with attention := a } }

def attention? (r : Rehearsal) (i : Nat) : Option Attention := r.waiters[i]?.map Waiter.attention

def dismiss (i : Nat) (phase : Option Phase) (turns : Nat) (r : Rehearsal) : Rehearsal :=
  (r.setAttention i .leaving).putOff (.tell i phase (turns - 1))

def release (r : Rehearsal) (i : Nat) : Rehearsal :=
  match r.attention? i with
  | some (.watching run) =>
    match r.pacer.ending? run with
    | some e => r.dismiss i (some e.phase) 4
    | none => r
  | _ => r

def releaseAll (r : Rehearsal) : Rehearsal := (List.range r.waiters.length).foldl release r

def addWaiter (r : Rehearsal) : Rehearsal :=
  let i := r.waiters.length
  putOff (.arrive i) { r with waiters := r.waiters ++ [⟨.fresh, none⟩] }

def arrive (i : Nat) (r : Rehearsal) : Rehearsal :=
  let (a, limit) := r.agenda.set (.finite PacedClockwork.longestWait) (.alarm (.giveUp i))
  putOff (.look i)
    { r with
      agenda := a
      waiters := r.waiters.modify i fun w => { w with limit := some limit } }

def look (i : Nat) (r : Rehearsal) : Rehearsal :=
  match r.pacer.current with
  | none => r.dismiss i (some r.pacer.phase) 2
  | some run => r.setAttention i (.watching run)

def tell (i : Nat) (phase : Option Phase) (r : Rehearsal) : Rehearsal :=
  let limit := r.waiters[i]?.bind Waiter.limit
  setAttention i (.told phase) { r with agenda := (limit.map r.agenda.cancel).getD r.agenda }

def giveUp (i : Nat) (r : Rehearsal) : Rehearsal :=
  match r.attention? i with
  | some (.watching _) => r.dismiss i none 4
  | _ => r

def withPair (r : Rehearsal) (p : Pacer × Agenda Cue) : Rehearsal :=
  releaseAll { r with pacer := p.1, agenda := p.2 }

/-- Starts a run; `none` tells that timers cannot be set. The answer's second part tells whether the
run was started. -/
def start? (r : Rehearsal) : Option (Rehearsal × Bool) :=
  match r.pacer.start? .tick r.halted r.agenda with
  | none => some (r, false)
  | some p => if r.loop then some (r.withPair p, true) else none

def pause (r : Rehearsal) : Rehearsal := r.withPair (r.pacer.pause r.agenda)

def reset (r : Rehearsal) : Rehearsal := r.withPair (r.pacer.reset r.agenda)

def cancel (r : Rehearsal) : Rehearsal := r.withPair (r.pacer.cancel r.agenda)

def act (r : Rehearsal) : PacerAction → Rehearsal
  | .start => (r.start?.map Prod.fst).getD r
  | .pause => r.pause
  | .reset => r.reset
  | .cancel => r.cancel

def call (r : Rehearsal) (c : ScriptedCall) : Rehearsal :=
  c.actions.foldl act
    { r with
      calls := r.calls + 1
      ticks := r.agenda.now :: r.ticks
      halted := r.halted || c.halts }

def tick (script : Script) (r : Rehearsal) : Rehearsal :=
  let r := { r with pacer := r.pacer.beginTick }
  if !r.pacer.running then r
  else
    let c := script (r.calls + 1)
    let r := r.call c
    r.withPair (r.pacer.endTick .tick c.more r.halted r.agenda)

def fire (script : Script) : Cue → Rehearsal → Rehearsal
  | .tick, r => r.tick script
  | .arrive i, r => r.arrive i
  | .look i, r => r.look i
  | .tell i phase 0, r => r.tell i phase
  | .tell i phase (turns + 1), r => r.putOff (.tell i phase turns)
  | .giveUp i, r => r.giveUp i

def clockwork (script : Script) : PacedClockwork Rehearsal Cue where
  agenda := agenda
  withAgenda a r := { r with agenda := a }
  pacer := pacer
  fire := fire script

def sleep (script : Script) (patience : Nat) (delay : Rat) (r : Rehearsal) : Rehearsal :=
  (clockwork script).sleep patience delay r

def wait (script : Script) (patience : Nat) (r : Rehearsal) : Rehearsal × Option Phase :=
  (clockwork script).wait patience r

def told? (r : Rehearsal) (i : Nat) : Option (Option Phase) :=
  match r.attention? i with
  | some (.told phase) => some phase
  | _ => none

def hear (script : Script) (patience : Nat) (r : Rehearsal) (i : Nat) : Rehearsal :=
  if (r.told? i).isSome then r
  else
    let c := clockwork script
    c.passTurns patience 1 (c.goUntil (fun r => (r.told? i).isSome) patience r)

def gather (script : Script) (patience : Nat) (r : Rehearsal) : Rehearsal × List (Option Phase) :=
  let numbers := List.range r.waiters.length
  let r := numbers.foldl (hear script patience) r
  (r, numbers.map fun i => (r.told? i).getD none)

end Rehearsal

end TapeLab
