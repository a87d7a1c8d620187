import TapeLab.Desk.Operation
import TapeLab.Clockwork

/-!
Workbenches: a desk whose changes are announced, first to the keeper of the session and then to
listeners. A listener answers with entries for the journal, outputs for the console and operations,
whose changes are announced in turn. The first of them that fails ends the announcement, and with it
what has been announced.
-/

namespace TapeLab

/-- What the program runs on. -/
structure Host where
  /-- What is wrong with an output that the console does not show. -/
  refusal : Output → Option String
  /-- How deep operations may nest that listeners ask for. -/
  depth : Nat

def Host.Takes (h : Host) (o : Output) : Prop := h.refusal o = none

instance (h : Host) (o : Output) : Decidable (h.Takes o) :=
  inferInstanceAs (Decidable (h.refusal o = none))

def Host.plain : Host := ⟨fun _ => none, 100⟩

inductive Reaction
  | note (entry : Entry)
  | print (output : Output)
  | flag
  | perform (op : Operation)
  deriving DecidableEq, Repr

structure Listener where
  key : String
  react : Desk → List Reaction

structure Workbench where
  desk : Desk
  listeners : List Listener
  host : Host
  /-- A listener's word to whoever has subscribed it. -/
  flagged : Bool

/-- The workbench as something has left it, and the fault that has ended this, if there is one. -/
abbrev Attempt (ε : Type) := Workbench × Option ε

def Attempt.andThen {ε : Type} (r : Attempt ε) (next : Workbench → Attempt ε) : Attempt ε :=
  match r with
  | (w, none) => next w
  | (w, some e) => (w, some e)

def Attempt.mapFault {ε δ : Type} (f : ε → δ) (r : Attempt ε) : Attempt δ := (r.1, r.2.map f)

namespace Workbench

def new (host : Host) (d : Desk) : Workbench := ⟨d, [], host, false⟩

@[simp] theorem desk_new (host : Host) (d : Desk) : (new host d).desk = d := rfl

@[simp] theorem listeners_new (host : Host) (d : Desk) : (new host d).listeners = [] := rfl

@[simp] theorem host_new (host : Host) (d : Desk) : (new host d).host = host := rfl

def inTurn {α ε : Type} (f : α → Workbench → Attempt ε) : List α → Workbench → Attempt ε
  | [], w => (w, none)
  | a :: rest, w => (f a w).andThen (inTurn f rest)

def print (o : Output) (w : Workbench) : Attempt Fault :=
  match w.host.refusal o with
  | none => ({ w with desk := w.desk.print o }, none)
  | some message => (w, some (.markup message))

def attend (serve : Reaction → Workbench → Attempt Fault) (l : Listener) (w : Workbench) :
    Attempt Fault :=
  inTurn serve (l.react w.desk) w

/-- Tells all listeners of a change, in the order in which they subscribed. -/
def announce (serve : Reaction → Workbench → Attempt Fault) (w : Workbench) : Attempt Fault :=
  inTurn (attend serve) w.listeners w

/-- Hands a changed session to the keeper and tells the listeners. -/
def tellBy (serve : Reaction → Workbench → Attempt Fault) (w : Workbench) :
    Option Change → Attempt Fault
  | none => (w, none)
  | some .kept => announce serve { w with desk := w.desk.scheduleSave }
  | some .passing => announce serve w

/-- Does what a listener asks for, and announces what comes of it. -/
def serve : Nat → Reaction → Workbench → Attempt Fault
  | _, .note entry, w =>
    ({ w with desk := { w.desk with journal := entry :: w.desk.journal } }, none)
  | _, .print output, w => w.print output
  | _, .flag, w => ({ w with flagged := true }, none)
  | 0, .perform _, w => (w, some .tooDeep)
  | depth + 1, .perform op, w =>
    let o := op.apply w.desk
    (tellBy (serve depth) { w with desk := o.desk } o.change).andThen fun w => (w, o.fault?)

def tell (w : Workbench) (change : Option Change) : Attempt Fault :=
  w.tellBy (serve w.host.depth) change

def perform (op : Operation) (w : Workbench) : Workbench × Except Fault Answer :=
  let o := op.apply w.desk
  match { w with desk := o.desk }.tell o.change with
  | (w, none) => (w, o.answer)
  | (w, some f) => (w, .error f)

/-- One tick of a run. If its step fails, or a listener that is told of it, the run is left without
a next tick. -/
def tick (w : Workbench) : Workbench :=
  let d := { w.desk with pacer := w.desk.pacer.beginTick }
  if !d.running then { w with desk := d }
  else
    let o := d.advance
    match { w with desk := o.desk }.tell o.change, o.answer with
    | (w, none), .ok more =>
      let d := w.desk
      { w with desk := d.withPacer (d.pacer.endTick .tick more d.machine.halted d.agenda) }
    | (w, _), _ => w

def fire (w : Workbench) : Alarm → Workbench
  | .tick => w.tick
  | .keeper alarm => { w with desk := w.desk.answerKeeper alarm }

def clockwork : PacedClockwork Workbench Alarm where
  agenda w := w.desk.agenda
  withAgenda a w := { w with desk := { w.desk with agenda := a } }
  pacer w := w.desk.pacer
  fire alarm w := w.fire alarm

def subscribe (l : Listener) (w : Workbench) : Workbench :=
  { w with listeners := w.listeners ++ [l] }

def unsubscribe? (key : String) (w : Workbench) : Option Workbench :=
  if w.listeners.any fun l => l.key == key then
    some { w with listeners := w.listeners.eraseP fun l => l.key == key }
  else none

def recorder (key : String) : Listener where
  key := key
  react d := [.note (.heard key d.machine.steps d.running)]

end Workbench

end TapeLab
