import TapeLab.Machine
import TapeLab.RuleTable.Graph
import TapeLab.Challenge.Catalog
import TapeLab.Settings
import TapeLab.Keeper
import TapeLab.Pacer

/-!
Desks. A desk holds one machine with the challenge it works on, the pacer of its runs, the keeper of
its session, and the journal. Every operation of a desk tells its answer and whether there is a
change to announce.
-/

namespace TapeLab

inductive Alarm
  | tick
  | keeper (alarm : KeeperAlarm)
  deriving DecidableEq, Repr

def Alarm.calls : Alarm → Nat
  | .keeper .save => 2
  | _ => 1

structure Desk where
  catalog : Catalog
  /-- The number of the challenge. A restored session may bring any number. -/
  index : Int
  machine : Machine
  pacer : Pacer
  keeper : Option Keeper
  agenda : Agenda Alarm
  disk : Tree
  journal : Journal
  loop : Bool
  deriving Repr

inductive Fault
  | tape (cause : TapeError)
  | table (cause : TableError)
  | noSuchChallenge (index : Int)
  | lostChallenge (builtIn : Bool)
  | delayTooLong
  | delayUnreadable
  | noLoop
  | save (cause : SaveError)
  | markup (message : String)
  | tooDeep
  deriving DecidableEq, Repr

def Fault.message : Fault → String
  | tape cause => cause.message
  | table cause => cause.message
  | noSuchChallenge index => s!"There is no challenge number {index}"
  | lostChallenge true => "tuple index out of range"
  | lostChallenge false => "list index out of range"
  | delayTooLong => "integer division result too large for a float"
  | delayUnreadable => "cannot convert float infinity to integer"
  | noLoop => "no running event loop"
  | save cause => cause.message
  | markup message => message
  | tooDeep => "maximum recursion depth exceeded"

/-- A change that is announced; `kept` if the session is to be saved. -/
inductive Change
  | kept
  | passing
  deriving DecidableEq, Repr

/-- What an operation leads to. -/
structure Outcome (α : Type) where
  desk : Desk
  answer : Except Fault α
  change : Option Change

namespace Outcome

variable {α : Type}

def refused (d : Desk) (a : α) : Outcome α := ⟨d, .ok a, none⟩

def failed (d : Desk) (f : Fault) : Outcome α := ⟨d, .error f, none⟩

def changed (d : Desk) (a : α) (c : Change) : Outcome α := ⟨d, .ok a, some c⟩

def fault? (o : Outcome α) : Option Fault :=
  match o.answer with
  | .error f => some f
  | .ok _ => none

end Outcome

/-- The challenge with a number. A negative number counts from the end. -/
def Catalog.get (c : Catalog) (index : Int) : Except Fault Challenge :=
  match (position? c.challenges.length index).bind (c.challenges[·]?) with
  | some challenge => .ok challenge
  | none => .error (.lostChallenge c.builtIn)

def secondsOf (milliseconds : Int) : Binary64 :=
  .ofRatio (milliseconds < 0) milliseconds.natAbs 1000

namespace Desk

def new (settings : Settings) (catalog : Catalog) (keeper : Option Keeper) (disk : Tree)
    (loop : Bool) : Except Fault Desk :=
  match catalog.challenges with
  | [] => .error (.lostChallenge catalog.builtIn)
  | c :: _ =>
    if (secondsOf settings.speed).isInfinite then .error .delayTooLong
    else .ok
      { catalog := catalog
        index := 0
        machine := .start ⟨c.rules⟩ (.ofCells c.cells) c.head initialState 0 settings.bounds
        pacer := .new settings.speed
        keeper := keeper
        agenda := .empty
        disk := disk
        journal := []
        loop := loop }

def log (l : Log) (d : Desk) : Desk := { d with journal := .logged l :: d.journal }

def logAll (ls : List Log) (d : Desk) : Desk := ls.foldl (fun d l => d.log l) d

def print (o : Output) (d : Desk) : Desk := { d with journal := .shown o :: d.journal }

def running (d : Desk) : Bool := d.pacer.running

def canUndo (d : Desk) : Bool := 0 < d.machine.history.size && !d.running

def challenge (d : Desk) : Except Fault Challenge := d.catalog.get d.index

/-- The delay of a run in milliseconds, as it is told: from seconds in floating point and back. -/
def speed (d : Desk) : Except Fault Int :=
  match ((secondsOf d.pacer.delay).mulNat 1000).round? with
  | some n => .ok n
  | none => .error .delayUnreadable

def session (d : Desk) : Session where
  challenge := some d.index
  rules := some d.machine.rules
  cells := some d.machine.tape.cells
  head := some d.machine.head

def withPacer (d : Desk) (p : Pacer × Agenda Alarm) : Desk :=
  { d with pacer := p.1, agenda := p.2 }

def withMachine (d : Desk) (m : Machine) : Desk := { d with machine := m }

def stopRun (d : Desk) : Desk := d.withPacer (d.pacer.reset d.agenda)

def scheduleSave (d : Desk) : Desk :=
  match d.keeper with
  | none => d
  | some k =>
    let (k, a) := k.schedule .keeper d.loop d.session d.agenda
    { d with keeper := some k, agenda := a }

def withWork (d : Desk) (w : KeeperWork Alarm) : Desk × Option Fault :=
  ({ d with keeper := some w.keeper, agenda := w.agenda, disk := w.disk }.logAll w.logs,
    w.fault.map .save)

def loadSaved (d : Desk) : Desk × Option Session :=
  match d.keeper with
  | none => (d, none)
  | some k =>
    let (session, logs) := k.load d.disk
    (d.logAll logs, session)

def flush (d : Desk) : Desk × Option Fault :=
  match d.keeper with
  | none => (d, none)
  | some k => d.withWork (k.flush d.agenda d.disk)

def answerKeeper (alarm : KeeperAlarm) (d : Desk) : Desk :=
  match d.keeper with
  | none => d
  | some k => (d.withWork (k.answer .keeper alarm d.agenda d.disk)).1

def clearSave (d : Desk) : Desk × Option Fault :=
  match d.keeper with
  | none => (d, none)
  | some k => d.withWork (k.clear d.agenda d.disk)

def setUp (m : Machine) (c : Challenge) : Machine :=
  { m.load c.cells c.head with rules := ⟨c.rules⟩ }

def stepLog (before after : Machine) : List Log :=
  match after.active with
  | some rule => [.stepped after.steps rule]
  | none =>
    if before.halted || before.state == haltState then []
    else [.missed after.steps after.message]

def judge (d : Desk) : Except Fault Desk :=
  match d.machine.active with
  | none => .ok d
  | some rule =>
    if rule.next ≠ haltState then .ok d
    else do
      let c ← d.challenge
      match verify d.machine.tape.cells c with
      | none => return d
      | some v =>
        return (d.withMachine { d.machine with won := v.won, message := v.message }).log
          (.judged c.name v.won)

/-- One step of the machine, judged if it halts. The session is to be saved if a rule was
applied. -/
def advance (d : Desk) : Outcome Bool :=
  match d.machine.step with
  | (m, .error e) => .failed (d.withMachine m) (.tape e)
  | (m, .ok more) =>
    let d := (d.withMachine m).logAll (stepLog d.machine m)
    match d.judge with
    | .error f => .failed d f
    | .ok d => .changed d more (if m.active.isSome then .kept else .passing)

/-- A step by hand, refused while a run is going and after a halt. -/
def step (d : Desk) : Outcome Bool :=
  if d.running || d.machine.halted then .refused d false else d.advance

def run (d : Desk) : Outcome Bool :=
  if d.machine.halted then .refused d false
  else match d.pacer.start? .tick d.machine.halted d.agenda with
    | none => .refused d false
    | some p =>
      if !d.loop then .failed d .noLoop
      else
        .changed ((d.withPacer p).log (.runStarted (secondsOf d.pacer.delay).fixed3)) true .passing

def pause (d : Desk) : Outcome Unit :=
  if d.running then
    .changed ((d.withPacer (d.pacer.pause d.agenda)).log .runPaused) () .passing
  else .refused d ()

def setSpeed (d : Desk) (milliseconds : Int) : Outcome Unit :=
  let delay := max milliseconds 0
  if (secondsOf delay).isInfinite then .failed d .delayTooLong
  else .changed { d with pacer := { d.pacer with delay := delay } } () .passing

def undo (d : Desk) : Outcome Bool :=
  if d.running then .refused d false
  else
    let d := d.stopRun
    match d.machine.undo? with
    | none => .refused d false
    | some m => .changed ((d.withMachine m).log (.undone m.steps)) true .kept

def reset (d : Desk) : Outcome Unit :=
  let d := d.stopRun
  match d.challenge with
  | .error f => .failed d f
  | .ok c =>
    match (d.withMachine (d.machine.load c.cells c.head)).clearSave with
    | (d, some f) => .failed d f
    | (d, none) => .changed (d.log (.reset c.name)) () .kept

def loadChallenge (d : Desk) (index : Int) : Outcome Unit :=
  if 0 ≤ index ∧ index < d.catalog.challenges.length then
    let d := { d.stopRun with index := index }
    match d.challenge with
    | .error f => .failed d f
    | .ok c => .changed ((d.withMachine (setUp d.machine c)).log (.loaded c.name)) () .kept
  else .failed d (.noSuchChallenge index)

def loadTape (d : Desk) (cells : List Symbol) (head : Int) : Outcome Unit :=
  let d := d.stopRun
  .changed (d.withMachine (d.machine.load cells head)) () .kept

def overlay (m : Machine) (s : Session) : Machine :=
  let m := match s.rules with
    | some t => { m with rules := t }
    | none => m
  let m := match s.cells with
    | some cells => { m with tape := .ofCells cells }
    | none => m
  let head := s.head.getD m.head
  { m with head := min head (m.tape.size - 1), message := "Previous session restored." }

/-- Goes to a saved session: to its challenge, if it names one, and then to its other parts. -/
def restore (d : Desk) (s : Session) : Outcome Unit :=
  let d := d.stopRun
  let prepared : Except Fault Machine × Desk := match s.challenge with
    | none => (.ok d.machine, d)
    | some index =>
      let d := { d with index := index }
      (d.challenge.map (setUp d.machine), d)
  match prepared with
  | (.error f, d) => .failed d f
  | (.ok m, d) =>
    let d := d.withMachine (overlay m s)
    match d.challenge with
    | .error f => .failed d f
    | .ok c => .changed (d.log (.restored c.name)) () .passing

def useRules (d : Desk) (t : RuleTable) : Outcome Unit :=
  .changed (d.withMachine { d.machine with rules := t }) () .kept

def addRule (d : Desk) : Outcome Nat :=
  .changed (d.withMachine { d.machine with rules := d.machine.rules.add .default })
    d.machine.rules.size .kept

def updateRule (d : Desk) (index : Int) (field value : String) : Outcome Bool :=
  match d.machine.rules.update index field value with
  | .error e => .failed d (.table e)
  | .ok none => .refused d false
  | .ok (some t) => .changed (d.withMachine { d.machine with rules := t }) true .kept

def deleteRule (d : Desk) (index : Int) : Outcome Bool :=
  match d.machine.rules.delete? index with
  | none => .refused d false
  | some t => .changed (d.withMachine { d.machine with rules := t }) true .kept

def editCell (d : Desk) (index : Int) (value : String) : Outcome Bool :=
  match d.machine.tape.setCell? index value with
  | none => .refused d false
  | some t => .changed (d.withMachine { d.machine with tape := t }) true .kept

def addCell (d : Desk) : Outcome Unit :=
  .changed (d.withMachine { d.machine with tape := d.machine.tape.append }) () .kept

def removeCell (d : Desk) : Outcome Bool :=
  match d.machine.tape.dropLast? with
  | none => .refused d false
  | some t =>
    .changed (d.withMachine { d.machine with tape := t, head := min d.machine.head (t.size - 1) })
      true .kept

end Desk

end TapeLab
