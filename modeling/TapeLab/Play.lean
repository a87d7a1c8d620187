import TapeLab.Command

/-!
Playing: lines are typed at a prompt and carried out as commands. The command `r` starts a run that
is watched, step by step, until it ends or Enter is pressed. However playing ends, what the keeper
still has to write is written.
-/

namespace TapeLab

/-- A line, and how many milliseconds it takes until it is typed, if it is not there at once. -/
structure TypedLine where
  delay : Option Rat
  text : String
  deriving DecidableEq, Repr

namespace Play

/-- What comes of waiting for a line: it is typed, or the input ends after some milliseconds. -/
inductive Reading
  | typed (line : TypedLine)
  | ended (delay : Rat)
  deriving DecidableEq, Repr

inductive Ending
  | quit
  | endOfInput
  | fault (cause : CommandError)
  deriving DecidableEq, Repr

inductive Stage
  | prompt
  | watching
  | over (ending : Ending)
  deriving DecidableEq, Repr

end Play

structure Play where
  bench : Workbench
  stage : Play.Stage

namespace Play

def pausedLine : String := "[info]Paused."

def finishedLine : String := "[info]The run has finished, press Enter to continue."

def enterDelay : Rat := 1000000

def tracerKey : String := "trace"

def tracer : Listener where
  key := tracerKey
  react d := if d.running && d.machine.active.isSome then [.print d.machine.traceLine] else []

def leave (e : Ending) (w : Workbench) : Play :=
  let (d, fault) := w.desk.flush
  ⟨{ w with desk := d }, .over ((fault.map fun f => .fault (.fault f)).getD e)⟩

def conclude (e : Ending) (r : Command.Result) : Play := leave ((r.2.map .fault).getD e) r.1

def proceed (r : Command.Result) : Play :=
  match r.2 with
  | none => ⟨r.1, .prompt⟩
  | some e => leave (.fault e) r.1

def start (w : Workbench) : Play :=
  let (w, fault) := (Command.printLine Command.help w).andThen fun w =>
    Command.showView w.desk.challengeView w
  ⟨w, (fault.map fun e => .over (.fault e)).getD .prompt⟩

def dropTracer (w : Workbench) : Workbench := { w with listeners := w.listeners.dropLast }

def unwatch (r : Command.Result) : Command.Result := (dropTracer r.1, r.2)

def watch (w : Workbench) : Play :=
  if w.desk.machine.halted then proceed (Command.printLine Command.haltedLine w)
  else match (w.subscribe tracer).perform .run with
    | (w, .error f) => leave (.fault (.fault f)) (dropTracer w)
    | (w, .ok _) => ⟨w, .watching⟩

/-- Enter has been pressed while the run is going on: it is paused. This is noticed two turns later,
and the end of the run three turns after that. -/
def interrupt (patience : Nat) (w : Workbench) : Command.Result :=
  match (Workbench.clockwork.passTurns patience 2 w).perform .pause with
  | (w, .error f) => (w, some (.fault f))
  | (w, .ok _) => (Command.printLine pausedLine w).andThen fun w =>
    (Workbench.clockwork.passTurns patience 3 w, none)

def outlast (patience enter : Nat) (w : Workbench) : Command.Result :=
  let c := Workbench.clockwork
  (Command.printLine finishedLine (c.passTurns patience 4 w)).andThen fun w =>
    (if c.hasRung enter w then w else c.passTurns patience 1 (c.awaitBell patience enter w), none)

def awaitEnter (patience : Nat) (delay : Rat) (w : Workbench) : Command.Result :=
  let (w, enter) := Workbench.clockwork.setBell (.finite delay) 0 w
  match w.desk.pacer.current with
  | none => outlast patience enter w
  | some run =>
    match Workbench.clockwork.awaitEnding patience run (some enter) w with
    | (w, none) => interrupt patience w
    | (w, some _) => outlast patience enter w

/-- The run until Enter is pressed. Where the input ends, or Enter is there at once, it is paused at
the first opportunity. -/
def runUntilEnter (patience : Nat) (enter : Option TypedLine) (w : Workbench) : Command.Result :=
  match enter with
  | none => interrupt patience w
  | some line =>
    let delay := line.delay.getD enterDelay
    if 0 < delay then awaitEnter patience delay w else interrupt patience w

def finishes (patience : Nat) (delay : Rat) (w : Workbench) : Bool :=
  let (w, enter) := Workbench.clockwork.setBell (.finite delay) 0 w
  match w.desk.pacer.current with
  | none => true
  | some run => (Workbench.clockwork.awaitEnding patience run (some enter) w).2.isSome

def await (patience : Nat) (line : TypedLine) (w : Workbench) : Workbench :=
  match line.delay with
  | none => w
  | some delay => if 0 < delay then Workbench.clockwork.sleep patience delay w else w

def command (line : String) (w : Workbench) : Play :=
  match Command.split line with
  | ("q", _) => leave .quit w
  | ("r", _) => watch w
  | (word, args) => proceed (Command.handle word args w)

def read (patience : Nat) (line : Option TypedLine) (p : Play) : Play :=
  match p.stage, line with
  | .over _, _ => p
  | .prompt, none => leave .endOfInput p.bench
  | .prompt, some line => command line.text (await patience line p.bench)
  | .watching, enter =>
    proceed ((unwatch (runUntilEnter patience enter p.bench)).andThen Command.showMachine)

/-- The input ends while a run is watched, after a delay. A run that is still going on then is only
paused; after a run that has ended, Enter is waited for in vain. -/
def endWatched (patience : Nat) (delay : Rat) (w : Workbench) : Play :=
  let r := unwatch (awaitEnter patience delay w)
  if finishes patience delay w then conclude .endOfInput r
  else proceed (r.andThen Command.showMachine)

def receive (patience : Nat) (reading : Reading) (p : Play) : Play :=
  match p.stage, reading with
  | .over _, _ => p
  | _, .typed line => p.read patience (some line)
  | .prompt, .ended delay => leave .endOfInput (await patience ⟨some delay, ""⟩ p.bench)
  | .watching, .ended delay =>
    if 0 < delay then endWatched patience delay p.bench else p.read patience none

def watchUntil (patience : Nat) (reading : Reading) (w : Workbench) : Play :=
  let p := watch w
  match p.stage with
  | .watching => p.receive patience reading
  | _ => p

/-- Takes the end of the input, first in a run that may be going on and then at the prompt. -/
def close (patience : Nat) (p : Play) : Play := (p.read patience none).read patience none

def readAll (patience : Nat) (lines : List TypedLine) (p : Play) : Play :=
  (lines.foldl (fun p line => p.read patience (some line)) p).close patience

def ending (p : Play) : Ending :=
  match p.stage with
  | .over e => e
  | _ => .endOfInput

end Play

end TapeLab
