import TapeLab.CommandLine.Arguments
import TapeLab.CommandLine.WholeNumber
import TapeLab.Disk.Path

/-!
What a command line asks for. The options of the program stand before the name of a command, those
of the command behind it.
-/

namespace TapeLab.CommandLine

inductive Refusal
  | help
  | usage
  deriving DecidableEq, Repr

inductive CommandName
  | challenges
  | rules
  | run
  | play
  deriving DecidableEq, Repr

def CommandName.ofText? : String → Option CommandName
  | "challenges" => some .challenges
  | "rules" => some .rules
  | "run" => some .run
  | "play" => some .play
  | _ => none

def readPath (text : String) : Except Refusal Path :=
  let path := Path.ofText text
  if path.hasNull then .error .usage else .ok path

def pathValue? {κ : Type} [DecidableEq κ] (s : Arguments κ) (key : κ) :
    Except Refusal (Option Path) :=
  match s.value? key with
  | none => .ok none
  | some text => (readPath text).map some

inductive GlobalOption
  | config
  | verbose
  | help
  deriving DecidableEq, Repr

def GlobalOption.knobs : List (Knob GlobalOption) :=
  [⟨.config, "config", none, true⟩, ⟨.verbose, "verbose", some 'v', false⟩,
    ⟨.help, "help", none, false⟩]

structure Invocation where
  config : Option Path
  verbose : Bool
  command : CommandName
  args : List String
  deriving DecidableEq, Repr

namespace Invocation

def unknown (args : List String) : Refusal :=
  match Arguments.read? GlobalOption.knobs false args with
  | some s => if s.has .help then .help else .usage
  | none => .usage

def ofArgs (args : List String) : Except Refusal Invocation :=
  match Arguments.read? GlobalOption.knobs false args with
  | none => .error .usage
  | some s =>
    if s.has .help then .error .help
    else match s.others with
      | [] => .error .usage
      | name :: rest =>
        match CommandName.ofText? name with
        | none => .error (unknown (name :: rest))
        | some command =>
          (pathValue? s .config).map fun config => ⟨config, s.has .verbose, command, rest⟩

end Invocation

inductive RunOption
  | challenge
  | rules
  | tape
  | head
  | speed
  | maxSteps
  | trace
  | quiet
  | help
  deriving DecidableEq, Repr

def RunOption.knobs : List (Knob RunOption) :=
  [⟨.challenge, "challenge", some 'c', true⟩, ⟨.rules, "rules", some 'r', true⟩,
    ⟨.tape, "tape", some 't', true⟩, ⟨.head, "head", none, true⟩,
    ⟨.speed, "speed", some 's', true⟩, ⟨.maxSteps, "max-steps", none, true⟩,
    ⟨.trace, "trace", none, false⟩, ⟨.quiet, "quiet", none, false⟩, ⟨.help, "help", none, false⟩]

/-- What a run without a reader is asked for. -/
structure RunRequest where
  challenge : Int
  rules : Option Path
  tape : Option String
  head : Option Int
  speed : Int
  maxSteps : Option Int
  trace : Bool
  deriving DecidableEq, Repr

def intValue? (s : Arguments RunOption) (key : RunOption) : Except Refusal (Option Int) :=
  match s.value? key with
  | none => .ok none
  | some text =>
    match readWhole? text with
    | some n => .ok (some n)
    | none => .error .usage

def traced (s : Arguments RunOption) : Bool :=
  match s.options.reverse.find? fun g => g.key = .trace ∨ g.key = .quiet with
  | some g => g.key = .trace
  | none => true

def RunRequest.ofArguments (s : Arguments RunOption) : Except Refusal RunRequest := do
  let challenge ← intValue? s .challenge
  let rules ← pathValue? s .rules
  let head ← intValue? s .head
  let speed ← intValue? s .speed
  let maxSteps ← intValue? s .maxSteps
  return {
    challenge := challenge.getD 0
    rules := rules
    tape := s.value? .tape
    head := head
    speed := speed.getD 0
    maxSteps := maxSteps
    trace := traced s }

inductive PlayOption
  | fresh
  | help
  deriving DecidableEq, Repr

def PlayOption.knobs : List (Knob PlayOption) :=
  [⟨.fresh, "fresh", none, false⟩, ⟨.help, "help", none, false⟩]

def helpKnob : Knob Unit := ⟨(), "help", none, false⟩

inductive Request
  | challenges
  | rules (path : Path)
  | run (r : RunRequest)
  | play (fresh : Bool)
  deriving DecidableEq, Repr

namespace Request

def read {κ : Type} [DecidableEq κ] (knobs : List (Knob κ)) (help : κ) (args : List String) :
    Except Refusal (Arguments κ) :=
  match Arguments.read? knobs true args with
  | none => .error .usage
  | some s => if s.has help then .error .help else .ok s

def ofArgs (command : CommandName) (args : List String) : Except Refusal Request :=
  match command with
  | .challenges => do
    match (← read [helpKnob] () args).others with
    | [] => return challenges
    | _ => throw .usage
  | .rules => do
    match (← read [helpKnob] () args).others with
    | [path] => return rules (← readPath path)
    | _ => throw .usage
  | .run => do
    let s ← read RunOption.knobs .help args
    match s.others with
    | [] => return run (← RunRequest.ofArguments s)
    | _ => throw .usage
  | .play => do
    let s ← read PlayOption.knobs .help args
    match s.others with
    | [] => return play (s.has .fresh)
    | _ => throw .usage

end Request

end TapeLab.CommandLine
