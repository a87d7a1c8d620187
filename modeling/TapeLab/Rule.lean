import TapeLab.Symbol
import TapeLab.Move

/-!
Transition rules. In a state and on a symbol, a rule writes a symbol, moves the head and goes to a
state. `Rule.parse` reads the five words of a typed rule.
-/

namespace TapeLab

def initialState : String := "q0"

def haltState : String := "HALT"

def maxStateLength : Nat := 10

/-- A state name without the white space around it, cut to `maxStateLength`. -/
def clipState (name : String) : String :=
  String.ofList ((Text.strip name.toList).take maxStateLength)

structure Rule where
  state : String
  read : Symbol
  write : Symbol
  move : Move
  next : String
  deriving DecidableEq, Repr

inductive RuleError
  | notOneCharacter (text : String)
  | unknownMove (text : String)
  | tooFewWords (line : String)
  | malformed
  deriving DecidableEq, Repr

def RuleError.message : RuleError → String
  | .notOneCharacter text => s!"Symbol '{text}' is not a single character"
  | .unknownMove text => s!"Unknown move '{text}', expected L, N or R"
  | .tooFewWords line => s!"Expected 'state read write move next_state', got '{line}'"
  | .malformed => "Malformed rule"

def readSymbol (text : String) : Except RuleError Symbol :=
  match readSymbol? text with
  | some s => .ok s
  | none => .error (.notOneCharacter text)

def readMove (text : String) : Except RuleError Move :=
  match Move.read? text with
  | some m => .ok m
  | none => .error (.unknownMove text)

namespace Rule

def default : Rule := ⟨initialState, blank, blank, .right, initialState⟩

def describe (r : Rule) : String :=
  s!"({r.state}, {label r.read}) → write {label r.write}, move {r.move.verb}, goto {r.next}"

/-- A rule from the texts of its fields; of several faults the first in the order read, write, move
is told. -/
def ofTexts (state read write move next : String) : Except RuleError Rule := do
  let read ← readSymbol read
  let write ← readSymbol write
  let move ← readMove move
  return ⟨state, read, write, move, next⟩

/-- The rule that a line of at least five words stands for. Further words are ignored. -/
def parse (line : String) : Except RuleError Rule :=
  match Text.words line.toList with
  | state :: read :: write :: move :: next :: _ =>
    ofTexts (String.ofList state) (String.ofList read) (String.ofList write) (String.ofList move)
      (String.ofList next)
  | _ => .error (.tooFewWords line)

end Rule

end TapeLab
