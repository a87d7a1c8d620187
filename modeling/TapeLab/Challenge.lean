import TapeLab.Rule

/-!
Challenges: a tape to start on and, unless the challenge is a sandbox, the symbols that are expected
in the end. `verify` judges a tape on which a machine has halted.
-/

namespace TapeLab

structure Challenge where
  name : String
  description : String
  cells : List Symbol
  head : Int
  expected : Option (List Symbol)
  hints : String
  rules : List Rule
  deriving DecidableEq, Repr

def Challenge.sandbox (c : Challenge) : Bool := c.expected.isNone

structure Verdict where
  won : Bool
  message : String
  deriving DecidableEq, Repr

def showSymbols (cells : List Symbol) : String := "[" ++ ",".intercalate cells ++ "]"

/-- Compares what is written on a tape with what is expected. A sandbox is never judged. -/
def verify (cells : List Symbol) (c : Challenge) : Option Verdict :=
  c.expected.map fun expected =>
    if written cells = written expected then
      ⟨true, "CORRECT! Machine produced the expected output!"⟩
    else
      ⟨false, s!"Halted. Got: {showSymbols (written cells)} " ++
        s!"Expected: {showSymbols (written expected)}"⟩

end TapeLab
