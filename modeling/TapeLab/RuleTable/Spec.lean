import TapeLab.RuleTable

/-!
Rule tables as text: one rule a line, five words each. Lines that are empty or begin with `#` or `/`
hold no rule.
-/

namespace TapeLab

structure SpecError where
  line : Nat
  cause : RuleError
  deriving DecidableEq, Repr

def SpecError.message (e : SpecError) : String := s!"Line {e.line}: {e.cause.message}"

namespace RuleTable

def isRemark : List Char → Bool
  | [] => true
  | c :: _ => c == '#' || c == '/'

def parseLines : Nat → List (List Char) → Except SpecError (List Rule)
  | _, [] => .ok []
  | number, line :: rest =>
    let line := Text.strip line
    if isRemark line then parseLines (number + 1) rest
    else match Rule.parse (String.ofList line) with
      | .error cause => .error ⟨number, cause⟩
      | .ok r => (parseLines (number + 1) rest).map (r :: ·)

/-- The table that a text describes, or the first line that is no rule. -/
def parse (text : String) : Except SpecError RuleTable :=
  (parseLines 1 (Text.lines text.toList)).map RuleTable.mk

def specLine (r : Rule) : String :=
  s!"{r.state} {label r.read} {label r.write} {r.move.name} {r.next}\n"

def spec (t : RuleTable) : String := String.join (t.rules.map specLine)

end RuleTable

end TapeLab
