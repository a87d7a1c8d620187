import TapeLab.Text.Blank

/-!
Head moves: one cell to the left, none, or one cell to the right.
-/

namespace TapeLab

inductive Move
  | left
  | stay
  | right
  deriving DecidableEq, Repr

namespace Move

def name : Move → String
  | left => "L"
  | stay => "N"
  | right => "R"

def verb : Move → String
  | left => "left"
  | stay => "stay"
  | right => "right"

def offset : Move → Int
  | left => -1
  | stay => 0
  | right => 1

/-- The move that a typed text stands for: its letter in either case, with white space around. -/
def read? (text : String) : Option Move :=
  match Text.strip text.toList with
  | ['L'] | ['l'] => some left
  | ['N'] | ['n'] => some stay
  | ['R'] | ['r'] => some right
  | _ => none

theorem read?_name (m : Move) : read? m.name = some m := by
  cases m <;> rfl

end Move

end TapeLab
