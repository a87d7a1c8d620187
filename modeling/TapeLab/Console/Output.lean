/-!
What the program gives to the console: lines of markup, and tables whose rows may have a style.
-/

namespace TapeLab

structure Row where
  style : Option String
  cells : List String
  deriving DecidableEq, Repr

structure Table where
  columns : List String
  rows : List Row
  deriving DecidableEq, Repr

inductive Output
  | line (markup : String)
  | table (t : Table)
  deriving DecidableEq, Repr

end TapeLab
