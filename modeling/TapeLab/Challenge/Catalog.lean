import TapeLab.Challenge

/-!
Catalogs of challenges, and the one that comes with the program.
-/

namespace TapeLab

/-- Challenges in their order. `builtIn` tells the program's own catalog from one made for the
occasion, for error messages. -/
structure Catalog where
  challenges : List Challenge
  builtIn : Bool
  deriving DecidableEq, Repr

def inverterRules : List Rule :=
  [⟨initialState, "0", "1", .right, initialState⟩,
    ⟨initialState, "1", "0", .right, initialState⟩,
    ⟨initialState, blank, blank, .stay, haltState⟩]

def Catalog.standard : Catalog where
  builtIn := true
  challenges :=
    [ { name := "Binary Inverter"
        description := "Flip all 0s to 1s and 1s to 0s, then halt."
        cells := ["1", "0", "1", "1", "0", "0", "1"]
        head := 0
        expected := some ["0", "1", "0", "0", "1", "1", "0"]
        hints := "Use one state to scan right, flipping bits. Halt on blank."
        rules := inverterRules },
      { name := "Move & Mark"
        description := "Replace all blanks with 'X' for 5 cells, then halt."
        cells := [blank, blank, blank, blank, blank]
        head := 0
        expected := some ["X", "X", "X", "X", "X"]
        hints := "Write X and move right. Count using states or halt on a boundary."
        rules := [] },
      { name := "Unary Increment"
        description := "Add one '1' to the end of a unary number (string of 1s)."
        cells := ["1", "1", "1", blank, blank]
        head := 0
        expected := some ["1", "1", "1", "1"]
        hints := "Scan right past all 1s, write a 1 on the first blank, then halt."
        rules := [] },
      { name := "Palindrome"
        description := "Mark tape with 'Y' if '1001' is a palindrome, 'N' if not. (It is!)"
        cells := ["1", "0", "0", "1", blank, blank]
        head := 0
        expected := some ["Y"]
        hints := "Compare first & last symbols, mark checked cells. Advanced!"
        rules := [] },
      { name := "Sandbox"
        description := "Free mode, set up your own tape and rules!"
        cells := List.replicate 8 blank
        head := 0
        expected := none
        hints := "Experiment freely. No win condition."
        rules := [] } ]

end TapeLab
