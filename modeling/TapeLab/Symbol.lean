/-!
Tape symbols. A cell holds one character; the blank is the white square, written `blank` where a
reader types or sees it.
-/

namespace TapeLab

abbrev Symbol := String

def blank : Symbol := "⬜"

def label (s : Symbol) : String := if s = blank then "blank" else s

def written (cells : List Symbol) : List Symbol := cells.filter (· ≠ blank)

/-- The symbol that a typed text stands for: nothing, the name and the square are the blank, and any
other single character is itself. -/
def readSymbol? (text : String) : Option Symbol :=
  if text = "" ∨ text = "blank" ∨ text = blank then some blank
  else if text.length = 1 then some text
  else none

theorem length_of_readSymbol? {text : String} {s : Symbol} (h : readSymbol? text = some s) :
    s.length = 1 := by
  unfold readSymbol? at h
  split at h
  · obtain rfl := Option.some.inj h
    rfl
  · split at h
    · next hl => obtain rfl := Option.some.inj h; exact hl
    · cases h

end TapeLab
