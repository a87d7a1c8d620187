import TapeLab.Symbol
import TapeLab.Text.Markup

/-!
Snapshots: what a machine looks like at one moment, and how that is shown in a line.
-/

namespace TapeLab

structure Snapshot where
  cells : List Symbol
  head : Int
  state : String
  steps : Int
  deriving DecidableEq, Repr

namespace Snapshot

def read (s : Snapshot) : Symbol :=
  if 0 ≤ s.head then s.cells.getD s.head.toNat blank else blank

def describe (s : Snapshot) : String :=
  s!"#{s.steps}: state={s.state}, head={s.head}, read={label s.read}"

def cellMarkup (c : Symbol) : String :=
  if c = blank then "[grey58]_[/]" else Text.escape c

/-- The tape in markup, with the head's cell in reverse, and the state in brackets behind it. -/
def markup (s : Snapshot) : String :=
  let cells := s.cells.zipIdx.map fun p =>
    if (p.2 : Int) = s.head then s!"[reverse]{cellMarkup p.1}[/]" else cellMarkup p.1
  String.join cells ++ s!"  [cyan]\\[{s.state}][/]"

def format? (s : Snapshot) (format : String) : Option String :=
  if format = "" then some s.describe
  else if format = ">" then some s.markup
  else none

end Snapshot

end TapeLab
