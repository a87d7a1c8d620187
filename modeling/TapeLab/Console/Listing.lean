import TapeLab.Challenge.Catalog
import TapeLab.Console.Output
import TapeLab.RuleTable.Graph
import TapeLab.Text.Markup

/-!
Rule tables and catalogs as they are shown: as tables, as a graph, and as warnings.
-/

namespace TapeLab

namespace RuleTable

def listingColumns : List String := ["#", "state", "read", "write", "move", "next state"]

/-- The row of a rule. The active rule stands out, and rules that never count are dim. -/
def listingRow (shadowed : List Nat) (active : Option Nat) (i : Nat) (r : Rule) : Row where
  style :=
    if active = some i then some "attention" else if i ∈ shadowed then some "info" else none
  cells := [toString i, Text.escape r.state, Text.escape (label r.read),
    Text.escape (label r.write), r.move.name, Text.escape r.next]

def listing (t : RuleTable) (active : Option Nat) : Table :=
  let shadowed := t.shadowed
  ⟨listingColumns, t.rules.zipIdx.map fun p => listingRow shadowed active p.2 p.1⟩

def edgeLabel (r : Rule) : String := s!"{label r.read}→{label r.write},{r.move.name}"

def edgeLine (e : (String × String) × List Rule) : String :=
  let labels := " | ".intercalate (e.2.map edgeLabel)
  s!"  {Text.escape e.1.1} → {Text.escape e.1.2}: {Text.escape labels}"

def statesLine (t : RuleTable) : String :=
  let names := ", ".intercalate (t.states.map Text.escape)
  "[heading]States:[/] " ++ if names = "" then "none" else names

def graph (t : RuleTable) : String :=
  "\n".intercalate (t.statesLine :: t.edges.map edgeLine)

def symbolsLine (t : RuleTable) (cells : List Symbol) : String :=
  "[heading]Symbols:[/] " ++ Text.escape (" ".intercalate ((t.symbols cells).map label))

def conflictLine (c : (String × Symbol) × List Nat) : String :=
  let indices := ", ".intercalate (c.2.map toString)
  s!"[warning]Rules {indices} share state '{Text.escape c.1.1}' and symbol " ++
    s!"'{Text.escape (label c.1.2)}', only rule {c.2.headD 0} is used."

def conflictLines (t : RuleTable) : List Output := t.conflicts.map fun c => .line (conflictLine c)

end RuleTable

def Catalog.listing (c : Catalog) : Table where
  columns := ["#", "Name", "Goal", "Hint"]
  rows := c.challenges.zipIdx.map fun p =>
    ⟨none, [toString p.2, p.1.name, p.1.description, p.1.hints]⟩

end TapeLab
