import TapeLab.RuleTable

/-!
What a rule table looks like as a graph: its states, its edges with their rules, its symbols, and
the groups of rules that share a state and a symbol.
-/

namespace TapeLab

def distinct {α : Type} [DecidableEq α] : List α → List α
  | [] => []
  | a :: l => a :: (distinct l).filter (· ≠ a)

def insertName (name : String) : List String → List String
  | [] => [name]
  | n :: l =>
    if name < n then name :: n :: l
    else if name = n then n :: l
    else n :: insertName name l

def sortNames (names : List String) : List String := names.foldr insertName []

namespace RuleTable

def stateNames (t : RuleTable) : List String := t.rules.flatMap fun r => [r.state, r.next]

/-- All states: the initial one first, the halting one last, the others in increasing order. -/
def states (t : RuleTable) : List String :=
  let names := t.stateNames
  let others := sortNames (names.filter fun n => n ≠ initialState ∧ n ≠ haltState)
  (if initialState ∈ names then [initialState] else []) ++ others ++
    (if haltState ∈ names then [haltState] else [])

def edges (t : RuleTable) : List ((String × String) × List Rule) :=
  (distinct (t.rules.map fun r => (r.state, r.next))).map fun e =>
    (e, t.rules.filter fun r => (r.state, r.next) = e)

/-- All symbols: those of the given cells, those of the rules, and the blank, in the order of their
first appearance. -/
def symbols (t : RuleTable) (cells : List Symbol) : List Symbol :=
  distinct (cells ++ t.rules.flatMap (fun r => [r.read, r.write]) ++ [blank])

def indicesOf (t : RuleTable) (key : String × Symbol) : List Nat :=
  (t.rules.zipIdx.filter fun p => (p.1.state, p.1.read) = key).map Prod.snd

/-- The states and symbols with more than one rule, in the order of their first rules, each with the
indices of its rules. -/
def conflicts (t : RuleTable) : List ((String × Symbol) × List Nat) :=
  ((distinct (t.rules.map fun r => (r.state, r.read))).map fun k => (k, t.indicesOf k)).filter
    fun p => 1 < p.2.length

/-- The indices of the rules that never count, since an earlier rule shares state and symbol. -/
def shadowed (t : RuleTable) : List Nat := t.conflicts.flatMap fun p => p.2.tail

end RuleTable

end TapeLab
