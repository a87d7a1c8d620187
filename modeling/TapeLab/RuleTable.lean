import TapeLab.Rule

/-!
Rule tables. Of the rules that match a state and a symbol the first one counts. Edits that make no
sense are refused and leave the table as it is.
-/

namespace TapeLab

structure RuleTable where
  rules : List Rule
  deriving DecidableEq, Repr

inductive RuleField
  | state
  | read
  | write
  | move
  | next
  deriving DecidableEq, Repr

def RuleField.ofName? : String → Option RuleField
  | "state" => some .state
  | "read" => some .read
  | "write" => some .write
  | "move" => some .move
  | "next_state" => some .next
  | _ => none

inductive TableError
  | unknownField (name : String)
  | noRule (index : Int)
  deriving DecidableEq, Repr

def TableError.message : TableError → String
  | .unknownField name => s!"Rules have no field '{name}'"
  | .noRule _ => "list index out of range"

/-- The position that an index stands for in a list of `size` entries: a negative index counts from
the end. -/
def position? (size : Nat) (index : Int) : Option Nat :=
  if 0 ≤ index ∧ index < size then some index.toNat
  else if index < 0 ∧ -(size : Int) ≤ index then some (index + size).toNat
  else none

namespace Rule

/-- The rule with one field replaced by a typed value, unless the value does not fit the field. -/
def edit? (r : Rule) (field : RuleField) (value : String) : Option Rule :=
  match field with
  | .state => let name := clipState value; if name = "" then none else some { r with state := name }
  | .next => let name := clipState value; if name = "" then none else some { r with next := name }
  | .read => (readSymbol? value).map fun s => { r with read := s }
  | .write => (readSymbol? value).map fun s => { r with write := s }
  | .move => (Move.read? value).map fun m => { r with move := m }

end Rule

namespace RuleTable

def size (t : RuleTable) : Nat := t.rules.length

def lookup (t : RuleTable) (state : String) (symbol : Symbol) : Option Rule :=
  t.rules.find? fun r => r.state == state && r.read == symbol

def get (t : RuleTable) (index : Int) : Except TableError Rule :=
  match (position? t.size index).bind (t.rules[·]?) with
  | some r => .ok r
  | none => .error (.noRule index)

def add (t : RuleTable) (r : Rule) : RuleTable := ⟨t.rules ++ [r]⟩

def hasIndex (t : RuleTable) (index : Int) : Bool := 0 ≤ index && index < t.size

/-- Edits one field of a rule. `none` tells that the edit is refused: there is no such rule, or the
value does not fit the field. The name of the field is looked at only if there is such a rule. -/
def update (t : RuleTable) (index : Int) (field value : String) :
    Except TableError (Option RuleTable) :=
  if !t.hasIndex index then .ok none
  else match RuleField.ofName? field with
    | none => .error (.unknownField field)
    | some f => .ok <| do
      let r ← t.rules[index.toNat]?
      let r ← r.edit? f value
      return ⟨t.rules.set index.toNat r⟩

def delete? (t : RuleTable) (index : Int) : Option RuleTable :=
  if t.hasIndex index then some ⟨t.rules.eraseIdx index.toNat⟩ else none

end RuleTable

end TapeLab
