import TapeLab.Decimal.Binary64
import TapeLab.Text.Numeral

/-!
TOML values. Of dates and times only the kind is kept. A table keeps its keys in the order in which
they appear.
-/

namespace TapeLab

inductive Toml
  | text (s : String)
  | int (n : Int)
  | real (x : Binary64)
  | bool (b : Bool)
  | date
  | time
  | dateTime
  | list (items : List Toml)
  | table (entries : List (String × Toml))
  deriving Repr, Inhabited

inductive TomlError
  | malformed
  | numeral (cause : Text.NumeralError)
  deriving DecidableEq, Repr

namespace Toml

abbrev Entries := List (String × Toml)

def lookup (key : String) (t : Entries) : Option Toml :=
  (t.find? fun e => e.1 == key).map Prod.snd

def replace (key : String) (v : Toml) (t : Entries) : Entries :=
  t.map fun e => if e.1 = key then (key, v) else e

/-- Changes the table that a path leads to, making tables where the path meets nothing. If `lists`
holds, the path goes through the last item of a list. `none` if something else is in the way. -/
def atPath (lists : Bool) (f : Entries → Option Entries) : List String → Entries → Option Entries
  | [], t => f t
  | key :: path, t =>
    match lookup key t with
    | none => do
      let inner ← atPath lists f path []
      return t ++ [(key, .table inner)]
    | some (.table inner) => do
      let inner ← atPath lists f path inner
      return replace key (.table inner) t
    | some (.list items) =>
      match lists, items.getLast? with
      | true, some (.table inner) => do
        let inner ← atPath lists f path inner
        return replace key (.list (items.dropLast ++ [.table inner])) t
      | _, _ => none
    | some _ => none

def insert (key : String) (v : Toml) (t : Entries) : Option Entries :=
  if (lookup key t).isSome then none else some (t ++ [(key, v)])

def appendTable (key : String) (t : Entries) : Option Entries :=
  match lookup key t with
  | none => some (t ++ [(key, .list [.table []])])
  | some (.list items) => some (replace key (.list (items ++ [.table []])) t)
  | some _ => none

def isNest : Toml → Bool
  | table _ | list _ => true
  | _ => false

end Toml

end TapeLab
