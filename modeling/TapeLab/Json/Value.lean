/-!
JSON values. Numbers with a fraction or an exponent, and the three that are no numbers, keep their
written form. The fields of an object keep their order and repetitions; of a repeated field the last
one counts.
-/

namespace TapeLab

inductive Json
  | null
  | bool (b : Bool)
  | int (n : Int)
  | real (text : String)
  | text (s : String)
  | list (items : List Json)
  | record (fields : List (String × Json))
  deriving Repr, Inhabited

namespace Json

def lookup (key : String) : List (String × Json) → Option Json
  | [] => none
  | (k, v) :: fields => (lookup key fields).or (if k = key then some v else none)

def field? (key : String) : Json → Option Json
  | record fields => lookup key fields
  | _ => none

/-- Numbers without fraction and exponent; `true` and `false` count as one and zero. -/
def int? : Json → Option Int
  | int n => some n
  | bool b => some (if b then 1 else 0)
  | _ => none

def number? : Json → Option Int
  | int n => some n
  | _ => none

def text? : Json → Option String
  | text s => some s
  | _ => none

def list? : Json → Option (List Json)
  | list items => some items
  | _ => none

def isRecord : Json → Bool
  | record _ => true
  | _ => false

end Json

end TapeLab
