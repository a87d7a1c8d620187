import TapeLab.Decimal.Shortest
import TapeLab.Text.Numeral

/-!
Reading decimal numbers into floating point, each as the number nearest to it. White space may stand
around, single underscores between digits, and digits may be of any script.
-/

namespace TapeLab.Binary64

/-- Digits with single underscores between them at the start of a text: their value, their count,
and what follows. An underscore that is not between digits is left over. -/
def readRun (value count : Nat) : List Char → Nat × Nat × List Char
  | [] => (value, count, [])
  | '_' :: c :: s =>
    match Text.decimalValue? c with
    | some d =>
      if count = 0 then (value, count, '_' :: c :: s) else readRun (10 * value + d) (count + 1) s
    | none => (value, count, '_' :: c :: s)
  | c :: s =>
    match Text.decimalValue? c with
    | some d => readRun (10 * value + d) (count + 1) s
    | none => (value, count, c :: s)

def readExponent : List Char → Option (Int × List Char)
  | c :: s =>
    if c = 'e' ∨ c = 'E' then
      let (negative, s) := Text.readSign s
      let (value, count, s) := readRun 0 0 s
      if count = 0 then none else some (if negative then -(value : Int) else value, s)
    else some (0, c :: s)
  | [] => some (0, [])

def ofDigits (negative : Bool) (value count : Nat) (exponent : Int) : Binary64 :=
  if value = 0 then .finite negative 0 minExponent
  else if 400 < exponent then .infinite negative
  else if exponent + count < -400 then .finite negative 0 minExponent
  else ofDecimal negative value exponent

def wordValue? (negative : Bool) (word : String) : Option Binary64 :=
  if word = "inf" ∨ word = "infinity" then some (.infinite negative)
  else if word = "nan" then some (.nan negative)
  else none

def read? (s : String) : Option Binary64 :=
  let s := s.toList.dropWhile Text.isNumeralBlank
  let s := (s.reverse.dropWhile Text.isNumeralBlank).reverse
  let (negative, s) := Text.readSign s
  match wordValue? negative (String.ofList (s.map Char.toLower)) with
  | some x => some x
  | none => do
    let (whole, wholeCount, s) := readRun 0 0 s
    let (value, count, s) := match s with
      | '.' :: rest =>
        match rest with
        | '_' :: _ => (whole, wholeCount, s)
        | _ =>
          let (value, count, rest) := readRun whole 0 rest
          (value, wholeCount + count, rest)
      | _ => (whole, wholeCount, s)
    if count = 0 then none
    let (exponent, s) ← readExponent s
    if s.isEmpty then
      return ofDigits negative value count (exponent - ((count - wholeCount : Nat) : Int))
    else none

end TapeLab.Binary64
