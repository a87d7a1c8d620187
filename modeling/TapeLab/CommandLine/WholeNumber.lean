import TapeLab.Text.Numeral

/-!
Whole numbers as arguments. A number has ASCII digits, with single underscores between them. White
space around it, one plus, zeros that lead it and a fraction of zeros do not count; behind a minus
no zeros may lead.
-/

namespace TapeLab.CommandLine

def isDigit (c : Char) : Bool := '0' ≤ c && c ≤ '9'

def trim (s : List Char) : List Char :=
  ((s.dropWhile Text.isNumeralBlank).reverse.dropWhile Text.isNumeralBlank).reverse

def dropPlus? : List Char → Option (List Char)
  | '+' :: '-' :: _ => none
  | '+' :: s => some s
  | s => some s

def dropZerosAfter (last : Char) : List Char → Option (List Char)
  | [] => some [last]
  | c :: s =>
    if c = '0' ∨ c = '_' then dropZerosAfter c s
    else if c = '.' then some (last :: c :: s)
    else if isDigit c then some (c :: s)
    else none

def dropZeros? : List Char → Option (List Char)
  | [] => none
  | c :: s =>
    if c = '0' then dropZerosAfter c s
    else if isDigit c ∨ c = '-' then some (c :: s)
    else none

def dropFraction (s : List Char) : List Char :=
  match s.span (· ≠ '.') with
  | (whole, _ :: fraction) => if fraction.all (· = '0') then whole else s
  | (_, []) => s

def hasLooseUnderscore : List Char → Bool
  | [] => false
  | ['_'] => true
  | '_' :: '_' :: _ => true
  | _ :: s => hasLooseUnderscore s

def dropUnderscores? (s : List Char) : Option (List Char) :=
  if s.head? = some '_' ∨ hasLooseUnderscore s then none else some (s.filter (· ≠ '_'))

def digitsValue? (s : List Char) : Option Nat :=
  if s = [] ∨ !s.all isDigit ∨ (s.head? = some '0' ∧ s ≠ ['0']) then none
  else some (s.foldl (fun n c => 10 * n + (c.toNat - 48)) 0)

/-- The value of a number that is written without anything that does not count. The sign counts as
one of its digits. -/
def plainValue? (s : List Char) : Option Int :=
  if Text.maxDigits < s.length then none
  else match s with
    | '-' :: digits => (digitsValue? digits).map fun n => -(n : Int)
    | digits => (digitsValue? digits).map fun n => (n : Int)

def readWhole? (s : String) : Option Int := do
  let s ← dropPlus? (trim s.toList)
  let s ← dropZeros? s
  let s ← dropUnderscores? (dropFraction s)
  plainValue? s

end TapeLab.CommandLine
