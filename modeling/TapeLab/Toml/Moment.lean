/-!
Dates and times in TOML: what of a text is one. A date is written with dashes, a time with colons
and perhaps a fraction of a second; a date may be followed by a time and an offset.
-/

namespace TapeLab.Toml

inductive MomentKind
  | date
  | time
  | dateTime
  deriving DecidableEq, Repr

def digitValue? (c : Char) : Option Nat :=
  if c.isDigit then some (c.toNat - 48) else none

def twoDigits? (low high : Nat) : List Char → Option (Nat × List Char)
  | a :: b :: s => do
    let a ← digitValue? a
    let b ← digitValue? b
    let n := 10 * a + b
    if low ≤ n ∧ n ≤ high then return (n, s) else none
  | _ => none

def char? (c : Char) : List Char → Option (List Char)
  | d :: s => if d = c then some s else none
  | [] => none

def skipFraction (s : List Char) : List Char :=
  match s with
  | '.' :: d :: rest => if d.isDigit then rest.dropWhile Char.isDigit else s
  | _ => s

def skipTime? (s : List Char) : Option (List Char) := do
  let (_, s) ← twoDigits? 0 23 s
  let (_, s) ← twoDigits? 0 59 (← char? ':' s)
  let (_, s) ← twoDigits? 0 59 (← char? ':' s)
  return skipFraction s

def skipOffset (s : List Char) : List Char :=
  match s with
  | [] => []
  | c :: rest =>
    if c = 'Z' ∨ c = 'z' then rest
    else if c = '+' ∨ c = '-' then
      (do
        let (_, s) ← twoDigits? 0 23 rest
        let (_, s) ← twoDigits? 0 59 (← char? ':' s)
        return s).getD s
    else s

def isLeap (year : Nat) : Bool := year % 4 == 0 && (year % 100 != 0 || year % 400 == 0)

def daysIn (year month : Nat) : Nat :=
  if month = 2 then if isLeap year then 29 else 28
  else if month = 4 ∨ month = 6 ∨ month = 9 ∨ month = 11 then 30
  else 31

def dateParts? (s : List Char) : Option (Nat × Nat × Nat × List Char) := do
  let (century, s) ← twoDigits? 0 99 s
  let (year, s) ← twoDigits? 0 99 s
  let (month, s) ← twoDigits? 1 12 (← char? '-' s)
  let (day, s) ← twoDigits? 1 31 (← char? '-' s)
  return (100 * century + year, month, day, s)

/-- A date or a time at the start of a text, and what follows. The inner `none` tells of a date that
is in no calendar. -/
def moment? (s : List Char) : Option (Option (MomentKind × List Char)) :=
  match dateParts? s with
  | some (year, month, day, rest) =>
    if year = 0 ∨ daysIn year month < day then some none
    else
      let timed := match rest with
        | c :: s => if c = 'T' ∨ c = 't' ∨ c = ' ' then skipTime? s else none
        | [] => none
      match timed with
      | some s => some (some (.dateTime, skipOffset s))
      | none => some (some (.date, rest))
  | none => (skipTime? s).map fun rest => some (.time, rest)

end TapeLab.Toml
