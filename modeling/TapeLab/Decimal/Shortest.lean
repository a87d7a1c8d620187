import TapeLab.Decimal.Binary64

/-!
Decimal texts of floating-point numbers. `shortest` finds the fewest digits that read back as the
same number and, of those, the ones nearest to it. `text` writes them positionally from `1e-4` up to
below `1e16` and with an exponent otherwise.
-/

namespace TapeLab.Binary64

structure Digits where
  digits : Nat
  exponent : Int
  deriving DecidableEq, Repr

def ofDecimal (negative : Bool) (digits : Nat) (exponent : Int) : Binary64 :=
  let (num, den) := Decimal.timesPower 10 digits 1 exponent
  ofRatio negative num den

def unscale (num den : Nat) (exponent : Int) : Nat × Nat :=
  Decimal.timesPower 10 num den (-exponent)

def raisePower (num den : Nat) : Nat → Int → Int
  | 0, p => p
  | fuel + 1, p =>
    let (n, d) := unscale num den (p + 1)
    if n < d then p else raisePower num den fuel (p + 1)

def decimalPower (num den : Nat) : Int :=
  let guess := ((num.log2 : Int) - den.log2 - 1) * 30103 / 100000 - 1
  raisePower num den 8 guess

/-- The point of the grid of step `10 ^ exponent` that reads back as `x` and is nearest to it. -/
def onGrid? (x : Binary64) (num den : Nat) (exponent : Int) : Option Digits :=
  let (n, d) := unscale num den exponent
  let low := n / d
  let fits (k : Nat) := ofDecimal false k exponent == x
  let lowFirst := 2 * (n % d) < d || (2 * (n % d) == d && low % 2 == 0)
  let (near, far) := if lowFirst then (low, low + 1) else (low + 1, low)
  if fits near then some ⟨near, exponent⟩
  else if fits far then some ⟨far, exponent⟩
  else none

/-- The first grid, from `count` digits on, with a point that reads back. -/
def shortestFrom (x : Binary64) (num den : Nat) (power : Int) : Nat → Nat → Digits
  | 0, _ => ⟨0, 0⟩
  | fuel + 1, count =>
    match onGrid? x num den (power - count + 1) with
    | some d => d
    | none => shortestFrom x num den power fuel (count + 1)

def shortest (mantissa : Nat) (exponent : Int) : Digits :=
  let (num, den) := magnitude mantissa exponent
  shortestFrom (.finite false mantissa exponent) num den (decimalPower num den) 17 1

def dropZeros : Nat → Digits → Digits
  | 0, d => d
  | fuel + 1, d =>
    if d.digits % 10 = 0 ∧ d.digits ≠ 0 then dropZeros fuel ⟨d.digits / 10, d.exponent + 1⟩ else d

def padded (width : Nat) (s : List Char) : List Char := List.replicate (width - s.length) '0' ++ s

def layOut (digits : List Char) (power : Int) : List Char :=
  if -4 ≤ power ∧ power < 16 then
    if power < 0 then '0' :: '.' :: List.replicate (-power - 1).toNat '0' ++ digits
    else
      let whole := digits.take (power.toNat + 1)
      let fraction := digits.drop (power.toNat + 1)
      whole ++ List.replicate (power.toNat + 1 - whole.length) '0' ++ '.' ::
        (if fraction.isEmpty then ['0'] else fraction)
  else
    let fraction := digits.drop 1
    digits.take 1 ++ (if fraction.isEmpty then [] else '.' :: fraction) ++ 'e' ::
      (if power < 0 then '-' else '+') :: padded 2 (toString power.natAbs).toList

def text : Binary64 → String
  | nan _ => "nan"
  | infinite negative => if negative then "-inf" else "inf"
  | finite negative m e =>
    let sign := if negative then ['-'] else []
    let body :=
      if m = 0 then layOut ['0'] 0
      else
        let d := dropZeros 17 (shortest m e)
        let digits := (toString d.digits).toList
        layOut digits (d.exponent + digits.length - 1)
    String.ofList (sign ++ body)

def fixed3 : Binary64 → String
  | nan _ => "nan"
  | infinite negative => if negative then "-inf" else "inf"
  | finite negative m e =>
    let (num, den) := magnitude m e
    let n := Decimal.roundDiv (num * 1000) den
    let fraction := padded 3 (toString (n % 1000)).toList
    let whole := (toString (n / 1000)).toList
    String.ofList ((if negative then ['-'] else []) ++ whole ++ '.' :: fraction)

end TapeLab.Binary64
