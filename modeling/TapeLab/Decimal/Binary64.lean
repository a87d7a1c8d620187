import TapeLab.Decimal.Rounding

/-!
Binary floating-point numbers of 64 bits. A finite number is a mantissa of at most 53 bits times a
power of two; it is kept in the form whose mantissa has all 53 bits, or whose exponent is the least
one. `ofRatio` rounds every quotient to the nearest number, a tie to the one with even mantissa.
-/

namespace TapeLab

inductive Binary64
  | finite (negative : Bool) (mantissa : Nat) (exponent : Int)
  | infinite (negative : Bool)
  | nan (negative : Bool)
  deriving DecidableEq, Repr

namespace Binary64

def minExponent : Int := -1074

def maxExponent : Int := 971

def leadingBit : Nat := 0x10000000000000

def zero : Binary64 := .finite false 0 minExponent

/-- A mantissa and an exponent, with the carry of a mantissa rounded up to 54 bits and with numbers
beyond the largest one infinite. -/
def normal (negative : Bool) (mantissa : Nat) (exponent : Int) : Binary64 :=
  let (m, e) :=
    if mantissa = 2 * leadingBit then (leadingBit, exponent + 1) else (mantissa, exponent)
  if maxExponent < e then .infinite negative else .finite negative m e

def exponentOf (num den : Nat) : Int :=
  let e : Int := (num.log2 : Int) - den.log2 - 53
  let (n, d) := Decimal.timesPower 2 num den (-e)
  max (if n / d < 2 * leadingBit then e else e + 1) minExponent

def ofRatio (negative : Bool) (num den : Nat) : Binary64 :=
  if num = 0 then .finite negative 0 minExponent
  else
    let e := exponentOf num den
    let (n, d) := Decimal.timesPower 2 num den (-e)
    normal negative (Decimal.roundDiv n d) e

def ofInt (n : Int) : Binary64 := ofRatio (n < 0) n.natAbs 1

def magnitude (mantissa : Nat) (exponent : Int) : Nat × Nat :=
  Decimal.timesPower 2 mantissa 1 exponent

def isInfinite : Binary64 → Bool
  | infinite _ => true
  | _ => false

def isNegative : Binary64 → Bool
  | finite negative m _ => negative && m != 0
  | infinite negative => negative
  | nan _ => false

def mulNat (x : Binary64) (k : Nat) : Binary64 :=
  match x with
  | finite negative m e =>
    let (num, den) := magnitude m e
    ofRatio negative (num * k) den
  | _ => x

def round? : Binary64 → Option Int
  | finite negative m e =>
    let (num, den) := magnitude m e
    let n : Int := Decimal.roundDiv num den
    some (if negative then -n else n)
  | _ => none

def toRat? : Binary64 → Option Rat
  | finite negative m e =>
    let (num, den) := magnitude m e
    some (mkRat (if negative then -(num : Int) else num) den)
  | _ => none

def signBit (negative : Bool) : Nat := if negative then 0x8000000000000000 else 0

def bits : Binary64 → Nat
  | finite negative m e =>
    signBit negative +
      if m < leadingBit then m
      else (e - minExponent + 1).toNat * leadingBit + (m - leadingBit)
  | infinite negative => signBit negative + 0x7FF0000000000000
  | nan negative => signBit negative + 0x7FF8000000000000

end Binary64

end TapeLab
