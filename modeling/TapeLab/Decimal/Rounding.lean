/-!
Quotients of natural numbers: rounding to the nearest whole number, a half to the even neighbour,
and multiplying by a power.
-/

namespace TapeLab.Decimal

def timesPower (base num den : Nat) (exponent : Int) : Nat × Nat :=
  if 0 ≤ exponent then (num * base.pow exponent.toNat, den)
  else (num, den * base.pow (-exponent).toNat)

/-- The whole number nearest to `num / den`; a half goes to the even neighbour. -/
def roundDiv (num den : Nat) : Nat :=
  let q := num / den
  let r := num % den
  if den < 2 * r ∨ (2 * r = den ∧ q % 2 = 1) then q + 1 else q

end TapeLab.Decimal
