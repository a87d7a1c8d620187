import Mathlib.Algebra.Group.Nat.Even
import TapeLab.Decimal.Binary64

/-!
Quotients that floating point can hold. A quotient is rounded to a finite number if it has at most
some 1022 binary places more before the point than behind it, and then so is a multiple of it that
is not much larger.
-/

namespace TapeLab.Binary64

variable {num den : Nat} {e : Int}

theorem quotient_lt (hden : den ≠ 0) (he : (num.log2 : Int) - den.log2 - 53 ≤ e) :
    (Decimal.timesPower 2 num den (-e)).1 <
      2 ^ 54 * (Decimal.timesPower 2 num den (-e)).2 := by
  have hnum : num < 2 ^ (num.log2 + 1) := Nat.lt_log2_self
  have hden' : 2 ^ den.log2 ≤ den := Nat.log2_self_le hden
  unfold Decimal.timesPower
  split
  · next hneg =>
    calc num * Nat.pow 2 (-e).toNat
      _ < 2 ^ (num.log2 + 1) * 2 ^ (-e).toNat :=
        Nat.mul_lt_mul_of_pos_right hnum (Nat.two_pow_pos _)
      _ = 2 ^ (num.log2 + 1 + (-e).toNat) := (Nat.pow_add ..).symm
      _ ≤ 2 ^ (54 + den.log2) := Nat.pow_le_pow_right Nat.two_pos (by omega)
      _ = 2 ^ 54 * 2 ^ den.log2 := Nat.pow_add ..
      _ ≤ 2 ^ 54 * den := Nat.mul_le_mul_left _ hden'
  · next hpos =>
    calc num
      _ < 2 ^ (num.log2 + 1) := hnum
      _ ≤ 2 ^ (54 + (den.log2 + (-(-e)).toNat)) := Nat.pow_le_pow_right Nat.two_pos (by omega)
      _ = 2 ^ 54 * (2 ^ den.log2 * 2 ^ (-(-e)).toNat) := by rw [Nat.pow_add, Nat.pow_add]
      _ ≤ 2 ^ 54 * (den * 2 ^ (-(-e)).toNat) :=
        Nat.mul_le_mul_left _ (Nat.mul_le_mul_right _ hden')

theorem roundDiv_le (n d : Nat) : Decimal.roundDiv n d ≤ n / d + 1 := by
  unfold Decimal.roundDiv
  dsimp only
  split <;> omega

theorem exponentOf_bounds (num den : Nat) :
    (num.log2 : Int) - den.log2 - 53 ≤ exponentOf num den ∧
      exponentOf num den ≤ max ((num.log2 : Int) - den.log2 - 52) minExponent := by
  unfold exponentOf
  dsimp only
  split <;> omega

theorem normal_eq_finite (negative : Bool) {m : Nat} (he : e < maxExponent) :
    ∃ m' e', normal negative m e = .finite negative m' e' ∧ m' ≤ m ∧ e' ≤ e + 1 := by
  unfold normal
  split
  next m' e' h =>
    split at h
    · next hm =>
      obtain ⟨rfl, rfl⟩ := Prod.mk.inj h
      rw [if_neg (by omega)]
      exact ⟨_, _, rfl, by omega, Int.le_refl _⟩
    · obtain ⟨rfl, rfl⟩ := Prod.mk.inj h
      rw [if_neg (by omega)]
      exact ⟨_, _, rfl, Nat.le_refl _, by omega⟩

theorem ofRatio_eq_finite (negative : Bool) (hden : den ≠ 0) (h : num.log2 ≤ den.log2 + 1022) :
    ∃ m e, ofRatio negative num den = .finite negative m e ∧ m ≤ 2 ^ 54 ∧
      e ≤ max ((num.log2 : Int) - den.log2 - 51) 0 := by
  unfold ofRatio
  split
  · exact ⟨0, minExponent, rfl, Nat.zero_le _, by unfold minExponent; omega⟩
  · dsimp only
    obtain ⟨hlow, hhigh⟩ := exponentOf_bounds num den
    have hquotient := quotient_lt hden hlow
    have hminExponent : minExponent = -1074 := rfl
    have hmaxExponent : maxExponent = 971 := rfl
    obtain ⟨m, e, hnormal, hm, he⟩ := normal_eq_finite negative
      (m := Decimal.roundDiv (Decimal.timesPower 2 num den (-exponentOf num den)).1
        (Decimal.timesPower 2 num den (-exponentOf num den)).2)
      (e := exponentOf num den) (by omega)
    refine ⟨m, e, hnormal, Nat.le_trans hm (Nat.le_trans (roundDiv_le _ _) ?_), by omega⟩
    exact Nat.div_lt_of_lt_mul (by rwa [Nat.mul_comm])

theorem log2_lt_of_lt {n k : Nat} (h : n < 2 ^ k) (hk : 0 < k) : n.log2 < k := by
  rcases Nat.eq_zero_or_pos n with rfl | hpos
  · rwa [Nat.log2_zero]
  · exact (Nat.log2_lt (Nat.ne_of_gt hpos)).2 h

theorem mulNat_eq_finite (negative : Bool) {m k : Nat} (hm : m ≤ 2 ^ 54) (he : e ≤ 958)
    (hk : k < 2 ^ 10) : ∃ m' e', (finite negative m e).mulNat k = .finite negative m' e' := by
  have hmk : m * k < 2 ^ 64 :=
    calc m * k
      _ ≤ 2 ^ 54 * k := Nat.mul_le_mul_right _ hm
      _ < 2 ^ 54 * 2 ^ 10 := Nat.mul_lt_mul_of_pos_left hk (Nat.two_pow_pos _)
      _ = 2 ^ 64 := (Nat.pow_add ..).symm
  have hden : (magnitude m e).2 ≠ 0 := by
    unfold magnitude Decimal.timesPower
    split
    · exact Nat.one_ne_zero
    · exact Nat.ne_of_gt (Nat.mul_pos Nat.one_pos (Nat.two_pow_pos _))
  have hnum : (magnitude m e).1 * k < 2 ^ (64 + e.toNat) := by
    unfold magnitude Decimal.timesPower
    split
    · calc m * Nat.pow 2 e.toNat * k
        _ = m * k * 2 ^ e.toNat := Nat.mul_right_comm ..
        _ < 2 ^ 64 * 2 ^ e.toNat := Nat.mul_lt_mul_of_pos_right hmk (Nat.two_pow_pos _)
        _ = 2 ^ (64 + e.toNat) := (Nat.pow_add ..).symm
    · exact Nat.lt_of_lt_of_le hmk (Nat.pow_le_pow_right Nat.two_pos (Nat.le_add_right ..))
  have hlog := log2_lt_of_lt hnum (by omega)
  have hsize : ((magnitude m e).1 * k).log2 ≤ (magnitude m e).2.log2 + 1022 := by omega
  obtain ⟨m', e', h, -, -⟩ := ofRatio_eq_finite negative hden hsize
  exact ⟨m', e', h⟩

@[simp] theorem isNegative_ofRatio (num den : Nat) :
    (ofRatio false num den).isNegative = false := by
  unfold ofRatio
  split
  · rfl
  · unfold normal
    dsimp only
    split <;> split <;> rfl

theorem ofRatio_ne_nan (negative negative' : Bool) (num den : Nat) :
    ofRatio negative num den ≠ .nan negative' := by
  unfold ofRatio
  split
  · exact nofun
  · unfold normal
    dsimp only
    split <;> split <;> exact nofun

end TapeLab.Binary64
