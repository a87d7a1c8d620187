import Mathlib.Algebra.Group.Int.Defs
import TapeLab.Console.Status
import TapeLab.Proofs.Decimal.Binary64
import TapeLab.Proofs.Desk.Gears

/-!
Delays, and that they can be told. Nothing but `setSpeed` changes the delay of a pacer, and it sets
none that is negative. To be told, a delay goes from milliseconds to seconds in floating point and
back, and up to `10 ^ 303` neither way leads to infinity.
-/

namespace TapeLab

open Binary64

theorem natAbs_lt_two_pow {n : Int} {k : Nat} (hpos : 0 ≤ n) (hk : k ≠ 0) (h : n ≤ 10 ^ (3 * k)) :
    n.natAbs < 2 ^ (10 * k) := by
  rw [← Int.natAbs_of_nonneg hpos] at h
  calc n.natAbs
    _ ≤ 10 ^ (3 * k) := by exact_mod_cast h
    _ = (10 ^ 3) ^ k := Nat.pow_mul ..
    _ < (2 ^ 10) ^ k := Nat.pow_lt_pow_left (by decide) hk
    _ = 2 ^ (10 * k) := (Nat.pow_mul ..).symm

theorem secondsOf_eq_finite_of_le {ms : Int} (hpos : 0 ≤ ms) (hle : ms ≤ 10 ^ 303) :
    ∃ m e, secondsOf ms = .finite false m e ∧ m ≤ 2 ^ 54 ∧ e ≤ 958 := by
  rw [show 303 = 3 * 101 from rfl] at hle
  have hlt := natAbs_lt_two_pow hpos (by decide) hle
  have hlog := log2_lt_of_lt hlt (by omega)
  have hden : Nat.log2 1000 = 9 := by decide
  have hsize : ms.natAbs.log2 ≤ Nat.log2 1000 + 1022 := by omega
  obtain ⟨m, e, h, hm, he⟩ := ofRatio_eq_finite false (by decide) hsize
  refine ⟨m, e, ?_, hm, by omega⟩
  rw [secondsOf, decide_eq_false (Int.not_lt.2 hpos), h]

theorem le_of_le_ten_pow {n : Int} (h : n ≤ 10 ^ 300) : n ≤ 10 ^ 303 :=
  Int.le_trans h (by decide +kernel)

theorem secondsOf_eq_finite {ms : Int} (hpos : 0 ≤ ms) (hle : ms ≤ 10 ^ 300) :
    ∃ m e, secondsOf ms = .finite false m e ∧ m ≤ 2 ^ 54 ∧ e ≤ 958 :=
  secondsOf_eq_finite_of_le hpos (le_of_le_ten_pow hle)

namespace Desk

variable {d : Desk}

theorem speed_eq_ok (hpos : 0 ≤ d.pacer.delay) (hle : d.pacer.delay ≤ 10 ^ 303) :
    ∃ n, d.speed = .ok n := by
  obtain ⟨m, e, hseconds, hm, he⟩ := secondsOf_eq_finite_of_le hpos hle
  obtain ⟨m', e', hproduct⟩ := mulNat_eq_finite false (k := 1000) hm he (by decide)
  unfold speed
  rw [hseconds, hproduct]
  exact ⟨_, rfl⟩

theorem statusLine_eq_ok (hpos : 0 ≤ d.pacer.delay) (hle : d.pacer.delay ≤ 10 ^ 303) :
    ∃ line, d.statusLine = .ok line := by
  obtain ⟨n, hn⟩ := speed_eq_ok hpos hle
  unfold statusLine
  rw [hn]
  exact ⟨_, rfl⟩

theorem delay_stopRun (d : Desk) : d.stopRun.pacer.delay = d.pacer.delay := by
  rw [pacer_stopRun]
  rfl

theorem delay_setSpeed (d : Desk) (milliseconds : Int) :
    (d.setSpeed milliseconds).desk.pacer.delay = d.pacer.delay ∨
      (d.setSpeed milliseconds).desk.pacer.delay = max milliseconds 0 := by
  unfold setSpeed
  dsimp only
  split
  · exact .inl rfl
  · exact .inr rfl

end Desk

theorem Operation.delay_apply {op : Operation} (h : ∀ milliseconds, op ≠ .setSpeed milliseconds)
    (d : Desk) : (op.apply d).desk.pacer.delay = d.pacer.delay := by
  by_cases hedit : op.Edits
  · exact congrArg (fun g : Gears => g.pacer.delay) (hedit.still d).1
  cases op with
  | step =>
    show d.step.desk.pacer.delay = _
    unfold Desk.step
    split
    · rfl
    · exact congrArg (fun g : Gears => g.pacer.delay) d.gears_advance
  | run =>
    show d.run.desk.pacer.delay = _
    rw [Desk.run_eq]
    split
    · split <;> rfl
    · rfl
  | pause =>
    show d.pause.desk.pacer.delay = _
    cases hrunning : d.running with
    | true => rw [Desk.pacer_pause hrunning]; rfl
    | false => rw [Desk.pause, hrunning]; rfl
  | undo =>
    show d.undo.desk.pacer.delay = _
    unfold Desk.undo
    split
    · rfl
    · dsimp only
      split <;> exact d.delay_stopRun
  | reset => exact (congrArg Pacer.delay d.pacer_reset).trans d.delay_stopRun
  | loadChallenge index =>
    by_cases hindex : 0 ≤ index ∧ index < d.catalog.challenges.length
    · exact (congrArg (fun g : Gears => g.pacer.delay) (Desk.gears_loadChallenge hindex)).trans
        d.delay_stopRun
    · show (d.loadChallenge index).desk.pacer.delay = _
      rw [Desk.loadChallenge, if_neg hindex]
      rfl
  | loadTape cells head => exact d.delay_stopRun
  | restore s =>
    exact (congrArg (fun g : Gears => g.pacer.delay) (d.gears_restore s)).trans d.delay_stopRun
  | setSpeed milliseconds => exact absurd rfl (h milliseconds)
  | _ => exact absurd trivial hedit

theorem Operation.delay_nonneg {op : Operation} {d : Desk} (h : 0 ≤ d.pacer.delay) :
    0 ≤ (op.apply d).desk.pacer.delay := by
  by_cases hspeed : ∃ milliseconds, op = .setSpeed milliseconds
  · obtain ⟨milliseconds, rfl⟩ := hspeed
    show 0 ≤ (d.setSpeed milliseconds).desk.pacer.delay
    rcases d.delay_setSpeed milliseconds with hsame | hset
    · rwa [hsame]
    · rw [hset]
      exact Int.le_max_right _ _
  · rwa [Operation.delay_apply (fun milliseconds hop => hspeed ⟨milliseconds, hop⟩) d]

end TapeLab
