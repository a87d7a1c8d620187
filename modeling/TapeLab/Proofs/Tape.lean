import TapeLab.Tape

/-!
Tapes as functions of the index: what reading gives after a write and after the tape has grown.
Reading is the same at both ends before and after `settle`, for a head that is one cell off.
-/

namespace TapeLab.Tape

variable (t : Tape)

@[simp] theorem size_set (i : Nat) (s : Symbol) : (t.set i s).size = t.size := by
  simp [size, set]

@[simp] theorem size_prepend : t.prepend.size = t.size + 1 := rfl

@[simp] theorem size_append : t.append.size = t.size + 1 := by
  simp [size, append]

theorem read_of_neg {i : Int} (h : i < 0) : t.read i = blank := if_neg (by omega)

theorem read_ofNat (i : Nat) : t.read i = t.cells.getD i blank := by
  simp [read]

theorem read_of_size_le {i : Int} (h : t.size ≤ i) : t.read i = blank := by
  obtain ⟨n, rfl⟩ := Int.eq_ofNat_of_zero_le (show 0 ≤ i by omega)
  have hn : t.cells.length ≤ n := by simpa [size] using h
  rw [read_ofNat, List.getD_eq_getElem?_getD, List.getElem?_eq_none hn, Option.getD_none]

theorem write_eq_set {i : Int} (s : Symbol) (h : 0 ≤ i) (hi : i < t.size) :
    t.write i s = .ok (t.set i.toNat s) := by
  simp [write, position?, h, hi]

theorem read_set {n : Nat} (s : Symbol) (hn : n < t.size) (i : Int) :
    (t.set n s).read i = if i = n then s else t.read i := by
  rcases Int.lt_or_le i 0 with hneg | hpos
  · rw [read_of_neg _ hneg, read_of_neg _ hneg, if_neg (by omega)]
  · obtain ⟨k, rfl⟩ := Int.eq_ofNat_of_zero_le hpos
    have hn' : n < t.cells.length := hn
    rw [read_ofNat, read_ofNat]
    simp only [set, List.getD_eq_getElem?_getD, Int.natCast_inj]
    by_cases hk : k = n
    · simp [hk, hn']
    · simp [hk, Ne.symm hk]

theorem read_prepend (i : Int) : t.prepend.read (i + 1) = t.read i := by
  rcases Int.lt_or_le i 0 with hneg | hpos
  · rw [read_of_neg _ hneg]
    rcases Int.lt_or_le (i + 1) 0 with hneg' | hpos'
    · rw [read_of_neg _ hneg']
    · obtain rfl : i = -1 := by omega
      rfl
  · obtain ⟨n, rfl⟩ := Int.eq_ofNat_of_zero_le hpos
    exact (read_ofNat t.prepend (n + 1)).trans (read_ofNat t n).symm

theorem read_append (i : Int) : t.append.read i = t.read i := by
  rcases Int.lt_or_le i t.size with hlt | hge
  · rcases Int.lt_or_le i 0 with hneg | hpos
    · rw [read_of_neg _ hneg, read_of_neg _ hneg]
    · obtain ⟨n, rfl⟩ := Int.eq_ofNat_of_zero_le hpos
      have hn : n < t.cells.length := by simpa [size] using hlt
      simp [read_ofNat, append, List.getElem?_append_left hn]
  · rw [read_of_size_le _ hge]
    rcases Int.lt_or_le t.size i with hgt | hle
    · exact read_of_size_le _ (by simp only [size_append]; omega)
    · obtain rfl : i = t.size := by omega
      simp [read_ofNat, append, size]

variable {t} {p : Int}

theorem read_settle (hp : -1 ≤ p) (k : Int) :
    (t.settle p).1.read ((t.settle p).2 + k) = t.read (p + k) := by
  unfold settle
  split
  · obtain rfl : p = -1 := by omega
    have h := t.read_prepend (-1 + k)
    rwa [show -1 + k + 1 = 0 + k by omega] at h
  · split
    · exact t.read_append _
    · rfl

theorem settle_onTape (hq : p ≤ t.size) :
    0 ≤ (t.settle p).2 ∧ (t.settle p).2 < (t.settle p).1.size := by
  unfold settle
  split
  · simp only [size_prepend]
    omega
  · split
    · simp only [size_append]
      omega
    · dsimp only
      omega

theorem clamp_onTape (t : Tape) (i : Int) : 0 ≤ t.clamp i ∧ t.clamp i < t.size := by
  have := t.size_pos
  unfold clamp
  omega

end TapeLab.Tape
