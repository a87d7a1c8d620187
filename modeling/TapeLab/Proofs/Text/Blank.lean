import TapeLab.Text.Blank
import TapeLab.Rule

/-!
What white space and line ends leave alone: a text is its own stripped form, and its own form with
unified line ends, if there is nothing to take away.
-/

namespace TapeLab.Text

variable {s : List Char}

theorem length_stripStart_le (s : List Char) : (stripStart s).length ≤ s.length :=
  (List.dropWhile_suffix isBlank).length_le

theorem length_stripEnd_le (s : List Char) : (stripEnd s).length ≤ s.length := by
  have hsuffix := (List.dropWhile_suffix isBlank (l := s.reverse)).length_le
  simpa [stripEnd] using hsuffix

theorem length_strip_le (s : List Char) : (strip s).length ≤ s.length :=
  Nat.le_trans (length_stripEnd_le _) (length_stripStart_le s)

theorem unifyNewlines_eq_self (h : '\r' ∉ s) : unifyNewlines s = s := by
  induction s with
  | nil => rfl
  | cons c s ih =>
    simp only [List.mem_cons, not_or] at h
    rw [unifyNewlines.eq_3]
    · rw [ih h.2, if_neg (Ne.symm h.1)]
    · rintro _ rfl
      exact absurd rfl h.1

end TapeLab.Text

namespace TapeLab

open Text

theorem toList_clipState (name : String) :
    (clipState name).toList = (strip name.toList).take maxStateLength := by
  simp [clipState]

/-- A name that is kept as it is has no white space around it and is not too long. A name that is
cut loses characters, and so it does if white space is taken off. -/
theorem clipState_eq_self_iff {name : String} :
    clipState name = name ↔
      strip name.toList = name.toList ∧ name.length ≤ maxStateLength := by
  have hle := length_strip_le name.toList
  rw [← String.toList_inj, toList_clipState, ← String.length_toList]
  constructor
  · intro h
    have hlength := congrArg List.length h
    rw [List.length_take] at hlength
    have hshort : (strip name.toList).length ≤ maxStateLength := by omega
    rw [List.take_of_length_le hshort] at h
    exact ⟨h, h ▸ hshort⟩
  · rintro ⟨hstrip, hshort⟩
    rw [hstrip, List.take_of_length_le hshort]

end TapeLab
