import TapeLab.Session.Saved

/-!
What is known of a session that has been read from a save.
-/

namespace TapeLab.Session

variable {json : Json} {challenges : Int} {s : Session}

theorem eq_of_ofJson (h : ofJson json challenges = some s) :
    ∃ data, s = ⟨challengeOf data challenges, rulesOf data, cellsOf data,
      headOf data (cellsOf data)⟩ := by
  simp only [ofJson, Option.bind_eq_bind, Option.bind_eq_some_iff] at h
  obtain ⟨version, -, data, -, h⟩ := h
  split at h
  · exact ⟨data, (Option.some.inj h).symm⟩
  · cases h

theorem challenge_of_ofJson (h : ofJson json challenges = some s) {index : Int}
    (hindex : s.challenge = some index) : 0 ≤ index ∧ index < challenges := by
  obtain ⟨data, rfl⟩ := eq_of_ofJson h
  obtain ⟨-, hbounds⟩ := Option.filter_eq_some_iff.1 hindex
  exact of_decide_eq_true hbounds

theorem head_of_ofJson (h : ofJson json challenges = some s) {head : Int}
    (hhead : s.head = some head) : 0 ≤ head ∧ ∀ cells ∈ s.cells, head < cells.length := by
  obtain ⟨data, rfl⟩ := eq_of_ofJson h
  obtain ⟨-, hbounds⟩ := Option.filter_eq_some_iff.1 hhead
  exact of_decide_eq_true hbounds

theorem ofJson_of_ofBytes {bytes : List UInt8} (h : ofBytes bytes challenges = .ok s) :
    ∃ json, ofJson json challenges = some s := by
  unfold ofBytes at h
  split at h
  · cases h
  · split at h
    · cases h
    · next json _ =>
      split at h
      · cases h
      · next own hown =>
        cases h
        exact ⟨json, hown⟩

end TapeLab.Session
