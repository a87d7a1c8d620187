import TapeLab.History

/-!
Bounded stacks against unbounded ones. A push keeps, right below the new entry, as many of the
newest entries as the bounds promise; what it forgets are older ones.
-/

namespace TapeLab.History

variable {α : Type} {h rest : History α} {a b : α} {l : List α}

theorem entries_push (h : History α) (a : α) :
    ∃ n, (h.push a).entries = a :: h.entries.take n ∧
      (n < h.size → h.bounds.cap - h.bounds.drop ≤ n) ∧
      (h.size ≤ h.bounds.cap → n < h.bounds.cap) := by
  have hdrop := h.bounds.drop_pos
  have hle := h.bounds.drop_le_cap
  unfold push trim
  dsimp only
  split
  · exact ⟨h.size - h.bounds.drop, rfl, by omega, by omega⟩
  · refine ⟨h.size, ?_, by omega, by omega⟩
    exact congrArg (a :: ·) List.take_length.symm

@[simp] theorem bounds_push : (h.push a).bounds = h.bounds := by
  unfold push trim
  dsimp only
  split <;> rfl

theorem size_push_le (hsize : h.size ≤ h.bounds.cap) : (h.push a).size ≤ h.bounds.cap := by
  obtain ⟨n, hentries, -, hroom⟩ := h.entries_push a
  have hn := hroom hsize
  calc
    (h.push a).size = (h.entries.take n).length + 1 := by rw [size, hentries, List.length_cons]
    _ ≤ n + 1 := Nat.succ_le_succ (List.length_take_le n _)
    _ ≤ h.bounds.cap := hn

theorem mem_push (hb : b ∈ (h.push a).entries) : b = a ∨ b ∈ h.entries := by
  obtain ⟨n, hentries, -⟩ := h.entries_push a
  rw [hentries] at hb
  exact (List.mem_cons.1 hb).imp id List.mem_of_mem_take

theorem prefix_push {newest : List α} (hnewest : newest <+: h.entries)
    (hlength : newest.length ≤ h.bounds.cap - h.bounds.drop) :
    a :: newest <+: (h.push a).entries := by
  obtain ⟨n, hentries, hkept, -⟩ := h.entries_push a
  rw [hentries, List.cons_prefix_cons]
  refine ⟨rfl, List.prefix_take_iff.2 ⟨hnewest, ?_⟩⟩
  have hle := hnewest.length_le
  rcases Nat.lt_or_ge n h.size with hlt | hge
  · exact Nat.le_trans hlength (hkept hlt)
  · exact Nat.le_trans hle hge

theorem push_of_lt (hsize : h.size < h.bounds.cap) :
    h.push a = { h with entries := a :: h.entries } := by
  rw [push, trim, if_neg (Nat.not_le_of_lt hsize)]

theorem push_push (hsize : h.size ≤ h.bounds.cap) (hentries : (h.push a).entries = a :: l) :
    ({ h.push a with entries := l } : History α).push a = h.push a := by
  obtain ⟨n, htake, -, hroom⟩ := h.entries_push a
  have hn := hroom hsize
  obtain rfl : h.entries.take n = l := List.tail_eq_of_cons_eq (htake.symm.trans hentries)
  have hlt : (h.entries.take n).length < (h.push a).bounds.cap := by
    rw [bounds_push]
    exact Nat.lt_of_le_of_lt (List.length_take_le n _) hn
  rw [push_of_lt (h := { h.push a with entries := h.entries.take n }) hlt, ← hentries]

@[simp] theorem recent_natCast (h : History α) (count : Nat) :
    h.recent count = h.toList.reverse.take count := by
  simp [recent, toList]

theorem pop?_eq_some_iff :
    h.pop? = some (a, rest) ↔ h.entries = a :: rest.entries ∧ rest.bounds = h.bounds := by
  obtain ⟨bounds, entries⟩ := h
  obtain ⟨bounds', entries'⟩ := rest
  cases entries with
  | nil => simp [pop?]
  | cons b bs =>
    simp only [pop?, Option.some.injEq, Prod.mk.injEq, mk.injEq, List.cons.injEq]
    constructor
    · rintro ⟨rfl, rfl, rfl⟩
      exact ⟨⟨rfl, rfl⟩, rfl⟩
    · rintro ⟨⟨rfl, rfl⟩, rfl⟩
      exact ⟨rfl, rfl, rfl⟩

end TapeLab.History
