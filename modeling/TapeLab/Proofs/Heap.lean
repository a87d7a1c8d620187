import TapeLab.Heap

/-!
What a heap loses: its first entry when one is taken out, and nothing when it is made.
-/

namespace TapeLab.Heap

variable {α : Type} (before : α → α → Bool) {q r : Array α} {a : α}

theorem toList_of_last {s : Array α} (hpos : s.size - 1 < s.size) (h : s[s.size - 1] = a) :
    s.toList = s.pop.toList ++ [a] := by
  have hne : s.toList ≠ [] := by
    intro hnil
    have := congrArg List.length hnil
    simp only [Array.length_toList, List.length_nil] at this
    omega
  have hlast : s.toList.getLast hne = a := by
    rw [List.getLast_eq_getElem, ← h]
    simp
  rw [Array.toList_pop, ← hlast, List.dropLast_concat_getLast]

theorem pop?_perm (h : pop? before q = some (a, r)) : q.toList.Perm (a :: r.toList) := by
  obtain ⟨b, hb, hpop⟩ := Option.map_eq_some_iff.1 h
  obtain ⟨rfl, rfl⟩ := Prod.mk.inj hpop
  obtain ⟨hpos, hfirst⟩ := Array.getElem?_eq_some_iff.1 hb
  obtain ⟨s, hs⟩ : ∃ s, s = q.swapIfInBounds 0 (q.size - 1) := ⟨_, rfl⟩
  have hsize : s.size = q.size := by rw [hs, Array.size_swapIfInBounds]
  have hlt : s.size - 1 < s.size := by omega
  have hlast : s[s.size - 1] = b := by
    subst hs
    simp only [Array.size_swapIfInBounds]
    rw [Array.getElem_swapIfInBounds_right hpos, hfirst]
  have hsplit := toList_of_last hlt hlast
  have hswap : q.toList.Perm s.toList := hs ▸ (swapIfInBounds_perm q 0 (q.size - 1)).toList.symm
  have hback : s.toList.Perm (b :: s.pop.toList) := hsplit ▸ List.perm_append_singleton b _
  rw [← hs]
  exact hswap.trans (hback.trans ((settle_perm before s.pop 0).toList.symm.cons b))

theorem ofArray_perm (q : Array α) : (ofArray before q).Perm q := by
  unfold ofArray
  induction List.range (q.size / 2) with
  | nil => exact Array.Perm.refl q
  | cons i is ih => exact (settle_perm before _ i).trans ih

end TapeLab.Heap
