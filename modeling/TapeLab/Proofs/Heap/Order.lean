import Mathlib.Logic.Equiv.Basic
import TapeLab.Proofs.Heap

/-!
The order of a heap. An entry that sinks or rises leaves a place at which alone the order may be
broken: `Loose` says so while it sinks, and `Light`, which knows about the entries below too, while
it rises. All operations keep the order of entries that a number ranks, so the entry that is taken
out is one that no other comes before.
-/

namespace TapeLab.Heap

variable {α : Type} {before : α → α → Bool} {q r : Array α} {a : α} {top hole i j k : Nat}

def Ranked (before : α → α → Bool) (q : Array α) : Prop :=
  ∃ rank : α → Rat, ∀ a ∈ q, ∀ b ∈ q, before a b = decide (rank a < rank b)

def OrderedFrom (before : α → α → Bool) (top : Nat) (q : Array α) : Prop :=
  ∀ i, 0 < i → top ≤ (i - 1) / 2 → precedes before q i ((i - 1) / 2) = false

inductive Under (top : Nat) : Nat → Prop
  | top : Under top top
  | child {i : Nat} : 0 < i → Under top ((i - 1) / 2) → Under top i

theorem Under.le (h : Under top i) : top ≤ i := by
  induction h with
  | top => exact Nat.le_refl top
  | child _ _ ih => omega

theorem Under.parent (h : Under top i) (hlt : top < i) : Under top ((i - 1) / 2) := by
  cases h with
  | top => omega
  | child _ hparent => exact hparent

theorem precedes_of_size_le (h : q.size ≤ i) (j : Nat) : precedes before q i j = false := by
  simp [precedes, Array.getElem?_eq_none h]

theorem precedes_congr (hi : r[i]? = q[j]?) {i' j' : Nat} (hi' : r[i']? = q[j']?) :
    precedes before r i i' = precedes before q j j' := by
  rw [precedes, precedes, hi, hi']

theorem Ranked.of_subset (h : Ranked before q) (hsub : ∀ a ∈ r, a ∈ q) : Ranked before r := by
  obtain ⟨rank, hrank⟩ := h
  exact ⟨rank, fun a ha b hb => hrank a (hsub a ha) b (hsub b hb)⟩

theorem Ranked.perm (h : Ranked before q) (hperm : r.Perm q) : Ranked before r :=
  h.of_subset fun _ => hperm.mem_iff.1

theorem Ranked.irrefl (h : Ranked before q) (i : Nat) : precedes before q i i = false := by
  obtain ⟨rank, hrank⟩ := h
  unfold precedes
  cases hi : q[i]? with
  | none => rfl
  | some a => simp [hrank a (Array.mem_of_getElem? hi) a (Array.mem_of_getElem? hi)]

theorem Ranked.asymm (h : Ranked before q) (hij : precedes before q i j = true) :
    precedes before q j i = false := by
  obtain ⟨rank, hrank⟩ := h
  unfold precedes at hij ⊢
  cases hi : q[i]? with
  | none => simp [hi] at hij
  | some a =>
    cases hj : q[j]? with
    | none => rfl
    | some b =>
      have ha := Array.mem_of_getElem? hi
      have hb := Array.mem_of_getElem? hj
      simp only [hi, hj, hrank a ha b hb, decide_eq_true_eq] at hij
      simpa only [hrank b hb a ha, decide_eq_false_iff_not] using Rat.not_lt.2 (Rat.le_of_lt hij)

theorem Ranked.trans (h : Ranked before q) (hj : j < q.size)
    (hij : precedes before q i j = false) (hjk : precedes before q j k = false) :
    precedes before q i k = false := by
  obtain ⟨rank, hrank⟩ := h
  unfold precedes at hij hjk ⊢
  rw [Array.getElem?_eq_getElem hj] at hij hjk
  cases hi : q[i]? with
  | none => rfl
  | some a =>
    cases hk : q[k]? with
    | none => rfl
    | some c =>
      have ha := Array.mem_of_getElem? hi
      have hb := Array.getElem_mem hj
      have hc := Array.mem_of_getElem? hk
      simp only [hi, hrank a ha _ hb, decide_eq_false_iff_not, Rat.not_lt] at hij
      simp only [hk, hrank _ hb c hc, decide_eq_false_iff_not, Rat.not_lt] at hjk
      simpa only [hrank a ha c hc, decide_eq_false_iff_not, Rat.not_lt] using Rat.le_trans hjk hij

theorem getElem?_swapIfInBounds (hi : i < q.size) (hj : j < q.size) (k : Nat) :
    (q.swapIfInBounds i j)[k]? = q[Equiv.swap i j k]? := by
  rw [Array.swapIfInBounds_def, dif_pos hi, dif_pos hj, Array.getElem?_swap, Equiv.swap_apply_def]
  by_cases hki : k = i
  · subst hki
    by_cases hjk : j = k
    · simp [hjk, hi]
    · simp [hjk, hj]
  · by_cases hkj : k = j
    · subst hkj
      simp [hki, hi]
    · simp [hki, hkj, Ne.symm hki, Ne.symm hkj]

theorem precedes_swap (hi : i < q.size) (hj : j < q.size) (k l : Nat) :
    precedes before (q.swapIfInBounds i j) k l =
      precedes before q (Equiv.swap i j k) (Equiv.swap i j l) :=
  precedes_congr (getElem?_swapIfInBounds hi hj k) (getElem?_swapIfInBounds hi hj l)

/-- The order holds but for the entry at a position, and would hold without it. -/
structure Loose (before : α → α → Bool) (top hole : Nat) (q : Array α) : Prop where
  off : ∀ i, 0 < i → top ≤ (i - 1) / 2 → i ≠ hole → (i - 1) / 2 ≠ hole →
    precedes before q i ((i - 1) / 2) = false
  grand : ∀ i, 0 < i → (i - 1) / 2 = hole → top < hole →
    precedes before q i ((hole - 1) / 2) = false

theorem firstChild_spec (h : Ranked before q) (hchild : 2 * i + 1 < q.size) :
    firstChild before q i < q.size ∧ 0 < firstChild before q i ∧
      (firstChild before q i - 1) / 2 = i ∧
      ∀ j, 0 < j → (j - 1) / 2 = i → precedes before q j (firstChild before q i) = false := by
  unfold firstChild
  dsimp only
  split
  · next hright =>
    simp only [Bool.and_eq_true, decide_eq_true_eq, Bool.not_eq_true'] at hright
    refine ⟨hright.1, by omega, by omega, fun j hj hparent => ?_⟩
    obtain rfl | rfl : j = 2 * i + 1 ∨ j = 2 * i + 1 + 1 := by omega
    · exact hright.2
    · exact h.irrefl _
  · next hleft =>
    refine ⟨hchild, by omega, by omega, fun j hj hparent => ?_⟩
    obtain rfl | rfl : j = 2 * i + 1 ∨ j = 2 * i + 1 + 1 := by omega
    · exact h.irrefl _
    · by_cases hsize : 2 * i + 1 + 1 < q.size
      · exact h.asymm (by simpa [hsize] using hleft)
      · exact precedes_of_size_le (Nat.le_of_not_lt hsize) _

theorem Loose.sink (h : Loose before top hole q) (hranked : Ranked before q)
    (hunder : Under top hole) (hchild : 2 * hole + 1 < q.size) :
    Loose before top (firstChild before q hole)
      (q.swapIfInBounds hole (firstChild before q hole)) := by
  obtain ⟨hsize, hpos, hparent, hfirst⟩ := firstChild_spec hranked hchild
  generalize firstChild before q hole = child at hsize hpos hparent hfirst ⊢
  have htop := hunder.le
  have hhole : hole < q.size := by omega
  constructor
  · intro i hi hle hne hne'
    rw [precedes_swap hhole hsize]
    by_cases hih : i = hole
    · -- The child comes to stand under the parent of the hole.
      subst hih
      rw [Equiv.swap_apply_left, Equiv.swap_apply_of_ne_of_ne (by omega) hne']
      exact h.grand child hpos hparent (by omega)
    · rw [Equiv.swap_apply_of_ne_of_ne hih hne]
      by_cases hph : (i - 1) / 2 = hole
      · rw [hph, Equiv.swap_apply_left]
        exact hfirst i hi hph
      · rw [Equiv.swap_apply_of_ne_of_ne hph hne']
        exact h.off i hi hle hih hph
  · intro i hi hic _
    rw [precedes_swap hhole hsize, hparent, Equiv.swap_apply_left,
      Equiv.swap_apply_of_ne_of_ne (by omega) (by omega)]
    have hoff := h.off i hi (by omega) (by omega) (by omega)
    rwa [hic] at hoff

theorem sink_spec (steps : Nat) (hranked : Ranked before q) (h : Loose before top hole q)
    (hunder : Under top hole) (hsteps : q.size ≤ steps + hole) (hhole : hole ≤ q.size) :
    Loose before top (sink before steps q hole).2 (sink before steps q hole).1 ∧
      Under top (sink before steps q hole).2 ∧ (sink before steps q hole).2 ≤ q.size ∧
      q.size ≤ 2 * (sink before steps q hole).2 + 1 := by
  induction steps generalizing q hole with
  | zero => exact ⟨h, hunder, hhole, by rw [Heap.sink]; omega⟩
  | succ steps ih =>
    rw [Heap.sink]
    split
    · next hchild =>
      obtain ⟨hsize, hpos, hparent, -⟩ := firstChild_spec hranked hchild
      have hnext := ih (hranked.perm (swapIfInBounds_perm q _ _)) (h.sink hranked hunder hchild)
        (.child hpos (hparent.symm ▸ hunder)) (by rw [Array.size_swapIfInBounds]; omega)
        (by rw [Array.size_swapIfInBounds]; omega)
      simpa only [Array.size_swapIfInBounds] using hnext
    · exact ⟨h, hunder, hhole, by omega⟩

/-- The order holds but for the entry at a position, which does not come after those below it. -/
structure Light (before : α → α → Bool) (top hole : Nat) (q : Array α) : Prop
    extends Loose before top hole q where
  below : ∀ i, 0 < i → (i - 1) / 2 = hole → precedes before q i hole = false

theorem Light.rise (h : Light before top hole q) (hranked : Ranked before q)
    (hunder : Under top hole) (hhole : hole < q.size) (hlt : top < hole)
    (hfirst : precedes before q hole ((hole - 1) / 2) = true) :
    Light before top ((hole - 1) / 2) (q.swapIfInBounds hole ((hole - 1) / 2)) := by
  have hup := (hunder.parent hlt).le
  have hback := hranked.asymm hfirst
  have hparent : (hole - 1) / 2 < q.size := by omega
  -- The pairs of the parent are those of an entry off the hole.
  have habove : top < (hole - 1) / 2 →
      precedes before q ((hole - 1) / 2) (((hole - 1) / 2 - 1) / 2) = false := fun htop =>
    h.off _ (by omega) ((hunder.parent hlt).parent htop).le (by omega) (by omega)
  have hsibling (i : Nat) (hi : 0 < i) (hip : (i - 1) / 2 = (hole - 1) / 2) (hne : i ≠ hole) :
      precedes before q i ((hole - 1) / 2) = false := by
    have hoff := h.off i hi (by omega) hne (by omega)
    rwa [hip] at hoff
  refine ⟨⟨?_, ?_⟩, ?_⟩
  · intro i hi hle hne hne'
    have hih : i ≠ hole := fun heq => hne' (by rw [heq])
    rw [precedes_swap hhole hparent, Equiv.swap_apply_of_ne_of_ne hih hne]
    by_cases hph : (i - 1) / 2 = hole
    · rw [hph, Equiv.swap_apply_left]
      exact h.grand i hi hph hlt
    · rw [Equiv.swap_apply_of_ne_of_ne hph hne']
      exact h.off i hi hle hih hph
  · intro i hi hip htop
    rw [precedes_swap hhole hparent,
      Equiv.swap_apply_of_ne_of_ne (x := ((hole - 1) / 2 - 1) / 2) (by omega) (by omega)]
    by_cases hih : i = hole
    · rw [hih, Equiv.swap_apply_left]
      exact habove htop
    · rw [Equiv.swap_apply_of_ne_of_ne hih (by omega)]
      exact hranked.trans hparent (hsibling i hi hip hih) (habove htop)
  · intro i hi hip
    rw [precedes_swap hhole hparent, Equiv.swap_apply_right]
    by_cases hih : i = hole
    · rw [hih, Equiv.swap_apply_left]
      exact hback
    · rw [Equiv.swap_apply_of_ne_of_ne hih (by omega)]
      exact hranked.trans hparent (hsibling i hi hip hih) hback

theorem Light.orderedFrom (h : Light before top hole q)
    (hstop : top < hole → precedes before q hole ((hole - 1) / 2) = false) :
    OrderedFrom before top q := by
  intro i hi hle
  by_cases hih : i = hole
  · subst hih
    exact hstop (by omega)
  · by_cases hph : (i - 1) / 2 = hole
    · rw [hph]
      exact h.below i hi hph
    · exact h.off i hi hle hih hph

theorem orderedFrom_rise {steps : Nat} (hranked : Ranked before q)
    (h : Light before top hole q) (hunder : Under top hole) (hsteps : hole ≤ steps) :
    OrderedFrom before top (rise before top steps q hole) := by
  induction steps generalizing q hole with
  | zero => exact h.orderedFrom fun hlt => by omega
  | succ steps ih =>
    rw [Heap.rise]
    split
    · next hup =>
      simp only [Bool.and_eq_true, decide_eq_true_eq] at hup
      have hhole : hole < q.size := by
        refine Nat.lt_of_not_le fun hle => ?_
        rw [precedes_of_size_le hle] at hup
        cases hup.2
      exact ih (hranked.perm (swapIfInBounds_perm q _ _)) (h.rise hranked hunder hhole hup.1 hup.2)
        (hunder.parent hup.1) (by omega)
    · next hstop =>
      refine h.orderedFrom fun hlt => ?_
      simpa [hlt] using hstop

theorem orderedFrom_settle (hranked : Ranked before q) (h : OrderedFrom before (top + 1) q)
    (htop : top ≤ q.size) : OrderedFrom before top (settle before q top) := by
  have hloose : Loose before top top q :=
    ⟨fun i hi hle _ hne => h i hi (by omega), fun i _ _ hlt => absurd hlt (Nat.lt_irrefl top)⟩
  obtain ⟨hsunk, hunder, hleaf, hsize⟩ :=
    sink_spec q.size hranked hloose .top (Nat.le_add_right _ _) htop
  have hperm := sink_perm before q.size q top
  have hsame : (sink before q.size q top).1.size = q.size := hperm.size_eq
  unfold settle
  refine orderedFrom_rise (hranked.perm hperm) ⟨hsunk, fun i hi hparent => ?_⟩ hunder (by omega)
  exact precedes_of_size_le (by omega) _

theorem orderedFrom_push (hranked : Ranked before (q.push a)) (h : OrderedFrom before 0 q) :
    OrderedFrom before 0 (push before q a) := by
  have hunder (n : Nat) : Under 0 n := by
    induction n using Nat.strongRecOn with
    | ind n ih =>
      rcases Nat.eq_zero_or_pos n with rfl | hn
      · exact .top
      · exact .child hn (ih _ (by omega))
  have hsize : (q.push a).size = q.size + 1 := Array.size_push a
  have hkept (n : Nat) (hn : n < q.size) : (q.push a)[n]? = q[n]? := by
    rw [Array.getElem?_push, if_neg (by omega)]
  refine orderedFrom_rise hranked ⟨⟨?_, ?_⟩, ?_⟩ (hunder _) (Nat.le_succ _)
  · intro i hi _ hne _
    by_cases hlt : i < q.size
    · rw [← h i hi (Nat.zero_le _)]
      exact precedes_congr (hkept i hlt) (hkept _ (by omega))
    · exact precedes_of_size_le (by omega) _
  · intro i _ _ _
    exact precedes_of_size_le (by omega) _
  · intro i _ _
    exact precedes_of_size_le (by omega) _

theorem precedes_first (hranked : Ranked before q) (h : OrderedFrom before 0 q) (i : Nat) :
    precedes before q i 0 = false := by
  induction i using Nat.strongRecOn with
  | ind i ih =>
    rcases Nat.eq_zero_or_pos i with rfl | hi
    · exact hranked.irrefl 0
    · by_cases hsize : i < q.size
      · exact hranked.trans (by omega) (h i hi (Nat.zero_le _)) (ih _ (by omega))
      · exact precedes_of_size_le (Nat.le_of_not_lt hsize) 0

theorem not_before_first (hranked : Ranked before q) (h : OrderedFrom before 0 q)
    (hfirst : q[0]? = some a) : ∀ b ∈ q, before b a = false := by
  intro b hb
  obtain ⟨i, hi, rfl⟩ := Array.mem_iff_getElem.1 hb
  have hprecedes := precedes_first hranked h i
  rwa [precedes, Array.getElem?_eq_getElem hi, hfirst] at hprecedes

theorem orderedFrom_pop? (hranked : Ranked before q) (h : OrderedFrom before 0 q)
    (hpop : pop? before q = some (a, r)) : OrderedFrom before 0 r := by
  have htaken := pop?_perm before hpop
  obtain ⟨b, hb, hpair⟩ := Option.map_eq_some_iff.1 hpop
  obtain ⟨rfl, rfl⟩ := Prod.mk.inj hpair
  obtain ⟨hpos, -⟩ := Array.getElem?_eq_some_iff.1 hb
  obtain ⟨s, hs⟩ : ∃ s, s = (q.swapIfInBounds 0 (q.size - 1)).pop := ⟨_, rfl⟩
  rw [← hs] at htaken ⊢
  have hsize : s.size = q.size - 1 := by simp [hs]
  have hkept (i : Nat) (hi : 0 < i) (hlt : i < s.size) : s[i]? = q[i]? := by
    rw [hs, Array.getElem?_pop, Array.size_swapIfInBounds, if_pos (by omega),
      getElem?_swapIfInBounds hpos (by omega), Equiv.swap_apply_of_ne_of_ne (by omega) (by omega)]
  have hsub : ∀ x ∈ s, x ∈ q := by
    intro x hx
    have hleft := Array.mem_toList_iff.2 ((settle_perm before s 0).mem_iff.2 hx)
    exact Array.mem_toList_iff.1 (htaken.mem_iff.2 (List.mem_cons_of_mem _ hleft))
  refine orderedFrom_settle (hranked.of_subset hsub) (fun i hi hle => ?_) (Nat.zero_le _)
  by_cases hlt : i < s.size
  · rw [← h i hi (Nat.zero_le _)]
    exact precedes_congr (hkept i hi hlt) (hkept _ (by omega) (by omega))
  · exact precedes_of_size_le (Nat.le_of_not_lt hlt) _

theorem orderedFrom_ofArray (hranked : Ranked before q) :
    OrderedFrom before 0 (ofArray before q) := by
  have hleaves : OrderedFrom before (q.size / 2) q :=
    fun i _ hle => precedes_of_size_le (by omega) _
  unfold ofArray
  generalize hn : q.size / 2 = n at hleaves
  have hle : n ≤ q.size := by omega
  clear hn
  induction n generalizing q with
  | zero => exact hleaves
  | succ n ih =>
    rw [List.range_succ, List.foldr_append, List.foldr_cons, List.foldr_nil]
    have hperm := settle_perm before q n
    exact ih (hranked.perm hperm) (orderedFrom_settle hranked hleaves (by omega))
      (by rw [hperm.size_eq]; omega)

theorem OrderedFrom.map {f : α → α} (hf : ∀ a b, before (f a) (f b) = before a b)
    (h : OrderedFrom before top q) : OrderedFrom before top (q.map f) := by
  intro i hi hle
  rw [← h i hi hle]
  unfold precedes
  rw [Array.getElem?_map, Array.getElem?_map]
  cases q[i]? <;> cases q[(i - 1) / 2]? <;> simp [hf]

end TapeLab.Heap
