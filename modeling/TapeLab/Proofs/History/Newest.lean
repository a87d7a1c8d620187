import TapeLab.Proofs.History

/-!
A bounded stack beside one that forgets nothing, the two being used alike. However they are used,
the bounded one holds the newest entries of the other, so that what it gives back is what the other
would give back, and it gives back all it was promised to keep.
-/

namespace TapeLab.History

variable {α : Type} {h : History α} {all newest pushed l : List α} {a : α}

inductive Use (α : Type) where
  | push (a : α)
  | pop
  | clear
  deriving DecidableEq, Repr

def perform (h : History α) : Use α → Option α × History α
  | .push a => (none, h.push a)
  | .pop =>
    match h.pop? with
    | none => (none, h)
    | some (a, rest) => (some a, rest)
  | .clear => (none, h.clear)

def performAll (h : History α) : List (Use α) → List (Use α × Option α) × History α
  | [] => ([], h)
  | u :: us =>
    let (taken, next) := h.perform u
    let (record, last) := next.performAll us
    ((u, taken) :: record, last)

def Use.follow (all : List α) : Use α × Option α → List α
  | (.push a, _) => a :: all
  | (.pop, some _) => all.tail
  | (.pop, none) => all
  | (.clear, _) => []

def used (b : Bounds) (us : List (Use α)) : History α := ((empty b).performAll us).2

/-- What would be there after these uses if nothing were ever forgotten, the newest entry first. -/
def unbounded (b : Bounds) (us : List (Use α)) : List α :=
  ((empty b).performAll us).1.foldl Use.follow []

theorem perform_pop_of_cons (hentries : h.entries = a :: l) :
    h.perform .pop = (some a, { h with entries := l }) := by
  have hpop : h.pop? = some (a, { h with entries := l }) := pop?_eq_some_iff.2 ⟨hentries, rfl⟩
  simp only [perform, hpop]

theorem perform_pop_of_nil (hentries : h.entries = []) : h.perform .pop = (none, h) := by
  have hpop : h.pop? = none := by rw [pop?, hentries]
  simp only [perform, hpop]

theorem perform_pop_eq_head? (h : History α) : (h.perform .pop).1 = h.entries.head? := by
  cases hentries : h.entries with
  | nil => rw [perform_pop_of_nil hentries, List.head?_nil]
  | cons a l => rw [perform_pop_of_cons hentries, List.head?_cons]

@[simp] theorem bounds_perform (h : History α) (u : Use α) : (h.perform u).2.bounds = h.bounds := by
  cases u with
  | push a => exact bounds_push
  | pop =>
    cases hentries : h.entries with
    | nil => rw [perform_pop_of_nil hentries]
    | cons a l => rw [perform_pop_of_cons hentries]
  | clear => rfl

theorem performAll_cons (h : History α) (u : Use α) (us : List (Use α)) :
    h.performAll (u :: us) =
      ((u, (h.perform u).1) :: ((h.perform u).2.performAll us).1,
        ((h.perform u).2.performAll us).2) :=
  rfl

theorem performAll_append (h : History α) (us vs : List (Use α)) :
    h.performAll (us ++ vs) =
      ((h.performAll us).1 ++ ((h.performAll us).2.performAll vs).1,
        ((h.performAll us).2.performAll vs).2) := by
  induction us generalizing h with
  | nil => rfl
  | cons u us ih => simp only [List.cons_append, performAll_cons, ih]

@[simp] theorem bounds_performAll (h : History α) (us : List (Use α)) :
    (h.performAll us).2.bounds = h.bounds := by
  induction us generalizing h with
  | nil => rfl
  | cons u us ih => rw [performAll_cons, ih, bounds_perform]

/-- The stack is within its bounds, and it holds the newest of the entries that would be there if
nothing had been forgotten. -/
structure HoldsNewest (h : History α) (all : List α) : Prop where
  size_le : h.size ≤ h.bounds.cap
  newest : h.entries <+: all

theorem HoldsNewest.push (hholds : h.HoldsNewest all) (a : α) :
    (h.push a).HoldsNewest (a :: all) where
  size_le := by
    rw [bounds_push]
    exact size_push_le hholds.size_le
  newest := by
    -- however much is forgotten, it lies below all that stays
    obtain ⟨n, hentries, -⟩ := h.entries_push a
    rw [hentries, List.cons_prefix_cons]
    exact ⟨rfl, (List.take_prefix n h.entries).trans hholds.newest⟩

theorem HoldsNewest.perform (hholds : h.HoldsNewest all) (u : Use α) :
    (h.perform u).2.HoldsNewest (Use.follow all (u, (h.perform u).1)) := by
  cases u with
  | push a => exact hholds.push a
  | pop =>
    cases hentries : h.entries with
    | nil =>
      rw [perform_pop_of_nil hentries]
      exact hholds
    | cons a l =>
      obtain ⟨hsize, hnewest⟩ := hholds
      rw [size, hentries, List.length_cons] at hsize
      rw [hentries] at hnewest
      obtain ⟨older, rfl⟩ := hnewest
      rw [perform_pop_of_cons hentries]
      exact ⟨Nat.le_of_succ_le hsize, List.prefix_append l older⟩
  | clear => exact ⟨Nat.zero_le _, List.nil_prefix⟩

theorem HoldsNewest.performAll (hholds : h.HoldsNewest all) (us : List (Use α)) :
    (h.performAll us).2.HoldsNewest ((h.performAll us).1.foldl Use.follow all) := by
  induction us generalizing h all with
  | nil => exact hholds
  | cons u us ih =>
    rw [performAll_cons, List.foldl_cons]
    exact ih (hholds.perform u)

theorem holdsNewest_used (b : Bounds) (us : List (Use α)) :
    (used b us).HoldsNewest (unbounded b us) :=
  HoldsNewest.performAll (h := empty b) ⟨Nat.zero_le _, List.nil_prefix⟩ us

theorem performAll_pushes (hnewest : newest <+: h.entries)
    (hlength : newest.length + pushed.length ≤ h.bounds.cap - h.bounds.drop + 1) :
    (h.performAll (pushed.map .push)).1 = pushed.map (fun a => (.push a, none)) ∧
    pushed.reverse ++ newest <+: (h.performAll (pushed.map .push)).2.entries := by
  induction pushed generalizing h newest with
  | nil => exact ⟨rfl, hnewest⟩
  | cons a later ih =>
    -- the new entry joins those that the later pushes must not reach
    rw [List.length_cons] at hlength
    have hpush : a :: newest <+: (h.push a).entries := prefix_push hnewest (by omega)
    have hrest : (a :: newest).length + later.length ≤
        (h.push a).bounds.cap - (h.push a).bounds.drop + 1 := by
      rw [bounds_push, List.length_cons]
      omega
    obtain ⟨hrecord, hkept⟩ := ih hpush hrest
    rw [List.map_cons, performAll_cons, List.map_cons, List.reverse_cons, List.append_assoc]
    exact ⟨congrArg ((.push a, none) :: ·) hrecord, hkept⟩

theorem performAll_pops (hnewest : newest <+: h.entries) :
    (h.performAll (List.replicate newest.length .pop)).1 =
      newest.map fun a => (.pop, some a) := by
  induction newest generalizing h with
  | nil => rfl
  | cons a rest ih =>
    obtain ⟨older, holder⟩ := hnewest
    have hbelow : rest <+: ({ h with entries := rest ++ older } : History α).entries :=
      List.prefix_append rest older
    rw [List.length_cons, List.replicate_succ, performAll_cons,
      perform_pop_of_cons (l := rest ++ older) holder.symm]
    exact congrArg ((.pop, some a) :: ·) (ih hbelow)

theorem performAll_pushes_pops (hlength : pushed.length ≤ h.bounds.cap - h.bounds.drop + 1) :
    (h.performAll (pushed.map .push ++ List.replicate pushed.length .pop)).1 =
      pushed.map (fun a => (.push a, none)) ++
        pushed.reverse.map fun a => (.pop, some a) := by
  obtain ⟨hrecord, hkept⟩ := performAll_pushes (h := h) List.nil_prefix (by simpa using hlength)
  rw [List.append_nil] at hkept
  have hpops := performAll_pops hkept
  rw [List.length_reverse] at hpops
  rw [performAll_append, hrecord, hpops]

/-- However a new stack is used, it stays within its bounds and holds, in order, the newest entries
of the stack that forgets nothing, so that a pop that finds an entry takes the newest one there. As
many pushes as the bounds promise to keep are all taken back by as many pops, and looking back shows
the newest entries, the newest first. -/
theorem used_holds_newest (b : Bounds) (us : List (Use α)) :
    (used b us).size ≤ b.cap ∧
    (used b us).toList <:+ (unbounded b us).reverse ∧
    (∀ a, ((used b us).perform .pop).1 = some a → (unbounded b us).head? = some a) ∧
    (∀ pushed : List α, pushed.length ≤ b.cap - b.drop + 1 →
      ((used b us).performAll (pushed.map .push ++ List.replicate pushed.length .pop)).1 =
        pushed.map (fun a => (.push a, none)) ++
          pushed.reverse.map fun a => (.pop, some a)) ∧
    ∀ n : Nat, (used b us).recent n = (used b us).toList.reverse.take n := by
  have hbounds : (used b us).bounds = b := bounds_performAll (empty b) us
  obtain ⟨hsize, hnewest⟩ := holdsNewest_used b us
  rw [hbounds] at hsize
  refine ⟨hsize, List.reverse_suffix.2 hnewest, fun a htaken => ?_, fun pushed hlength => ?_,
    fun n => recent_natCast _ n⟩
  · rw [perform_pop_eq_head?, ← List.singleton_prefix_iff_head?_eq_some] at htaken
    exact List.singleton_prefix_iff_head?_eq_some.1 (htaken.trans hnewest)
  · refine performAll_pushes_pops ?_
    rwa [hbounds]

def threeAtMost : Bounds := ⟨3, 2, by decide, by decide⟩

def lossyUses : List (Use Nat) :=
  [.push 1, .push 2, .push 3, .push 4, .pop, .pop, .pop, .push 5]

theorem lossy_holds_newest :
    (used threeAtMost lossyUses).toList = [5] ∧
    unbounded threeAtMost lossyUses = [5, 2, 1] ∧
    (used threeAtMost lossyUses).toList <:+ (unbounded threeAtMost lossyUses).reverse ∧
    (unbounded threeAtMost lossyUses).head? = some 5 ∧
    [6, 7].length = threeAtMost.cap - threeAtMost.drop + 1 ∧
    ((used threeAtMost lossyUses).performAll [.push 6, .push 7, .pop, .pop]).1 =
      [(.push 6, none), (.push 7, none), (.pop, some 7), (.pop, some 6)] := by
  obtain ⟨-, hnewest, hpop, hpushes, -⟩ := used_holds_newest threeAtMost lossyUses
  exact ⟨rfl, rfl, hnewest, hpop 5 rfl, rfl, hpushes [6, 7] (by decide)⟩

end TapeLab.History
