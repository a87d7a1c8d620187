/-!
Binary heaps in arrays. The children of the entry at position `i` stand at `2 * i + 1` and
`2 * i + 2`, and no child comes before its parent, so that nothing comes before the entry at
position 0. Which of several such entries stands there is settled by how the heap was filled and
emptied. All that the operations do is to swap entries.
-/

namespace TapeLab.Heap

variable {α : Type} (before : α → α → Bool)

def precedes (q : Array α) (i j : Nat) : Bool :=
  match q[i]?, q[j]? with
  | some a, some b => before a b
  | _, _ => false

def rise (top : Nat) : Nat → Array α → Nat → Array α
  | 0, q, _ => q
  | steps + 1, q, i =>
    let parent := (i - 1) / 2
    if top < i && precedes before q i parent then
      rise top steps (q.swapIfInBounds i parent) parent
    else q

/-- The child that comes first. Of two children that stand in no order it is the second one. -/
def firstChild (q : Array α) (i : Nat) : Nat :=
  let left := 2 * i + 1
  if left + 1 < q.size && !precedes before q left (left + 1) then left + 1 else left

/-- Moves the entry at a position down to a leaf, and tells where that is. -/
def sink : Nat → Array α → Nat → Array α × Nat
  | 0, q, i => (q, i)
  | steps + 1, q, i =>
    if 2 * i + 1 < q.size then
      let child := firstChild before q i
      sink steps (q.swapIfInBounds i child) child
    else (q, i)

/-- Brings the entry at a position to its place below: down to a leaf and up again. -/
def settle (q : Array α) (i : Nat) : Array α :=
  let (r, leaf) := sink before q.size q i
  rise before i r.size r leaf

def push (q : Array α) (a : α) : Array α := rise before 0 (q.size + 1) (q.push a) q.size

def pop? (q : Array α) : Option (α × Array α) :=
  (q[0]?).map fun a => (a, settle before (q.swapIfInBounds 0 (q.size - 1)).pop 0)

def ofArray (q : Array α) : Array α :=
  (List.range (q.size / 2)).foldr (fun i q => settle before q i) q

theorem swapIfInBounds_perm (q : Array α) (i j : Nat) : (q.swapIfInBounds i j).Perm q := by
  unfold Array.swapIfInBounds
  split
  · split
    · exact Array.swap_perm _ _
    · exact Array.Perm.refl q
  · exact Array.Perm.refl q

theorem rise_perm (top steps : Nat) (q : Array α) (i : Nat) :
    (rise before top steps q i).Perm q := by
  induction steps generalizing q i with
  | zero => exact Array.Perm.refl q
  | succ steps ih =>
    simp only [rise]
    split
    · exact (ih _ _).trans (swapIfInBounds_perm q _ _)
    · exact Array.Perm.refl q

theorem sink_perm (steps : Nat) (q : Array α) (i : Nat) : (sink before steps q i).1.Perm q := by
  induction steps generalizing q i with
  | zero => exact Array.Perm.refl q
  | succ steps ih =>
    simp only [sink]
    split
    · exact (ih _ _).trans (swapIfInBounds_perm q _ _)
    · exact Array.Perm.refl q

theorem settle_perm (q : Array α) (i : Nat) : (settle before q i).Perm q :=
  (rise_perm before i _ _ _).trans (sink_perm before _ q i)

theorem push_perm (q : Array α) (a : α) : (push before q a).Perm (q.push a) :=
  rise_perm before 0 _ _ _

end TapeLab.Heap
