/-!
Bounded undo stacks. A stack that is full forgets its oldest entries, several at a time, before it
takes another one.
-/

namespace TapeLab

namespace History

/-- How many entries are kept at most, and how many are forgotten at once. -/
structure Bounds where
  cap : Nat
  drop : Nat
  drop_pos : 0 < drop
  drop_le_cap : drop ≤ cap
  deriving DecidableEq, Repr

structure BoundsError where
  cap : Int
  drop : Int
  deriving DecidableEq, Repr

def BoundsError.message (e : BoundsError) : String :=
  s!"Cannot drop {e.drop} of at most {e.cap} entries"

def Bounds.default : Bounds := ⟨500, 100, by decide, by decide⟩

def Bounds.ofInts (cap drop : Int) : Except BoundsError Bounds :=
  if h : 0 < drop ∧ drop ≤ cap then .ok ⟨cap.toNat, drop.toNat, by omega, by omega⟩
  else .error ⟨cap, drop⟩

end History

structure History (α : Type) where
  bounds : History.Bounds
  /-- The newest entry comes first. -/
  entries : List α
  deriving DecidableEq, Repr

namespace History

variable {α : Type}

def empty (b : Bounds) : History α := ⟨b, []⟩

def size (h : History α) : Nat := h.entries.length

def toList (h : History α) : List α := h.entries.reverse

def trim (h : History α) : History α :=
  if h.bounds.cap ≤ h.size then { h with entries := h.entries.take (h.size - h.bounds.drop) } else h

def push (h : History α) (a : α) : History α :=
  let room := h.trim
  { room with entries := a :: room.entries }

def pop? (h : History α) : Option (α × History α) :=
  match h.entries with
  | [] => none
  | a :: rest => some (a, { h with entries := rest })

def clear (h : History α) : History α := { h with entries := [] }

/-- The newest `count` entries, the newest first. A negative count asks for all entries but as many
of the oldest. -/
def recent (h : History α) (count : Int) : List α :=
  if 0 ≤ count then h.entries.take count.toNat
  else h.entries.take (h.size - (-count).toNat)

end History

end TapeLab
