import TapeLab.RuleTable

/-!
Tapes: a row of cells that is never empty and grows by a blank cell where the head leaves it.
-/

namespace TapeLab

structure Tape where
  cells : List Symbol
  cells_ne_nil : cells ≠ []
  deriving DecidableEq, Repr

inductive TapeError
  | noCell (index : Int)
  deriving DecidableEq, Repr

def TapeError.message : TapeError → String
  | .noCell _ => "list assignment index out of range"

namespace Tape

/-- The tape with the given cells, or with one blank cell if there are none. -/
def ofCells : List Symbol → Tape
  | [] => ⟨[blank], by simp⟩
  | c :: cs => ⟨c :: cs, by simp⟩

@[simp] theorem ofCells_cells (t : Tape) : ofCells t.cells = t := by
  obtain ⟨cells, h⟩ := t
  cases cells with
  | nil => exact absurd rfl h
  | cons c cs => rfl

theorem cells_ofCells {cells : List Symbol} (h : cells ≠ []) : (ofCells cells).cells = cells := by
  cases cells with
  | nil => exact absurd rfl h
  | cons c cs => rfl

def size (t : Tape) : Nat := t.cells.length

theorem size_pos (t : Tape) : 0 < t.size := List.length_pos_iff.2 t.cells_ne_nil

def read (t : Tape) (index : Int) : Symbol :=
  if 0 ≤ index then t.cells.getD index.toNat blank else blank

def set (t : Tape) (i : Nat) (s : Symbol) : Tape :=
  ⟨t.cells.set i s, by simpa using t.cells_ne_nil⟩

/-- Writes into a cell. A negative index counts from the end. -/
def write (t : Tape) (index : Int) (s : Symbol) : Except TapeError Tape :=
  match position? t.size index with
  | some i => .ok (t.set i s)
  | none => .error (.noCell index)

def prepend (t : Tape) : Tape := ⟨blank :: t.cells, by simp⟩

def append (t : Tape) : Tape := ⟨t.cells ++ [blank], by simp⟩

/-- Makes room for a head that left the tape, by one blank cell at that end, and answers where the
head is then. -/
def settle (t : Tape) (index : Int) : Tape × Int :=
  if index < 0 then (t.prepend, 0)
  else if t.size ≤ index then (t.append, index)
  else (t, index)

def setCell? (t : Tape) (index : Int) (text : String) : Option Tape :=
  if 0 ≤ index ∧ index < t.size then (readSymbol? text).map (t.set index.toNat) else none

def dropLast? (t : Tape) : Option Tape :=
  if h : 1 < t.size then
    some ⟨t.cells.dropLast, by
      intro hd
      have := congrArg List.length hd
      simp only [List.length_dropLast, List.length_nil] at this
      unfold size at h
      omega⟩
  else none

def written (t : Tape) : List Symbol := TapeLab.written t.cells

def clamp (t : Tape) (index : Int) : Int := min (max index 0) (t.size - 1)

end Tape

end TapeLab
