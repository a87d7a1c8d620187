import TapeLab.Proofs.Machine.Step

/-!
What a step does to the single cells. After a step by a rule the tape is what it was, with one
symbol written, and with one blank cell more where the head has left it. Where that cell is put in
front, all others stand one place further to the right, and so does the place that tells what was
written.
-/

namespace TapeLab

theorem Tape.cells_settle (t : Tape) (p : Int) :
    (t.settle p).1.cells = List.replicate (if p < 0 then 1 else 0) blank ++
      (t.cells ++ List.replicate (if t.size ≤ p then 1 else 0) blank) := by
  unfold settle
  split
  · next hneg =>
    have hsize : ¬ (t.size : Int) ≤ p := by omega
    simp [hsize, prepend]
  · split
    · simp [append]
    · simp

theorem Tape.head_settle (t : Tape) (p : Int) : (t.settle p).2 = if p < 0 then 0 else p := by
  unfold settle
  split
  · rfl
  · split <;> rfl

namespace Machine

variable {m : Machine} {r : Rule}

def cellsBefore (m : Machine) (r : Rule) : Nat := if m.head = 0 ∧ r.move = .left then 1 else 0

def cellsBehind (m : Machine) (r : Rule) : Nat :=
  if m.head + 1 = m.tape.size ∧ r.move = .right then 1 else 0

theorem target_neg_iff (hon : m.OnTape) :
    m.head + r.move.offset < 0 ↔ m.head = 0 ∧ r.move = .left := by
  have hpos := hon.1
  cases r.move <;> simp [Move.offset] <;> omega

theorem size_le_target_iff (hon : m.OnTape) :
    (m.tape.size : Int) ≤ m.head + r.move.offset ↔
      m.head + 1 = m.tape.size ∧ r.move = .right := by
  have hlt := hon.2
  cases r.move <;> simp [Move.offset] <;> omega

theorem cellsBefore_pos_iff : 0 < m.cellsBefore r ↔ m.head = 0 ∧ r.move = .left := by
  unfold cellsBefore
  split <;> simp_all

theorem cellsBehind_pos_iff :
    0 < m.cellsBehind r ↔ m.head + 1 = m.tape.size ∧ r.move = .right := by
  unfold cellsBehind
  split <;> simp_all

theorem cellsBefore_add_cellsBehind (m : Machine) (r : Rule) :
    m.cellsBefore r + m.cellsBehind r =
      if m.head = 0 ∧ r.move = .left ∨ m.head + 1 = m.tape.size ∧ r.move = .right
        then 1 else 0 := by
  unfold cellsBefore cellsBehind
  cases r.move <;> simp

theorem changed_applied (hon : m.OnTape) :
    (m.applied r).changed = some (m.head + m.cellsBefore r) := by
  have hchanged : (m.applied r).changed =
      some (if m.head + r.move.offset < 0 then m.head + 1 else m.head) := rfl
  rw [hchanged, cellsBefore]
  simp only [target_neg_iff hon]
  split <;> simp

theorem head_applied (hon : m.OnTape) :
    (m.applied r).head = m.head + m.cellsBefore r + r.move.offset := by
  have hhead : (m.applied r).head =
      ((m.tape.set m.head.toNat r.write).settle (m.head + r.move.offset)).2 := rfl
  rw [hhead, Tape.head_settle, cellsBefore]
  simp only [target_neg_iff hon]
  split
  · next h => simp [h, Move.offset]
  · simp

theorem cells_applied (hon : m.OnTape) :
    (m.applied r).tape.cells = List.replicate (m.cellsBefore r) blank ++
      (m.tape.cells.set m.head.toNat r.write ++ List.replicate (m.cellsBehind r) blank) := by
  have hsettle := (m.tape.set m.head.toNat r.write).cells_settle (m.head + r.move.offset)
  simp only [Tape.size_set, target_neg_iff hon, size_le_target_iff hon] at hsettle
  exact hsettle

theorem size_applied (hon : m.OnTape) :
    (m.applied r).tape.size = m.tape.size + m.cellsBefore r + m.cellsBehind r := by
  simp only [Tape.size, cells_applied hon, List.length_append, List.length_replicate,
    List.length_set]
  omega

theorem cells_applied_of_lt (hon : m.OnTape) {i : Nat} (hi : i < m.tape.size) :
    (m.applied r).tape.cells[i + m.cellsBefore r]? =
      if (i : Int) = m.head then some r.write else m.tape.cells[i]? := by
  have hpos := hon.1
  have hplace : m.head.toNat = i ↔ (i : Int) = m.head := by omega
  have hlt : i < m.tape.cells.length := hi
  rw [cells_applied hon, List.getElem?_append_right (by simp), List.length_replicate,
    Nat.add_sub_cancel, List.getElem?_append_left (by simpa using hlt), List.getElem?_set]
  simp only [hplace]
  split
  · next h => simp [hplace.2 h, hlt]
  · rfl

theorem cells_applied_of_added (hon : m.OnTape) {j : Nat} (hj : j < (m.applied r).tape.size)
    (hadded : j < m.cellsBefore r ∨ m.tape.size + m.cellsBefore r ≤ j) :
    (m.applied r).tape.cells[j]? = some blank ∧ (m.applied r).head = j ∧
      (r.move = .left ∧ m.head = 0 ∧ j = 0 ∨
        r.move = .right ∧ m.head + 1 = m.tape.size ∧ j + 1 = (m.applied r).tape.size) := by
  have hsize := size_applied (r := r) hon
  have hone : m.cellsBefore r + m.cellsBehind r ≤ 1 := by
    rw [cellsBefore_add_cellsBehind]
    split <;> omega
  have hhead := head_applied (r := r) hon
  rw [cells_applied hon]
  rcases hadded with hfront | hbehind
  · obtain ⟨hzero, hleft⟩ := cellsBefore_pos_iff.1 (Nat.zero_lt_of_lt hfront)
    rw [List.getElem?_append_left (by simpa using hfront), List.getElem?_replicate_of_lt hfront]
    rw [hleft, Move.offset] at hhead
    exact ⟨rfl, by omega, .inl ⟨hleft, hzero, by omega⟩⟩
  · obtain ⟨hlast, hright⟩ := cellsBehind_pos_iff.1 (show 0 < m.cellsBehind r by omega)
    have hlength : (m.tape.cells.set m.head.toNat r.write).length = m.tape.size :=
      List.length_set
    rw [List.getElem?_append_right (by simp; omega), List.length_replicate,
      List.getElem?_append_right (by omega), hlength, List.getElem?_replicate_of_lt (by omega)]
    rw [hright, Move.offset] at hhead
    exact ⟨rfl, by omega, .inr ⟨hright, hlast, by omega⟩⟩

/-- A step by a rule keeps every cell but the one under the head, to which it writes. All cells
stand where they stood, or one place to the right of it if the head goes to the left from the first
one; the place that is marked as changed is the one that was written. If there is a cell more, it is
blank, and the head stands on it, at the end that it went off. A step without a rule leaves tape,
head, state, count and history alone, and no mark. -/
theorem step_keeps_other_cells (m : Machine) :
    (m.OnTape → ∀ r, m.rule? = some r → ∃ shift place : Nat,
      shift = (if m.head = 0 ∧ r.move = .left then 1 else 0) ∧ (place : Int) = m.head + shift ∧
      m.step.1.changed = some (place : Int) ∧ m.step.1.tape.cells[place]? = some r.write ∧
      m.step.1.tape.size = m.tape.size +
        (if m.head = 0 ∧ r.move = .left ∨ m.head + 1 = m.tape.size ∧ r.move = .right
          then 1 else 0) ∧
      (∀ i : Nat, i < m.tape.size → (i : Int) ≠ m.head →
        m.step.1.tape.cells[i + shift]? = m.tape.cells[i]?) ∧
      ∀ j, j < m.step.1.tape.size → j < shift ∨ m.tape.size + shift ≤ j →
        m.step.1.tape.cells[j]? = some blank ∧ m.step.1.head = j ∧
        (r.move = .left ∧ m.head = 0 ∧ j = 0 ∨
          r.move = .right ∧ m.head + 1 = m.tape.size ∧ j + 1 = m.step.1.tape.size)) ∧
    (m.rule? = none →
      m.step.1.tape = m.tape ∧ m.step.1.head = m.head ∧ m.step.1.state = m.state ∧
      m.step.1.steps = m.steps ∧ m.step.1.history = m.history ∧
      m.step.1.changed = none ∧ m.step.1.active = none) := by
  refine ⟨fun hon r hrule => ?_, fun hrule => ?_⟩
  · rw [step_of_rule hon hrule]
    have hpos := hon.1
    have hsize := size_applied (r := r) hon
    have hplace : ((m.head.toNat + m.cellsBefore r : Nat) : Int) = m.head + m.cellsBefore r := by
      omega
    refine ⟨m.cellsBefore r, m.head.toNat + m.cellsBefore r, rfl, hplace, ?_, ?_, ?_,
      fun i hi hne => ?_, fun j hj hadded => ?_⟩
    · rw [hplace]
      exact changed_applied hon
    · have hlt := hon.2
      rw [cells_applied_of_lt hon (by omega), if_pos (by omega)]
    · rw [hsize, Nat.add_assoc, cellsBefore_add_cellsBehind]
    · rw [cells_applied_of_lt hon hi, if_neg hne]
    · exact cells_applied_of_added hon hj hadded
  · obtain ⟨message, lastStep, hstep⟩ := step_of_no_rule hrule
    rw [hstep]
    exact ⟨rfl, rfl, rfl, rfl, rfl, rfl, rfl⟩

/-- A machine whose only cell is the first one and the last one, on its way to the left, and then
without a rule. -/
theorem leftward_keeps_other_cells :
    ∃ (m : Machine) (r : Rule), m.OnTape ∧ m.rule? = some r ∧ m.head = 0 ∧ r.move = .left ∧
      m.tape.cells = ["0"] ∧ m.step.1.changed = some 1 ∧ m.step.1.tape.cells[1]? = some "1" ∧
      m.step.1.tape.cells[0]? = some blank ∧ m.step.1.head = 0 ∧
      m.step.1.rule? = none ∧ m.step.1.step.1.tape = m.step.1.tape ∧
      m.step.1.step.1.changed = none := by
  obtain ⟨m, hm⟩ : ∃ m, m = start ⟨[⟨initialState, "0", "1", .left, initialState⟩]⟩
    (.ofCells ["0"]) 0 initialState 0 .default := ⟨_, rfl⟩
  have hon : m.OnTape := by rw [hm]; decide
  have hrule : m.rule? = some ⟨initialState, "0", "1", .left, initialState⟩ := by
    rw [hm]; decide
  have hhead : m.head = 0 := by rw [hm]; rfl
  have hcells : m.tape.cells = ["0"] := by rw [hm]; rfl
  obtain ⟨shift, place, hshift, hplace, hchanged, hwritten, -, -, hadded⟩ :=
    m.step_keeps_other_cells.1 hon _ hrule
  rw [hhead, if_pos ⟨rfl, rfl⟩] at hshift
  obtain rfl : place = 1 := by omega
  obtain ⟨hblank, hzero, -⟩ := hadded 0 (Tape.size_pos _) (.inl (by omega))
  have hnone : m.step.1.rule? = none := by rw [hm]; decide
  obtain ⟨htape, -, -, -, -, hunchanged, -⟩ := m.step.1.step_keeps_other_cells.2 hnone
  exact ⟨m, _, hon, hrule, hhead, rfl, hcells, hchanged, hwritten, hblank, hzero, hnone, htape,
    hunchanged⟩

end Machine

end TapeLab
