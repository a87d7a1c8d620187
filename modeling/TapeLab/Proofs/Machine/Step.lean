import TapeLab.Machine
import TapeLab.Proofs.Tape

/-!
What one step does. Either there is a rule that applies, and the step leaves the machine
`applied` by it, or there is none, and the step halts the machine and leaves its tape, its head, its
state, its count of steps and its history alone.
-/

namespace TapeLab.Machine

def OnTape (m : Machine) : Prop := 0 ≤ m.head ∧ m.head < m.tape.size

instance (m : Machine) : Decidable m.OnTape := inferInstanceAs (Decidable (_ ∧ _))

def rule? (m : Machine) : Option Rule :=
  if m.halted ∨ m.state = haltState then none else m.rules.lookup m.state m.symbol

def applied (m : Machine) (r : Rule) : Machine :=
  moveOn { m.unmarked with history := m.history.push m.snapshot } r
    (m.tape.set m.head.toNat r.write)

variable {m : Machine} {r : Rule}

theorem rule?_eq_some_iff :
    m.rule? = some r ↔
      m.halted = false ∧ m.state ≠ haltState ∧ m.rules.lookup m.state m.symbol = some r := by
  unfold rule?
  split
  · next h => rcases h with h | h <;> simp [h]
  · next h => simp_all

theorem rule?_eq_none_iff :
    m.rule? = none ↔
      m.halted = true ∨ m.state = haltState ∨ m.rules.lookup m.state m.symbol = none := by
  unfold rule?
  split
  · next h => rcases h with h | h <;> simp [h]
  · next h => simp_all

@[simp] theorem unmarked_rules : m.unmarked.rules = m.rules := rfl

@[simp] theorem unmarked_tape : m.unmarked.tape = m.tape := rfl

@[simp] theorem unmarked_head : m.unmarked.head = m.head := rfl

@[simp] theorem unmarked_state : m.unmarked.state = m.state := rfl

@[simp] theorem unmarked_halted : m.unmarked.halted = m.halted := rfl

@[simp] theorem unmarked_symbol : m.unmarked.symbol = m.symbol := rfl

theorem step_of_rule (hon : m.OnTape) (h : m.rule? = some r) :
    m.step = (m.applied r, .ok (r.next != haltState)) := by
  obtain ⟨hhalted, hstate, hlookup⟩ := rule?_eq_some_iff.1 h
  have hwrite := m.tape.write_eq_set r.write hon.1 hon.2
  simp only [step, unmarked_halted, hhalted, unmarked_state, if_neg hstate, unmarked_rules,
    unmarked_symbol, hlookup, unmarked_tape, unmarked_head, hwrite, Bool.false_eq_true, if_false]
  simp only [applied, unmarked, hhalted]
  rfl

theorem step_of_no_rule (h : m.rule? = none) :
    ∃ message lastStep, m.step =
      ({ m.unmarked with halted := true, message := message, lastStep := lastStep },
        .ok false) := by
  by_cases hhalted : m.halted = true
  · exact ⟨m.message, m.lastStep, by simp [step, unmarked, hhalted]⟩
  · by_cases hstate : m.state = haltState
    · exact ⟨m.message, m.lastStep, by simp [step, unmarked, hhalted, hstate]⟩
    · have hlookup : m.rules.lookup m.state m.symbol = none := by
        rcases rule?_eq_none_iff.1 h with h | h | h
        · exact absurd h hhalted
        · exact absurd h hstate
        · exact h
      refine ⟨m.unmarked.miss.message, m.unmarked.miss.lastStep, ?_⟩
      simp only [step, unmarked_halted, if_neg hhalted, unmarked_state, if_neg hstate,
        unmarked_rules, unmarked_symbol, hlookup]
      rfl

theorem step_rules (m : Machine) : m.step.1.rules = m.rules := by
  unfold step
  dsimp only
  repeat' split
  all_goals rfl

theorem active_of_step_error {n : Machine} {e : TapeError} (h : m.step = (n, .error e)) :
    n.active = none := by
  unfold step at h
  dsimp only at h
  split at h
  · cases h
  · split at h
    · cases h
    · split at h
      · cases h
      · split at h
        · cases h; rfl
        · cases h

@[simp] theorem applied_rules : (m.applied r).rules = m.rules := rfl

@[simp] theorem applied_state : (m.applied r).state = r.next := rfl

@[simp] theorem applied_steps : (m.applied r).steps = m.steps + 1 := rfl

@[simp] theorem applied_history : (m.applied r).history = m.history.push m.snapshot := rfl

@[simp] theorem applied_halted : (m.applied r).halted = (m.halted || r.next == haltState) := rfl

@[simp] theorem applied_active : (m.applied r).active = some r := rfl

@[simp] theorem applied_won : (m.applied r).won = m.won := rfl

theorem offset_bounds (v : Move) : -1 ≤ v.offset ∧ v.offset ≤ 1 := by
  cases v <;> decide

theorem applied_onTape (hon : m.OnTape) : (m.applied r).OnTape := by
  have hoffset := offset_bounds r.move
  have hon' := hon
  unfold OnTape at hon'
  refine Tape.settle_onTape (t := m.tape.set m.head.toNat r.write) (p := m.head + r.move.offset) ?_
  rw [Tape.size_set]
  omega

theorem read_applied (hon : m.OnTape) (k : Int) :
    (m.applied r).tape.read ((m.applied r).head + k) =
      if k + r.move.offset = 0 then r.write else m.tape.read (m.head + (k + r.move.offset)) := by
  obtain ⟨hpos, hlt⟩ := hon
  have hoffset := offset_bounds r.move
  calc
    _ = (m.tape.set m.head.toNat r.write).read (m.head + r.move.offset + k) :=
      Tape.read_settle (by omega) k
    _ = _ := by
      rw [Tape.read_set _ _ (by omega)]
      have hplace : m.head + r.move.offset + k = m.head + (k + r.move.offset) := by omega
      rw [hplace]
      by_cases hk : k + r.move.offset = 0
      · rw [if_pos hk, if_pos (by omega)]
      · rw [if_neg hk, if_neg (by omega)]

end TapeLab.Machine
