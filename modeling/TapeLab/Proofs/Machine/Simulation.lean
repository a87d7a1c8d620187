import TapeLab.Proofs.Machine.Step
import TapeLab.Proofs.Textbook

/-!
A machine on its finite tape against the machine of the textbooks. What counts of the finite tape is
`view`, the symbols as seen from the head: growing at either end leaves it alone. One step is one
transition or the end of the run, and any number of steps makes as many transitions as there are, up
to that number.
-/

namespace TapeLab.Machine

open Textbook

def view (m : Machine) (k : Int) : Symbol := m.tape.read (m.head + k)

def config (m : Machine) : Config := ⟨m.state, m.view⟩

def stepMany : Nat → Machine → Machine
  | 0, m => m
  | n + 1, m => (stepMany n m).step.1

variable {m : Machine} {r : Rule}

theorem find?_matches (m : Machine) :
    m.rules.rules.find? (fun r => decide (Matches m.config r)) =
      m.rules.lookup m.state m.symbol := by
  have hsymbol : m.view 0 = m.symbol := by rw [view, Int.add_zero]; rfl
  unfold RuleTable.lookup
  congr 1
  funext r
  simp [Matches, config, hsymbol, Bool.decide_and, Bool.beq_eq_decide_eq]

theorem firstMatch_iff :
    FirstMatch m.rules m.config r ↔ m.rules.lookup m.state m.symbol = some r := by
  rw [firstMatch_iff_find?, find?_matches]

theorem noMatch_iff : NoMatch m.rules m.config ↔ m.rules.lookup m.state m.symbol = none := by
  rw [noMatch_iff_find?, find?_matches]

theorem config_applied (hon : m.OnTape) : (m.applied r).config = m.config.apply r := by
  unfold config Config.apply
  congr 1
  funext k
  exact read_applied hon k

theorem step_of_rule?_eq_some (h : m.rule? = some r) :
    Step m.rules m.config (m.config.apply r) := by
  obtain ⟨-, hstate, hlookup⟩ := rule?_eq_some_iff.1 h
  exact .apply hstate (firstMatch_iff.2 hlookup)

theorem config_load (m : Machine) (cells : List Symbol) (head : Int) :
    (m.load cells head).config = Config.start cells head := by
  have hcells : (Tape.ofCells cells).cells = if cells = [] then [blank] else cells := by
    cases cells <;> rfl
  have hhead : (Tape.ofCells cells).clamp head =
      max 0 (min head ((if cells = [] then [blank] else cells).length - 1)) := by
    have hpos := (Tape.ofCells cells).size_pos
    rw [← hcells]
    unfold Tape.clamp Tape.size at *
    omega
  unfold config Config.start
  congr 1
  funext k
  unfold view Tape.read
  simp only [load, hhead, hcells]

theorem shows_config (m : Machine) : Shows m.config (written m.tape.cells) := by
  refine ⟨-m.head, m.tape.size, fun k hk => ?_, congrArg written ?_⟩
  · rw [show m.config.cells k = m.tape.read (m.head + k) from rfl] at hk
    constructor
    · by_contra hlt
      exact hk (m.tape.read_of_neg (by omega))
    · by_contra hle
      exact hk (m.tape.read_of_size_le (by omega))
  · refine List.ext_getElem (by simp [Config.window, Tape.size]) fun i hi hi' => ?_
    have hplace : m.head + (-m.head + (i : Int)) = i := by omega
    simp only [Config.window, config, view, List.getElem_map, List.getElem_range, hplace,
      Tape.read_ofNat]
    simp [hi']

/-- After so many steps from a machine that stands at `c`: so many of them were transitions, and if
not all of them were, there was no further one. -/
structure Follows (t : RuleTable) (c : Config) (before : Int) (steps transitions : Nat)
    (m : Machine) : Prop where
  rules : m.rules = t
  run : Steps t c transitions m.config
  counted : m.steps = before + transitions
  onTape : m.OnTape
  le : transitions ≤ steps
  final : transitions < steps → Final t m.config
  halted : m.halted = true ↔ m.state = haltState ∨ transitions < steps

variable {t : RuleTable} {c : Config} {before : Int} {n j : Nat}

theorem Follows.step (h : Follows t c before n j m) :
    ∃ i, Follows t c before (n + 1) i m.step.1 := by
  cases hrule : m.rule? with
  | some r =>
    obtain ⟨hhalted, hstate, -⟩ := rule?_eq_some_iff.1 hrule
    have hj : j = n := by
      have hle := h.le
      have hnot : ¬ j < n := fun hlt => by
        have := h.halted.2 (.inr hlt)
        simp [hhalted] at this
      omega
    subst hj
    rw [step_of_rule h.onTape hrule]
    have hstep := step_of_rule?_eq_some hrule
    rw [h.rules, ← config_applied h.onTape] at hstep
    exact ⟨j + 1, {
      rules := h.rules
      run := h.run.more hstep
      counted := by rw [applied_steps, h.counted]; push_cast; omega
      onTape := applied_onTape h.onTape
      le := Nat.le_refl _
      final := fun hlt => absurd hlt (Nat.lt_irrefl _)
      halted := by simp [hhalted] }⟩
  | none =>
    obtain ⟨message, lastStep, hstep⟩ := step_of_no_rule hrule
    have hfinal : Final t m.config := by
      rcases rule?_eq_none_iff.1 hrule with hhalted | hstate | hlookup
      · rcases h.halted.1 hhalted with hstate | hlt
        · exact final_of_halt hstate
        · exact h.final hlt
      · exact final_of_halt hstate
      · rw [← h.rules]
        exact final_of_noMatch (noMatch_iff.2 hlookup)
    have hle := h.le
    rw [hstep]
    exact ⟨j, {
      rules := h.rules
      run := h.run
      counted := h.counted
      onTape := h.onTape
      le := Nat.le_succ_of_le hle
      final := fun _ => hfinal
      halted := iff_of_true rfl (.inr (Nat.lt_succ_of_le hle)) }⟩

theorem follows_start (hon : m.OnTape) (hhalted : m.halted = false) (hstate : m.state ≠ haltState) :
    Follows m.rules m.config m.steps 0 0 m where
  rules := rfl
  run := .none
  counted := by simp
  onTape := hon
  le := Nat.le_refl 0
  final h := absurd h (Nat.lt_irrefl 0)
  halted := by simp [hhalted, hstate]

theorem follows_stepMany (hon : m.OnTape) (hhalted : m.halted = false)
    (hstate : m.state ≠ haltState) (n : Nat) :
    ∃ j, Follows m.rules m.config m.steps n j (m.stepMany n) := by
  induction n with
  | zero => exact ⟨0, follows_start hon hhalted hstate⟩
  | succ n ih =>
    obtain ⟨j, hj⟩ := ih
    exact hj.step

theorem step_answer (hon : m.OnTape) :
    ∃ more, m.step.2 = .ok more ∧ (more = true ↔ m.step.1.halted = false) := by
  cases hrule : m.rule? with
  | some r =>
    obtain ⟨hhalted, -, -⟩ := rule?_eq_some_iff.1 hrule
    rw [step_of_rule hon hrule]
    exact ⟨_, rfl, by simp [hhalted]⟩
  | none =>
    obtain ⟨message, lastStep, hstep⟩ := step_of_no_rule hrule
    rw [hstep]
    exact ⟨false, rfl, by simp⟩

/-- One step on the finite tape is one transition on the infinite one, or the end of the run; and so
are any number of steps, wherever the tape has to grow on the way. -/
theorem step_simulates_textbook (m : Machine) (hon : m.OnTape) (hhalted : m.halted = false)
    (hstate : m.state ≠ haltState) :
    (∀ r, FirstMatch m.rules m.config r →
      (∀ k, m.step.1.view k =
        if k + r.move.offset = 0 then r.write else m.view (k + r.move.offset)) ∧
      m.step.1.state = r.next ∧ m.step.1.steps = m.steps + 1 ∧ m.step.1.OnTape ∧
      m.step.2 = .ok (r.next != haltState)) ∧
    (NoMatch m.rules m.config →
      m.step.1.view = m.view ∧ m.step.1.state = m.state ∧ m.step.1.steps = m.steps ∧
      m.step.1.history = m.history ∧ m.step.1.halted = true ∧ m.step.2 = .ok false) ∧
    (∀ n, ∃ j c, Steps m.rules m.config j c ∧ j ≤ n ∧ (j < n → Final m.rules c) ∧
      (m.stepMany n).config = c ∧ (m.stepMany n).steps = m.steps + j ∧ (m.stepMany n).OnTape ∧
      ((m.stepMany n).halted = true ↔ c.state = haltState ∨ j < n) ∧
      ∃ more, (m.stepMany n).step.2 = .ok more ∧
        (more = true ↔ (m.stepMany (n + 1)).halted = false)) := by
  refine ⟨fun r hr => ?_, fun hno => ?_, fun n => ?_⟩
  · have hrule : m.rule? = some r :=
      rule?_eq_some_iff.2 ⟨hhalted, hstate, firstMatch_iff.1 hr⟩
    rw [step_of_rule hon hrule]
    exact ⟨fun k => read_applied hon k, rfl, rfl, applied_onTape hon, rfl⟩
  · have hrule : m.rule? = none := rule?_eq_none_iff.2 (.inr (.inr (noMatch_iff.1 hno)))
    obtain ⟨message, lastStep, hstep⟩ := step_of_no_rule hrule
    rw [hstep]
    exact ⟨rfl, rfl, rfl, rfl, rfl, rfl⟩
  · obtain ⟨j, hj⟩ := follows_stepMany hon hhalted hstate n
    exact ⟨j, _, hj.run, hj.le, hj.final, rfl, hj.counted, hj.onTape, hj.halted,
      step_answer hj.onTape⟩

/-- A machine that leaves its only cell at the left, and then writes beyond it. -/
theorem leftward_simulates_textbook :
    ∃ m : Machine, m.rules.rules = [⟨initialState, blank, "1", .left, initialState⟩] ∧
      m.tape.size = 1 ∧ m.head = 0 ∧
      (∀ k, m.step.1.view k = if k + -1 = 0 then "1" else m.view (k + -1)) ∧
      m.step.1.OnTape ∧ m.step.2 = .ok true ∧
      ∃ j c, Steps m.rules m.config j c ∧ (m.stepMany 3).config = c ∧ (m.stepMany 3).OnTape := by
  obtain ⟨m, hm⟩ : ∃ m, m = start ⟨[⟨initialState, blank, "1", .left, initialState⟩]⟩ (.ofCells [])
    0 initialState 0 .default := ⟨_, rfl⟩
  have hfirst : FirstMatch m.rules m.config ⟨initialState, blank, "1", .left, initialState⟩ :=
    ⟨[], [], by rw [hm]; rfl, by rw [hm]; exact ⟨rfl, rfl⟩, by simp⟩
  obtain ⟨hrule, -, hmany⟩ := step_simulates_textbook m (by rw [hm]; decide) (by rw [hm]; rfl)
    (by rw [hm]; decide)
  obtain ⟨hview, -, -, hon, hanswer⟩ := hrule _ hfirst
  obtain ⟨j, c, hsteps, -, -, hconfig, -, hon', -⟩ := hmany 3
  exact ⟨m, by rw [hm]; rfl, by rw [hm]; rfl, by rw [hm]; rfl, hview, hon, hanswer, j, c, hsteps,
    hconfig, hon'⟩

end TapeLab.Machine
