import TapeLab.Proofs.RuleTable.Conflicts

/-!
The symbols and the states that a rule table knows of, against those that a machine comes to. A step
writes a symbol of a rule or adds a blank cell, and it goes to a state of a rule; so what is read
off the table and the first tape holds for ever.
-/

namespace TapeLab

@[simp] theorem mem_insertName {name n : String} {names : List String} :
    name ∈ insertName n names ↔ name = n ∨ name ∈ names := by
  induction names with
  | nil => simp [insertName]
  | cons k names ih =>
    unfold insertName
    split
    · simp
    · split
      · next heq => simp [heq]
      · simp only [List.mem_cons, ih]
        exact or_left_comm

@[simp] theorem mem_sortNames {name : String} {names : List String} :
    name ∈ sortNames names ↔ name ∈ names := by
  induction names with
  | nil => simp [sortNames]
  | cons n names ih =>
    rw [List.mem_cons, ← ih]
    exact mem_insertName

namespace RuleTable

variable {t : RuleTable} {cells cells' : List Symbol} {r : Rule} {s : Symbol} {name : String}

theorem mem_stateNames : name ∈ t.stateNames ↔ ∃ r ∈ t.rules, name = r.state ∨ name = r.next := by
  simp [stateNames]

theorem mem_states : name ∈ t.states ↔ ∃ r ∈ t.rules, name = r.state ∨ name = r.next := by
  have hdiffer : initialState ≠ haltState := by decide
  rw [← mem_stateNames]
  unfold states
  by_cases hinitial : name = initialState
  · subst hinitial
    by_cases hmem : initialState ∈ t.stateNames <;> simp [hmem, hdiffer]
  · by_cases hhalt : name = haltState
    · subst hhalt
      by_cases hmem : haltState ∈ t.stateNames <;> simp [hmem, hdiffer.symm]
    · simp [hinitial, hhalt]

theorem mem_symbols :
    s ∈ t.symbols cells ↔
      s ∈ cells ∨ (∃ r ∈ t.rules, s = r.read ∨ s = r.write) ∨ s = blank := by
  simp [symbols]

theorem nodup_symbols (t : RuleTable) (cells : List Symbol) : (t.symbols cells).Nodup :=
  nodup_distinct _

theorem blank_mem_symbols (t : RuleTable) (cells : List Symbol) : blank ∈ t.symbols cells :=
  mem_symbols.2 (.inr (.inr rfl))

theorem write_mem_symbols (hr : r ∈ t.rules) (cells : List Symbol) :
    r.write ∈ t.symbols cells :=
  mem_symbols.2 (.inr (.inl ⟨r, hr, .inr rfl⟩))

theorem symbols_subset (h : cells' ⊆ t.symbols cells) : t.symbols cells' ⊆ t.symbols cells := by
  intro s hs
  rcases mem_symbols.1 hs with hcell | hother
  · exact h hcell
  · exact mem_symbols.2 (.inr hother)

end RuleTable

theorem Tape.cells_settle_subset {t : Tape} {l : List Symbol} (hblank : blank ∈ l)
    (h : t.cells ⊆ l) (index : Int) : (t.settle index).1.cells ⊆ l := by
  unfold settle
  split
  · exact List.cons_subset.2 ⟨hblank, h⟩
  · split
    · exact List.append_subset.2 ⟨h, List.cons_subset.2 ⟨hblank, List.nil_subset l⟩⟩
    · exact h

theorem Tape.cells_write_subset {t t' : Tape} {l : List Symbol} {index : Int} {s : Symbol}
    (hs : s ∈ l) (h : t.cells ⊆ l) (hwrite : t.write index s = .ok t') : t'.cells ⊆ l := by
  unfold write at hwrite
  split at hwrite
  · cases hwrite
    intro a ha
    rcases List.mem_or_eq_of_mem_set ha with hold | hnew
    · exact h hold
    · exact hnew ▸ hs
  · cases hwrite

namespace Machine

variable {t : RuleTable} {cells : List Symbol} {state : String} {m : Machine}

/-- The machine has the rules `t`, and it shows nothing but what these and some cells tell of. -/
structure Within (t : RuleTable) (cells : List Symbol) (state : String) (m : Machine) : Prop where
  rules : m.rules = t
  cells : m.tape.cells ⊆ t.symbols cells
  state : m.state = state ∨ m.state ∈ t.states

theorem within_self (m : Machine) : m.Within m.rules m.tape.cells m.state where
  rules := rfl
  cells _ hs := RuleTable.mem_symbols.2 (.inl hs)
  state := .inl rfl

theorem Within.step (h : m.Within t cells state) : m.step.1.Within t cells state := by
  unfold Machine.step
  dsimp only
  split
  · exact ⟨h.rules, h.cells, h.state⟩
  · split
    · exact ⟨h.rules, h.cells, h.state⟩
    · split
      · exact ⟨h.rules, h.cells, h.state⟩
      · next r hlookup =>
        have hr : r ∈ t.rules := h.rules ▸ List.mem_of_find?_eq_some hlookup
        split
        · exact ⟨h.rules, h.cells, h.state⟩
        · next tape hwrite =>
          have htape : tape.cells ⊆ t.symbols cells :=
            Tape.cells_write_subset (RuleTable.write_mem_symbols hr cells) h.cells hwrite
          exact {
            rules := h.rules
            cells := Tape.cells_settle_subset (t.blank_mem_symbols cells) htape _
            state := .inr (RuleTable.mem_states.2 ⟨r, hr, .inr rfl⟩) }

theorem Within.stepMany (h : m.Within t cells state) (n : Nat) :
    (m.stepMany n).Within t cells state := by
  induction n with
  | zero => exact h
  | succ n ih => exact ih.step

/-- Whatever a machine comes to, its tape has symbols of the alphabet only, which does not grow, and
its state is one of the table unless it is the first one. The alphabet is made of the symbols of the
tape, of those of the rules, and of the blank, each once. -/
theorem stays_in_alphabet (m : Machine) (n : Nat) :
    (m.stepMany n).tape.cells ⊆ m.rules.symbols m.tape.cells ∧
    (m.stepMany n).rules.symbols (m.stepMany n).tape.cells ⊆ m.rules.symbols m.tape.cells ∧
    ((m.stepMany n).state = m.state ∨ (m.stepMany n).state ∈ m.rules.states) ∧
    (∀ name, name ∈ m.rules.states ↔ ∃ r ∈ m.rules.rules, name = r.state ∨ name = r.next) ∧
    ∀ cells, (m.rules.symbols cells).Nodup ∧ blank ∈ m.rules.symbols cells ∧
      ∀ s, s ∈ m.rules.symbols cells ↔
        s ∈ cells ∨ (∃ r ∈ m.rules.rules, s = r.read ∨ s = r.write) ∨ s = blank := by
  have hwithin := m.within_self.stepMany n
  refine ⟨hwithin.cells, ?_, hwithin.state, fun name => RuleTable.mem_states, fun cells => ?_⟩
  · rw [hwithin.rules]
    exact RuleTable.symbols_subset hwithin.cells
  · exact ⟨m.rules.nodup_symbols cells, m.rules.blank_mem_symbols cells,
      fun s => RuleTable.mem_symbols⟩

end Machine

end TapeLab
