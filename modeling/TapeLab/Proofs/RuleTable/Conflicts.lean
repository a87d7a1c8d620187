import TapeLab.RuleTable.Graph
import TapeLab.Proofs.Machine.Simulation

/-!
The groups of rules that share a state and a symbol, against the look-up that takes the first rule
of a group. A rule is in a group behind its first one if and only if no state and no symbol makes
the look-up take it, so that a table without all these rules, `pruned`, runs every machine the same
way.
-/

namespace TapeLab

section Distinct

variable {α : Type} [DecidableEq α] {l : List α}

@[simp] theorem mem_distinct {a : α} : a ∈ distinct l ↔ a ∈ l := by
  induction l with
  | nil => simp [distinct]
  | cons b l ih =>
    by_cases h : a = b
    · simp [distinct, h]
    · simp [distinct, h, ih]

theorem nodup_distinct (l : List α) : (distinct l).Nodup := by
  induction l with
  | nil => exact List.nodup_nil
  | cons b l ih =>
    refine List.nodup_cons.2 ⟨fun h => ?_, ih.filter _⟩
    simp at h

end Distinct

theorem mem_tail_iff_of_increasing {l : List Nat} (h : l.Pairwise (· < ·)) {i : Nat} :
    i ∈ l.tail ↔ i ∈ l ∧ ∃ j ∈ l, j < i := by
  cases h with
  | nil => simp
  | @cons a l hlt h =>
    simp only [List.tail_cons, List.mem_cons]
    constructor
    · exact fun hi => ⟨.inr hi, a, .inl rfl, hlt i hi⟩
    · rintro ⟨rfl | hi, j, hj, hji⟩
      · rcases hj with rfl | hj
        · exact absurd hji (Nat.lt_irrefl _)
        · exact absurd (hlt j hj) (Nat.lt_asymm hji)
      · exact hi

namespace RuleTable

variable {t : RuleTable} {i : Nat} {state : String} {symbol : Symbol}

def firstIndex? (t : RuleTable) (state : String) (symbol : Symbol) : Option Nat :=
  t.rules.findIdx? fun r => r.state == state && r.read == symbol

theorem lookup_eq_firstIndex? (t : RuleTable) (state : String) (symbol : Symbol) :
    t.lookup state symbol = (t.firstIndex? state symbol).bind (t.rules[·]?) := by
  unfold lookup firstIndex?
  induction t.rules with
  | nil => rfl
  | cons r rules ih =>
    rw [List.find?_cons, List.findIdx?_cons]
    split
    · next h => simp [h]
    · next h => cases hindex : rules.findIdx? _ <;> simp [h, ih, hindex]

theorem firstIndex?_eq_some_iff :
    t.firstIndex? state symbol = some i ↔
      (∃ r, t.rules[i]? = some r ∧ (r.state, r.read) = (state, symbol)) ∧
      ∀ j < i, ∀ s, t.rules[j]? = some s → (s.state, s.read) ≠ (state, symbol) := by
  unfold firstIndex?
  rw [List.findIdx?_eq_some_iff_getElem]
  constructor
  · rintro ⟨hlt, hr, hbefore⟩
    refine ⟨⟨t.rules[i], List.getElem?_eq_getElem hlt, by simpa using hr⟩, fun j hj s hs => ?_⟩
    obtain ⟨hlt', rfl⟩ := List.getElem?_eq_some_iff.1 hs
    simpa using hbefore j hj
  · rintro ⟨⟨r, hr, hkey⟩, hbefore⟩
    obtain ⟨hlt, rfl⟩ := List.getElem?_eq_some_iff.1 hr
    refine ⟨hlt, by simpa using hkey, fun j hj => ?_⟩
    simpa using hbefore j hj _ (List.getElem?_eq_getElem (Nat.lt_trans hj hlt))

variable {key : String × Symbol}

theorem mem_indicesOf :
    i ∈ t.indicesOf key ↔ ∃ r, t.rules[i]? = some r ∧ (r.state, r.read) = key := by
  simp only [indicesOf, List.mem_map, List.mem_filter, decide_eq_true_eq, Prod.exists,
    List.mem_zipIdx_iff_getElem?]
  constructor
  · rintro ⟨r, i, ⟨hr, hkey⟩, rfl⟩
    exact ⟨r, hr, hkey⟩
  · rintro ⟨r, hr, hkey⟩
    exact ⟨r, i, ⟨hr, hkey⟩, rfl⟩

theorem indicesOf_increasing (t : RuleTable) (key : String × Symbol) :
    (t.indicesOf key).Pairwise (· < ·) := by
  have hall : (t.rules.zipIdx.map Prod.snd).Pairwise (· < ·) := by
    rw [List.zipIdx_map_snd]
    exact List.pairwise_lt_range'
  exact hall.sublist (List.filter_sublist.map Prod.snd)

theorem mem_conflicts {c : (String × Symbol) × List Nat} :
    c ∈ t.conflicts ↔ c.2 = t.indicesOf c.1 ∧ 1 < c.2.length := by
  simp only [conflicts, List.mem_filter, List.mem_map, mem_distinct, decide_eq_true_eq]
  constructor
  · rintro ⟨⟨key, -, rfl⟩, hlen⟩
    exact ⟨rfl, hlen⟩
  · rintro ⟨hindices, hlen⟩
    refine ⟨⟨c.1, ?_, by rw [← hindices]⟩, hlen⟩
    -- more than one rule has the key, so one has
    obtain ⟨i, hi⟩ := List.exists_mem_of_length_pos (Nat.zero_lt_of_lt hlen)
    obtain ⟨r, hr, hkey⟩ := mem_indicesOf.1 (hindices ▸ hi)
    exact ⟨r, List.mem_of_getElem? hr, hkey⟩

theorem nodup_conflicts (t : RuleTable) : (t.conflicts.map Prod.fst).Nodup := by
  have hall : (((distinct (t.rules.map fun r => (r.state, r.read))).map
      fun k => (k, t.indicesOf k)).map Prod.fst).Nodup := by
    rw [List.map_map, Function.comp_def, List.map_id']
    exact nodup_distinct _
  exact hall.sublist (List.filter_sublist.map Prod.fst)

theorem mem_shadowed_iff :
    i ∈ t.shadowed ↔ ∃ r, t.rules[i]? = some r ∧
      ∃ j < i, ∃ s, t.rules[j]? = some s ∧ (s.state, s.read) = (r.state, r.read) := by
  simp only [shadowed, List.mem_flatMap]
  constructor
  · rintro ⟨c, hc, hi⟩
    obtain ⟨hindices, -⟩ := mem_conflicts.1 hc
    rw [hindices, mem_tail_iff_of_increasing (t.indicesOf_increasing _)] at hi
    obtain ⟨hi, j, hj, hlt⟩ := hi
    obtain ⟨r, hr, hkey⟩ := mem_indicesOf.1 hi
    obtain ⟨s, hs, hkey'⟩ := mem_indicesOf.1 hj
    exact ⟨r, hr, j, hlt, s, hs, hkey'.trans hkey.symm⟩
  · rintro ⟨r, hr, j, hlt, s, hs, hkey⟩
    have hi : i ∈ t.indicesOf (r.state, r.read) := mem_indicesOf.2 ⟨r, hr, rfl⟩
    have hj : j ∈ t.indicesOf (r.state, r.read) := mem_indicesOf.2 ⟨s, hs, hkey⟩
    have htail : i ∈ (t.indicesOf (r.state, r.read)).tail :=
      (mem_tail_iff_of_increasing (t.indicesOf_increasing _)).2 ⟨hi, j, hj, hlt⟩
    refine ⟨⟨_, t.indicesOf (r.state, r.read)⟩, mem_conflicts.2 ⟨rfl, ?_⟩, htail⟩
    have hpos := List.length_pos_of_mem htail
    rw [List.length_tail] at hpos
    exact Nat.lt_of_sub_pos hpos

theorem not_mem_shadowed_iff (hi : i < t.size) :
    i ∉ t.shadowed ↔ ∃ state symbol, t.firstIndex? state symbol = some i := by
  constructor
  · intro h
    have hr : t.rules[i]? = some t.rules[i] := List.getElem?_eq_getElem hi
    refine ⟨t.rules[i].state, t.rules[i].read,
      firstIndex?_eq_some_iff.2 ⟨⟨_, hr, rfl⟩, fun j hj s hs hkey => ?_⟩⟩
    exact h (mem_shadowed_iff.2 ⟨_, hr, j, hj, s, hs, hkey⟩)
  · rintro ⟨state, symbol, h⟩ hshadowed
    obtain ⟨⟨r, hr, hkey⟩, hbefore⟩ := firstIndex?_eq_some_iff.1 h
    obtain ⟨r', hr', j, hj, s, hs, hkey'⟩ := mem_shadowed_iff.1 hshadowed
    obtain rfl := Option.some.inj (hr.symm.trans hr')
    exact hbefore j hj s hs (hkey'.trans hkey)

theorem lt_size_of_mem_shadowed (h : i ∈ t.shadowed) : i < t.size := by
  obtain ⟨r, hr, -⟩ := mem_shadowed_iff.1 h
  exact (List.getElem?_eq_some_iff.1 hr).1

theorem mem_shadowed_iff_never_taken :
    i ∈ t.shadowed ↔ i < t.size ∧ ∀ state symbol, t.firstIndex? state symbol ≠ some i := by
  constructor
  · intro h
    have hi := lt_size_of_mem_shadowed h
    exact ⟨hi, fun state symbol htaken => (not_mem_shadowed_iff hi).2 ⟨state, symbol, htaken⟩ h⟩
  · rintro ⟨hi, h⟩
    by_contra hshadowed
    obtain ⟨state, symbol, htaken⟩ := (not_mem_shadowed_iff hi).1 hshadowed
    exact h state symbol htaken

/-- The table without the rules that are never taken. -/
def pruned (t : RuleTable) : RuleTable :=
  ⟨(t.rules.zipIdx.filter fun p => p.2 ∉ t.shadowed).map Prod.fst⟩

theorem lookup_pruned (t : RuleTable) (state : String) (symbol : Symbol) :
    t.pruned.lookup state symbol = t.lookup state symbol := by
  have hleft : t.pruned.lookup state symbol =
      (t.rules.zipIdx.find? fun p => decide (p.2 ∉ t.shadowed) &&
        (p.1.state == state && p.1.read == symbol)).map Prod.fst := by
    unfold pruned lookup
    simp only [List.find?_map, List.find?_filter, Function.comp_def, Bool.decide_and,
      Bool.decide_eq_true]
  rw [hleft]
  cases htaken : t.firstIndex? state symbol with
  | none =>
    have hnone : ∀ r ∈ t.rules, (r.state == state && r.read == symbol) = false := by
      simpa [firstIndex?, List.findIdx?_eq_none_iff] using htaken
    have hfind : t.rules.zipIdx.find? (fun p => decide (p.2 ∉ t.shadowed) &&
        (p.1.state == state && p.1.read == symbol)) = none := by
      refine List.find?_eq_none.2 fun p hp => ?_
      have hmem := List.mem_of_getElem? (List.mem_zipIdx_iff_getElem?.1 hp)
      simp [hnone p.1 hmem]
    rw [hfind, lookup_eq_firstIndex?, htaken]
    rfl
  | some i =>
    obtain ⟨⟨r, hr, hkey⟩, hbefore⟩ := firstIndex?_eq_some_iff.1 htaken
    obtain ⟨hlt, rfl⟩ := List.getElem?_eq_some_iff.1 hr
    have hkept : i ∉ t.shadowed := (not_mem_shadowed_iff hlt).2 ⟨state, symbol, htaken⟩
    -- the rule that is taken stays, and no rule before it has the key
    have hfind : t.rules.zipIdx.find? (fun p => decide (p.2 ∉ t.shadowed) &&
        (p.1.state == state && p.1.read == symbol)) = some (t.rules[i], i) := by
      refine List.find?_eq_some_iff_getElem.2 ⟨?_, i, by simpa using hlt, by simp, fun j hj => ?_⟩
      · simpa [hkept] using hkey
      · have hkey' := hbefore j hj _ (List.getElem?_eq_getElem (Nat.lt_trans hj hlt))
        rw [List.getElem_zipIdx]
        simp only [ne_eq, Prod.mk.injEq, not_and] at hkey'
        simp only [Nat.zero_add, Bool.not_eq_true', Bool.and_eq_false_iff, beq_eq_false_iff_ne]
        by_cases hstate : t.rules[j].state = state
        · exact .inr (.inr (hkey' hstate))
        · exact .inr (.inl hstate)
    rw [hfind, lookup_eq_firstIndex?, htaken]
    exact hr.symm

end RuleTable

namespace Machine

def withRules (m : Machine) (t : RuleTable) : Machine := { m with rules := t }

variable {m : Machine} {u : RuleTable}

@[simp] theorem withRules_unmarked : (m.withRules u).unmarked = m.unmarked.withRules u := rfl

@[simp] theorem withRules_rules : (m.withRules u).rules = u := rfl

@[simp] theorem withRules_tape : (m.withRules u).tape = m.tape := rfl

@[simp] theorem withRules_head : (m.withRules u).head = m.head := rfl

@[simp] theorem withRules_state : (m.withRules u).state = m.state := rfl

@[simp] theorem withRules_halted : (m.withRules u).halted = m.halted := rfl

@[simp] theorem withRules_symbol : (m.withRules u).symbol = m.symbol := rfl

theorem stepMany_rules (m : Machine) (n : Nat) : (m.stepMany n).rules = m.rules := by
  induction n with
  | zero => rfl
  | succ n ih => exact (step_rules _).trans ih

theorem step_withRules (h : ∀ state symbol, u.lookup state symbol = m.rules.lookup state symbol) :
    (m.withRules u).step = (m.step.1.withRules u, m.step.2) := by
  simp only [step, withRules_unmarked, withRules_halted, withRules_state, withRules_rules,
    withRules_symbol, withRules_tape, withRules_head, unmarked_halted, unmarked_state,
    unmarked_symbol, unmarked_rules, h]
  by_cases hhalted : m.halted = true
  · simp only [hhalted, if_true]
  · by_cases hstate : m.state = haltState
    · simp only [hhalted, hstate, if_true]
      rfl
    · simp only [hhalted, hstate, if_false]
      cases m.rules.lookup m.state m.symbol with
      | none => rfl
      | some r =>
        dsimp only
        cases m.unmarked.tape.write m.unmarked.head r.write with
        | error e => rfl
        | ok tape => rfl

theorem stepMany_withRules
    (h : ∀ state symbol, u.lookup state symbol = m.rules.lookup state symbol) (n : Nat) :
    (m.withRules u).stepMany n = (m.stepMany n).withRules u := by
  induction n with
  | zero => rfl
  | succ n ih =>
    have hrules : ∀ state symbol,
        u.lookup state symbol = (m.stepMany n).rules.lookup state symbol := by
      rw [stepMany_rules]
      exact h
    rw [stepMany, ih, step_withRules hrules]
    rfl

end Machine

namespace RuleTable

open Machine

/-- The groups are those of the rules with one key, each in increasing order; what is in one behind
its head is what the look-up never takes; and without it every machine runs the same way. -/
theorem conflicts_hold_what_is_never_taken (t : RuleTable) :
    (∀ i, (∃ c ∈ t.conflicts, i ∈ c.2.tail) ↔
      i < t.size ∧ ∀ state symbol, t.firstIndex? state symbol ≠ some i) ∧
    (∀ state symbol,
      t.lookup state symbol = (t.firstIndex? state symbol).bind (t.rules[·]?)) ∧
    (∀ c ∈ t.conflicts, c.2.Pairwise (· < ·) ∧ 2 ≤ c.2.length ∧
      ∀ i, i ∈ c.2 ↔ ∃ r, t.rules[i]? = some r ∧ (r.state, r.read) = c.1) ∧
    (t.conflicts.map Prod.fst).Nodup ∧
    ∀ (m : Machine) (n : Nat),
      (m.withRules t.pruned).stepMany n = ((m.withRules t).stepMany n).withRules t.pruned ∧
      ((m.withRules t.pruned).stepMany n).step.2 = ((m.withRules t).stepMany n).step.2 := by
  refine ⟨fun i => ?_, t.lookup_eq_firstIndex?, fun c hc => ?_, t.nodup_conflicts,
    fun m n => ?_⟩
  · rw [← mem_shadowed_iff_never_taken, shadowed, List.mem_flatMap]
  · obtain ⟨hindices, hlen⟩ := mem_conflicts.1 hc
    rw [hindices] at hlen ⊢
    exact ⟨t.indicesOf_increasing c.1, hlen, fun i => mem_indicesOf⟩
  · have hrun : (m.withRules t.pruned).stepMany n =
        ((m.withRules t).stepMany n).withRules t.pruned :=
      stepMany_withRules (m := m.withRules t) t.lookup_pruned n
    have hrules : ((m.withRules t).stepMany n).rules = t := stepMany_rules _ n
    refine ⟨hrun, ?_⟩
    rw [hrun, step_withRules fun state symbol => by rw [hrules, lookup_pruned]]

/-- Two groups that lie in each other: of five rules two are never taken, and go. -/
theorem conflicts_of_interleaved_rules :
    ∃ t : RuleTable, t.conflicts = [(("q0", "0"), [0, 2]), (("q0", "1"), [1, 4])] ∧
      t.pruned.size = 3 ∧ (∀ state symbol, t.firstIndex? state symbol ≠ some 4) ∧
      [0, 2].Pairwise (· < ·) ∧
      ∀ (m : Machine) (n : Nat),
        (m.withRules t.pruned).stepMany n = ((m.withRules t).stepMany n).withRules t.pruned := by
  let t : RuleTable := ⟨[⟨"q0", "0", "1", .right, "q1"⟩, ⟨"q0", "1", "0", .left, "q0"⟩,
    ⟨"q0", "0", "0", .left, haltState⟩, ⟨"q1", "0", "0", .right, "q0"⟩,
    ⟨"q0", "1", "1", .right, "q1"⟩]⟩
  have hgroups : t.conflicts = [(("q0", "0"), [0, 2]), (("q0", "1"), [1, 4])] := by
    decide +kernel
  obtain ⟨htail, -, hlists, -, hrun⟩ := t.conflicts_hold_what_is_never_taken
  refine ⟨t, hgroups, by decide +kernel, ?_, (hlists (("q0", "0"), [0, 2]) ?_).1,
    fun m n => (hrun m n).1⟩
  · exact ((htail 4).1 ⟨_, hgroups ▸ List.mem_cons_of_mem _ List.mem_cons_self, by decide⟩).2
  · exact hgroups ▸ List.mem_cons_self

end RuleTable

end TapeLab
