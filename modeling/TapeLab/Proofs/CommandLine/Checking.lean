import Mathlib.Data.List.TakeWhile
import TapeLab.CommandLine
import TapeLab.Proofs.Disk.Tree
import TapeLab.Proofs.RuleTable.Alphabet
import TapeLab.Proofs.Text.Utf8

/-!
What the check of a rule file says of halting. The warning that no rule moves to the halting state
is given by the names of the table, which are those of the states that rules lead from as well as of
those that they lead to. So it is never wrong when it is given, and no machine with such a table
comes to the halting state; but a rule that leads from the halting state, where no machine ever
takes it, keeps it from being given.
-/

namespace TapeLab

namespace Machine

variable {m : Machine}

theorem step_state (m : Machine) :
    m.step.1.state = m.state ∨ ∃ r ∈ m.rules.rules, m.step.1.state = r.next := by
  unfold step
  dsimp only
  split
  · exact .inl rfl
  · split
    · exact .inl rfl
    · split
      · exact .inl rfl
      · next r hlookup =>
        split
        · exact .inl rfl
        · exact .inr ⟨r, List.mem_of_find?_eq_some hlookup, rfl⟩

theorem never_halts (hrules : ∀ r ∈ m.rules.rules, r.next ≠ haltState)
    (hstart : m.state ≠ haltState) (n : Nat) : (m.stepMany n).state ≠ haltState := by
  induction n with
  | zero => exact hstart
  | succ n ih =>
    rcases (m.stepMany n).step_state with hsame | ⟨r, hr, hnext⟩
    · exact fun h => ih (hsame ▸ h)
    · rw [stepMany_rules] at hr
      exact fun h => hrules r hr (hnext ▸ h)

end Machine

namespace RuleTable

variable {t : RuleTable}

theorem halt_not_mem_states_iff :
    haltState ∉ t.states ↔ ∀ r ∈ t.rules, r.state ≠ haltState ∧ r.next ≠ haltState := by
  rw [mem_states]
  constructor
  · intro h r hr
    exact ⟨fun hstate => h ⟨r, hr, .inl hstate.symm⟩, fun hnext => h ⟨r, hr, .inr hnext.symm⟩⟩
  · rintro h ⟨r, hr, hstate | hnext⟩
    · exact (h r hr).1 hstate.symm
    · exact (h r hr).2 hnext.symm

end RuleTable

namespace CommandLine

open RuleTable

variable {t : RuleTable}

theorem append_ne {start rest line : String}
    (h : line.toList.take start.toList.length ≠ start.toList) : start ++ rest ≠ line := by
  rintro rfl
  rw [String.toList_append, List.take_left] at h
  exact h rfl

theorem graph_ne_neverHaltsLine (t : RuleTable) : t.graph ≠ neverHaltsLine := by
  have hgraph : ∃ rest, t.graph = "[heading]States:[/] " ++ rest :=
    ⟨_, String.intercalate_cons_append⟩
  obtain ⟨rest, hgraph⟩ := hgraph
  rw [hgraph]
  exact append_ne (by decide +kernel)

theorem conflictLine_ne_neverHaltsLine (c : (String × Symbol) × List Nat) :
    conflictLine c ≠ neverHaltsLine := by
  have hline : ∃ rest, conflictLine c = "[warning]Rules " ++ rest := by
    unfold conflictLine
    rw [String.append_assoc, String.append_assoc, String.append_assoc, String.append_assoc]
    exact ⟨_, rfl⟩
  obtain ⟨rest, hline⟩ := hline
  rw [hline]
  exact append_ne (by decide +kernel)

theorem neverHaltsLine_mem_checkTable_iff (hrules : t.rules ≠ []) :
    .line neverHaltsLine ∈ checkTable t ↔ haltState ∉ t.states := by
  have hgraph : neverHaltsLine ≠ t.graph := (graph_ne_neverHaltsLine t).symm
  have hconflicts : .line neverHaltsLine ∉ t.conflictLines := by
    intro h
    obtain ⟨c, -, hline⟩ := List.mem_map.1 h
    exact conflictLine_ne_neverHaltsLine c (Output.line.inj hline)
  have hsome : t.rules.isEmpty = false := List.isEmpty_eq_false_iff.2 hrules
  by_cases hhalt : haltState ∈ t.states <;> simp [checkTable, hsome, hgraph, hconflicts, hhalt]

theorem mem_entries_checkRules_iff {path : Path} {env : Environment} {verbose : Bool}
    {output : Output} (hload : RuleTable.load env.disk path = .ok t)
    (hshows : ∀ o ∈ checkTable t, env.host.Takes o) :
    .shown output ∈ (checkRules path env).entries verbose ↔ output ∈ checkTable t := by
  have htaken : (checkTable t).takeWhile env.host.Takes = checkTable t :=
    List.takeWhile_eq_self_iff.2 fun o ho => decide_eq_true (hshows o ho)
  simp [checkRules, hload, Result.shown, Result.entries, isVisible, htaken]

theorem load_of_read {path : Path} {disk : Tree} {text : String}
    (hread : disk.read path = .ok (Text.encodeUtf8 text))
    (hparse : RuleTable.parse (String.ofList (Text.unifyNewlines text.toList)) = .ok t) :
    RuleTable.load disk path = .ok t := by
  simp only [RuleTable.load, hread, Text.decodeUtf8_encodeUtf8, hparse]

def diskWith (text : String) : Tree := Tree.empty.put ["f.tm"] (.file (Text.encodeUtf8 text))

theorem read_diskWith (text : String) :
    (diskWith text).read ⟨"", ["f.tm"]⟩ = .ok (Text.encodeUtf8 text) := by
  have hplace : (diskWith text).resolve ⟨"", ["f.tm"]⟩ = .ok ["f.tm"] :=
    Tree.resolve_eq_ok_iff.2 ⟨⟨by simp [Path.hasNull], by decide +kernel⟩, rfl⟩
  exact Tree.read_of_resolve hplace (Tree.node?_put_self _ _ _ (by decide))

/-- Where everything is shown, the check of a file with rules warns just if no rule leads to the
halting state or from it. As far as no rule leads from it, that is whether none leads to it. After
the warning no machine with these rules comes to the halting state from elsewhere; without it there
is a rule to that state or one from it. -/
theorem warned_iff_no_rule_names_halt {path : Path} {env : Environment}
    (hload : RuleTable.load env.disk path = .ok t) (hrules : t.rules ≠ [])
    (hshows : ∀ o ∈ checkTable t, env.host.Takes o) (verbose : Bool) :
    let warned := .shown (.line neverHaltsLine) ∈ (checkRules path env).entries verbose
    (warned ↔ ∀ r ∈ t.rules, r.state ≠ haltState ∧ r.next ≠ haltState) ∧
    ((∀ r ∈ t.rules, r.state ≠ haltState) → (warned ↔ ∀ r ∈ t.rules, r.next ≠ haltState)) ∧
    (warned → (∀ r ∈ t.rules, r.next ≠ haltState) ∧
      ∀ m : Machine, m.rules = t → m.state ≠ haltState → ∀ n, (m.stepMany n).state ≠ haltState) ∧
    (¬ warned → ∃ r ∈ t.rules, r.next = haltState ∨ r.state = haltState) := by
  intro warned
  have hwarned : warned ↔ haltState ∉ t.states :=
    (mem_entries_checkRules_iff hload hshows).trans (neverHaltsLine_mem_checkTable_iff hrules)
  have hnone : warned ↔ ∀ r ∈ t.rules, r.state ≠ haltState ∧ r.next ≠ haltState :=
    hwarned.trans halt_not_mem_states_iff
  refine ⟨hnone, fun hstates => ?_, fun h => ?_, fun h => ?_⟩
  · rw [hnone]
    exact ⟨fun h r hr => (h r hr).2, fun h r hr => ⟨hstates r hr, h r hr⟩⟩
  · have hnext : ∀ r ∈ t.rules, r.next ≠ haltState := fun r hr => (hnone.1 h r hr).2
    refine ⟨hnext, ?_⟩
    rintro m rfl hstart
    exact m.never_halts hnext hstart
  · rw [hwarned, not_not, mem_states] at h
    obtain ⟨r, hr, hends⟩ := h
    exact ⟨r, hr, hends.symm.imp Eq.symm Eq.symm⟩

theorem warned_of_loop :
    let env : Environment := ⟨.ofText "/", diskWith "q0 0 1 R q0\n", .plain⟩
    let t : RuleTable := ⟨[⟨"q0", "0", "1", .right, "q0"⟩]⟩
    RuleTable.load env.disk ⟨"", ["f.tm"]⟩ = .ok t ∧ t.rules ≠ [] ∧
    .shown (.line neverHaltsLine) ∈ (checkRules ⟨"", ["f.tm"]⟩ env).entries false := by
  intro env t
  have hload : RuleTable.load env.disk ⟨"", ["f.tm"]⟩ = .ok t := load_of_read (read_diskWith _) rfl
  have hrules : t.rules ≠ [] := by decide
  exact ⟨hload, hrules,
    (warned_iff_no_rule_names_halt hload hrules (fun _ _ => rfl) false).1.2 (by decide)⟩

/-- A rule from the halting state, which no machine takes, is enough for there to be no warning. -/
theorem unwarned_without_rule_to_halt :
    let env : Environment := ⟨.ofText "/", diskWith "HALT 0 1 R q0\n", .plain⟩
    let t : RuleTable := ⟨[⟨"HALT", "0", "1", .right, "q0"⟩]⟩
    RuleTable.load env.disk ⟨"", ["f.tm"]⟩ = .ok t ∧ (∀ r ∈ t.rules, r.next ≠ haltState) ∧
    .shown (.line neverHaltsLine) ∉ (checkRules ⟨"", ["f.tm"]⟩ env).entries false := by
  intro env t
  have hload : RuleTable.load env.disk ⟨"", ["f.tm"]⟩ = .ok t := load_of_read (read_diskWith _) rfl
  refine ⟨hload, by decide, ?_⟩
  rw [mem_entries_checkRules_iff hload fun _ _ => rfl,
    neverHaltsLine_mem_checkTable_iff (by decide), not_not]
  exact mem_states.2 ⟨_, List.mem_singleton_self _, .inl rfl⟩

end CommandLine

end TapeLab
