import Mathlib.Data.String.Basic
import TapeLab.Console.Listing
import TapeLab.Proofs.RuleTable.Alphabet
import TapeLab.Proofs.Text.Markup

/-!
The graph of a rule table. Its edges sort the rules into groups by the states that they lead from
and to; its states are the ends of the edges, in their order. What is shown of the graph is the
states and then the edges, where a single state without a name is taken for none.
-/

namespace TapeLab

section Distinct

variable {α β : Type} [DecidableEq α]

theorem mem_filter_ne {l : List α} {a b : α} (h : b ∈ l.filter (· ≠ a)) : a ≠ b :=
  fun heq => of_decide_eq_true (List.mem_filter.1 h).2 heq.symm

theorem distinct_in_order [BEq α] [LawfulBEq α] (l : List α) :
    (distinct l).Pairwise fun a b => l.idxOf a < l.idxOf b := by
  induction l with
  | nil => exact .nil
  | cons a l ih =>
    refine List.pairwise_cons.2 ⟨fun b hb => ?_, ?_⟩
    · rw [List.idxOf_cons_self, List.idxOf_cons_ne _ (mem_filter_ne hb)]
      exact Nat.succ_pos _
    · refine (ih.filter (· ≠ a)).imp_of_mem fun {b c} hb hc hlt => ?_
      rw [List.idxOf_cons_ne _ (mem_filter_ne hb), List.idxOf_cons_ne _ (mem_filter_ne hc)]
      exact Nat.succ_lt_succ hlt

theorem flatMap_filter_perm {f : β → α} {keys : List α} {l : List β} (hnodup : keys.Nodup)
    (hall : ∀ b ∈ l, f b ∈ keys) : (keys.flatMap fun k => l.filter fun b => f b = k).Perm l := by
  induction keys generalizing l with
  | nil =>
    have hl : l = [] := List.eq_nil_iff_forall_not_mem.2 fun b hb => List.not_mem_nil (hall b hb)
    rw [hl]
    rfl
  | cons k keys ih =>
    obtain ⟨hk, hnodup⟩ := List.nodup_cons.1 hnodup
    have hothers : ∀ b ∈ l.filter (fun b => !decide (f b = k)), f b ∈ keys := by
      intro b hb
      obtain ⟨hb, hne⟩ := List.mem_filter.1 hb
      exact (List.mem_cons.1 (hall b hb)).resolve_left (by simpa using hne)
    -- The groups for the other keys do not change if the entries for `k` are left out.
    have hgroups : (keys.flatMap fun k' => l.filter fun b => f b = k') =
        keys.flatMap fun k' =>
          (l.filter fun b => !decide (f b = k)).filter fun b => f b = k' := by
      refine List.flatMap_congr fun k' hk' => ?_
      have hne : k' ≠ k := fun heq => hk (heq ▸ hk')
      rw [List.filter_filter]
      refine List.filter_congr fun b _ => ?_
      by_cases hb : f b = k' <;> simp [hb, hne]
    rw [List.flatMap_cons, hgroups]
    exact ((ih hnodup hothers).append_left _).trans (List.filter_append_perm _ l)

end Distinct

theorem increasing_insertName {name : String} {names : List String}
    (h : names.Pairwise (· < ·)) : (insertName name names).Pairwise (· < ·) := by
  induction names with
  | nil => exact List.pairwise_singleton _ _
  | cons n names ih =>
    obtain ⟨hn, hnames⟩ := List.pairwise_cons.1 h
    unfold insertName
    split
    · next hlt =>
      refine List.pairwise_cons.2 ⟨fun k hk => ?_, h⟩
      rcases List.mem_cons.1 hk with rfl | hk
      · exact hlt
      · exact hlt.trans (hn k hk)
    · next hge =>
      split
      · exact h
      · next hne =>
        refine List.pairwise_cons.2 ⟨fun k hk => ?_, ih hnames⟩
        rcases mem_insertName.1 hk with rfl | hk
        · exact lt_of_le_of_ne (not_lt.1 hge) (Ne.symm hne)
        · exact hn k hk

theorem increasing_sortNames (names : List String) : (sortNames names).Pairwise (· < ·) := by
  induction names with
  | nil => exact .nil
  | cons n names ih => exact increasing_insertName ih

namespace RuleTable

variable {t : RuleTable} {name : String}

/-- Groups of the rules, each under the states that its rules lead from and to: one for every such
pair, in the order in which the pairs are first met, with all rules of the pair in their order. -/
structure Groups (rules : List Rule) (edges : List ((String × String) × List Rule)) : Prop where
  nodup : (edges.map Prod.fst).Nodup
  in_order : (edges.map Prod.fst).Pairwise fun a b =>
    (rules.map fun r => (r.state, r.next)).idxOf a < (rules.map fun r => (r.state, r.next)).idxOf b
  pairs : ∀ p, p ∈ edges.map Prod.fst ↔ ∃ r ∈ rules, (r.state, r.next) = p
  members : ∀ e ∈ edges, e.2 = rules.filter fun r => (r.state, r.next) = e.1
  once : ∀ r ∈ rules, ∃! e, e ∈ edges ∧ r ∈ e.2
  perm : (edges.flatMap Prod.snd).Perm rules

theorem edges_keys (t : RuleTable) :
    t.edges.map Prod.fst = distinct (t.rules.map fun r => (r.state, r.next)) := by
  rw [edges, List.map_map]
  exact List.map_id _

theorem mem_edges {e : (String × String) × List Rule} :
    e ∈ t.edges ↔ (∃ r ∈ t.rules, (r.state, r.next) = e.1) ∧
      e.2 = t.rules.filter fun r => (r.state, r.next) = e.1 := by
  obtain ⟨p, group⟩ := e
  simp only [edges, List.mem_map, mem_distinct]
  constructor
  · rintro ⟨p, hp, heq⟩
    cases heq
    exact ⟨hp, rfl⟩
  · rintro ⟨hp, hgroup⟩
    exact ⟨p, hp, Prod.ext rfl hgroup.symm⟩

theorem edge_mem {r : Rule} (hr : r ∈ t.rules) :
    ((r.state, r.next), t.rules.filter fun r' => (r'.state, r'.next) = (r.state, r.next)) ∈
      t.edges :=
  mem_edges.2 ⟨⟨r, hr, rfl⟩, rfl⟩

theorem edges_groups (t : RuleTable) : Groups t.rules t.edges where
  nodup := by
    rw [edges_keys]
    exact nodup_distinct _
  in_order := by
    rw [edges_keys]
    exact distinct_in_order _
  pairs p := by rw [edges_keys, mem_distinct, List.mem_map]
  members e he := (mem_edges.1 he).2
  once r hr := by
    refine ⟨_, ⟨edge_mem hr, List.mem_filter.2 ⟨hr, decide_eq_true rfl⟩⟩, ?_⟩
    rintro e ⟨he, hre⟩
    have hgroup := (mem_edges.1 he).2
    rw [hgroup] at hre
    have hends : (r.state, r.next) = e.1 := of_decide_eq_true (List.mem_filter.1 hre).2
    exact Prod.ext hends.symm (by rw [hgroup, hends])
  perm := by
    simp only [edges, List.flatMap_map]
    exact flatMap_filter_perm (nodup_distinct _) fun r hr =>
      mem_distinct.2 (List.mem_map_of_mem hr)

/-- The names at the ends of edges, each once: the initial state first, the halting state last, the
others in increasing order. -/
structure Ends (edges : List ((String × String) × List Rule)) (names : List String) : Prop where
  nodup : names.Nodup
  ends : ∀ name, name ∈ names ↔ ∃ e ∈ edges, name = e.1.1 ∨ name = e.1.2
  initial_first : initialState ∈ names → names.head? = some initialState
  halt_last : haltState ∈ names → names.getLast? = some haltState
  increasing :
    (names.filter fun name => name ≠ initialState ∧ name ≠ haltState).Pairwise (· < ·)

def otherStates (t : RuleTable) : List String :=
  sortNames (t.stateNames.filter fun n => n ≠ initialState ∧ n ≠ haltState)

theorem states_eq (t : RuleTable) :
    t.states = (if initialState ∈ t.stateNames then [initialState] else []) ++ t.otherStates ++
      if haltState ∈ t.stateNames then [haltState] else [] := rfl

theorem ne_of_mem_otherStates (h : name ∈ t.otherStates) :
    name ≠ initialState ∧ name ≠ haltState := by
  have hname := (List.mem_filter.1 (mem_sortNames.1 h)).2
  exact of_decide_eq_true hname

theorem mem_states_iff_edges : name ∈ t.states ↔ ∃ e ∈ t.edges, name = e.1.1 ∨ name = e.1.2 := by
  rw [mem_states]
  constructor
  · rintro ⟨r, hr, hname⟩
    exact ⟨_, edge_mem hr, hname⟩
  · rintro ⟨e, he, hname⟩
    obtain ⟨⟨r, hr, hends⟩, -⟩ := mem_edges.1 he
    rw [← hends] at hname
    exact ⟨r, hr, hname⟩

theorem states_filter_others (t : RuleTable) :
    (t.states.filter fun name => name ≠ initialState ∧ name ≠ haltState) = t.otherStates := by
  have hothers : (t.otherStates.filter fun name => name ≠ initialState ∧ name ≠ haltState) =
      t.otherStates :=
    List.filter_eq_self.2 fun name h => decide_eq_true (ne_of_mem_otherStates h)
  rw [states_eq, List.filter_append, List.filter_append, hothers]
  split <;> split <;> simp

theorem states_ends (t : RuleTable) : Ends t.edges t.states where
  nodup := by
    have hdiffer : initialState ≠ haltState := by decide
    have hothers : t.otherStates.Nodup := (increasing_sortNames _).imp fun h => h.ne
    have hinitial : initialState ∉ t.otherStates := fun h => (ne_of_mem_otherStates h).1 rfl
    have hhalt : ∀ name ∈ t.otherStates, name ≠ haltState := fun _ h => (ne_of_mem_otherStates h).2
    rw [states_eq]
    split <;> split <;> simp_all [List.nodup_append]
  ends name := mem_states_iff_edges
  initial_first h := by
    have hmem : initialState ∈ t.stateNames := mem_stateNames.2 (mem_states.1 h)
    rw [states_eq, if_pos hmem]
    rfl
  halt_last h := by
    have hmem : haltState ∈ t.stateNames := mem_stateNames.2 (mem_states.1 h)
    rw [states_eq, if_pos hmem, List.getLast?_concat]
  increasing := by
    rw [states_filter_others]
    exact increasing_sortNames _

theorem joined_escaped_eq_empty_iff {names : List String} :
    ", ".intercalate (names.map Text.escape) = "" ↔ names = [] ∨ names = [""] := by
  match names with
  | [] => simp
  | [name] => simp [Text.escape_eq_empty_iff]
  | name :: name' :: names =>
    simp [← String.toList_eq_nil_iff, String.toList_intercalate]

/-- The graph of a table shows the names of its states in their order, or that there is none if
there is none with a name, and then the edges one by one: each with its ends, which are among the
states, and with all rules between them, so that every rule of the table is shown once. -/
theorem graph_shows_table (t : RuleTable) :
    Groups t.rules t.edges ∧ Ends t.edges t.states ∧
    t.graph = "\n".intercalate
      (("[heading]States:[/] " ++ if t.states = [] ∨ t.states = [""] then "none"
          else ", ".intercalate (t.states.map Text.escape)) ::
        t.edges.map fun e => "  " ++ Text.escape e.1.1 ++ " → " ++ Text.escape e.1.2 ++ ": " ++
          Text.escape (" | ".intercalate (e.2.map fun r =>
            label r.read ++ "→" ++ label r.write ++ "," ++ r.move.name))) := by
  refine ⟨edges_groups t, states_ends t, ?_⟩
  have hheader : t.statesLine = "[heading]States:[/] " ++
      if t.states = [] ∨ t.states = [""] then "none"
        else ", ".intercalate (t.states.map Text.escape) :=
    congrArg ("[heading]States:[/] " ++ ·) (if_congr joined_escaped_eq_empty_iff rfl rfl)
  rw [graph, hheader]
  rfl

/-- A table whose only state has no name is shown like one without any state. -/
theorem nameless_state_shown_as_none :
    ¬ ∀ t : RuleTable, t.states ≠ [] → t.statesLine =
      "[heading]States:[/] " ++ ", ".intercalate (t.states.map Text.escape) := by
  intro h
  have hnameless := h ⟨[⟨"", "0", "1", .right, ""⟩]⟩ (by decide +kernel)
  exact absurd hnameless (by decide +kernel)

end RuleTable

end TapeLab
