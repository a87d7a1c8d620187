import Mathlib.Tactic.ByContra
import TapeLab.RuleTable

/-!
The Turing machine of the textbooks, for the same rule tables. Its tape has no ends: a configuration
is a state with a symbol for every integer, counted from the head. Of the rules that match, the
first one counts. There is no transition out of the halting state, and none where no rule matches.
-/

namespace TapeLab.Textbook

structure Config where
  state : String
  cells : Int → Symbol

def Matches (c : Config) (r : Rule) : Prop := r.state = c.state ∧ r.read = c.cells 0

/-- The rule stands in the table, matches, and no rule before it does. -/
def FirstMatch (t : RuleTable) (c : Config) (r : Rule) : Prop :=
  ∃ before after, t.rules = before ++ r :: after ∧ Matches c r ∧ ∀ s ∈ before, ¬ Matches c s

def NoMatch (t : RuleTable) (c : Config) : Prop := ∀ r ∈ t.rules, ¬ Matches c r

def Config.apply (c : Config) (r : Rule) : Config where
  state := r.next
  cells k := if k + r.move.offset = 0 then r.write else c.cells (k + r.move.offset)

inductive Step (t : RuleTable) (c : Config) : Config → Prop
  | apply {r : Rule} (running : c.state ≠ haltState) (first : FirstMatch t c r) :
      Step t c (c.apply r)

/-- So many transitions, one after the other. -/
inductive Steps (t : RuleTable) (c : Config) : Nat → Config → Prop
  | none : Steps t c 0 c
  | more {n : Nat} {d e : Config} : Steps t c n d → Step t d e → Steps t c (n + 1) e

def Stuck (t : RuleTable) (c : Config) : Prop := c.state ≠ haltState ∧ NoMatch t c

def Final (t : RuleTable) (c : Config) : Prop := ∀ d, ¬ Step t c d

/-- The halting state is entered, in this configuration, by one of so many transitions. -/
def Halts (t : RuleTable) (c : Config) (limit : Nat) (d : Config) : Prop :=
  ∃ n, n ≤ limit ∧ Steps t c n d ∧ d.state = haltState

/-- A rule is missing after fewer transitions than that. -/
def GetsStuck (t : RuleTable) (c : Config) (limit : Nat) : Prop :=
  ∃ n d, n < limit ∧ Steps t c n d ∧ Stuck t d

def Config.window (c : Config) (first : Int) (count : Nat) : List Symbol :=
  (List.range count).map fun i : Nat => c.cells (first + i)

/-- The tape has only finitely many symbols that are not blank, and from left to right they are
these. -/
def Shows (c : Config) (word : List Symbol) : Prop :=
  ∃ (first : Int) (count : Nat), (∀ k, c.cells k ≠ blank → first ≤ k ∧ k < first + count) ∧
    written (c.window first count) = word

/-- The initial state, on a tape with the given cells, or one blank cell if there are none, and with
the head moved into them. -/
def Config.start (cells : List Symbol) (head : Int) : Config :=
  let cells := if cells = [] then [blank] else cells
  let head := max 0 (min head (cells.length - 1))
  { state := initialState
    cells := fun k => if 0 ≤ head + k then cells.getD (head + k).toNat blank else blank }

variable {t : RuleTable} {c d e : Config} {r s : Rule} {n m : Nat}

instance (c : Config) : DecidablePred (Matches c) := fun _ => inferInstanceAs (Decidable (_ ∧ _))

theorem firstMatch_iff_find? :
    FirstMatch t c r ↔ t.rules.find? (fun s => decide (Matches c s)) = some r := by
  rw [List.find?_eq_some_iff_append]
  constructor
  · rintro ⟨before, after, hsplit, hr, hbefore⟩
    exact ⟨by simpa using hr, before, after, hsplit, by simpa using hbefore⟩
  · rintro ⟨hr, before, after, hsplit, hbefore⟩
    exact ⟨before, after, hsplit, by simpa using hr, by simpa using hbefore⟩

theorem noMatch_iff_find? :
    NoMatch t c ↔ t.rules.find? (fun s => decide (Matches c s)) = none := by
  simp [NoMatch, List.find?_eq_none]

theorem FirstMatch.unique (hr : FirstMatch t c r) (hs : FirstMatch t c s) : r = s := by
  rw [firstMatch_iff_find?] at hr hs
  exact Option.some.inj (hr.symm.trans hs)

theorem NoMatch.not_firstMatch (h : NoMatch t c) : ¬ FirstMatch t c r := by
  rintro ⟨before, after, hsplit, hr, -⟩
  exact h r (by simp [hsplit]) hr

theorem Step.unique (hd : Step t c d) (he : Step t c e) : d = e := by
  cases hd with
  | apply _ hr =>
    cases he with
    | apply _ hs => rw [hr.unique hs]

theorem Steps.unique (hd : Steps t c n d) (he : Steps t c n e) : d = e := by
  induction hd generalizing e with
  | none => cases he; rfl
  | more _ hstep ih =>
    cases he with
    | more hrun hlast =>
      obtain rfl := ih hrun
      exact hstep.unique hlast

theorem Steps.stopEarly (h : Steps t c n d) (hm : m ≤ n) : ∃ e, Steps t c m e := by
  induction h with
  | none => exact ⟨c, (Nat.le_zero.1 hm) ▸ .none⟩
  | @more n d e hrun hstep ih =>
    rcases Nat.lt_or_ge n m with hlt | hge
    · obtain rfl : m = n + 1 := by omega
      exact ⟨e, hrun.more hstep⟩
    · exact ih hge

theorem Final.length_le (hfinal : Final t d) (hd : Steps t c n d) (he : Steps t c m e) : m ≤ n := by
  by_contra hlt
  obtain ⟨f, hf⟩ := he.stopEarly (m := n + 1) (by omega)
  cases hf with
  | more hrun hstep =>
    obtain rfl := hd.unique hrun
    exact hfinal _ hstep

theorem final_of_halt (h : c.state = haltState) : Final t c := by
  rintro d ⟨hrunning, -⟩
  exact hrunning h

theorem final_of_noMatch (h : NoMatch t c) : Final t c := by
  rintro d ⟨-, hfirst⟩
  exact h.not_firstMatch hfirst

theorem Stuck.final (h : Stuck t c) : Final t c := final_of_noMatch h.2

theorem Final.halt_or_stuck (h : Final t c) : c.state = haltState ∨ Stuck t c := by
  by_cases hstate : c.state = haltState
  · exact .inl hstate
  · refine .inr ⟨hstate, noMatch_iff_find?.2 ?_⟩
    rw [Option.eq_none_iff_forall_ne_some]
    exact fun r hr => h _ (.apply hstate (firstMatch_iff_find?.2 hr))

theorem Final.unique (hfinal : Final t d) (hd : Steps t c n d) (hfinal' : Final t e)
    (he : Steps t c m e) : d = e := by
  obtain rfl : n = m := Nat.le_antisymm (hfinal'.length_le he hd) (hfinal.length_le hd he)
  exact hd.unique he

variable {limit : Nat}

theorem Halts.eq (h : Halts t c limit d) (hfinal : Final t e) (he : Steps t c n e) : d = e := by
  obtain ⟨m, -, hm, hstate⟩ := h
  exact (final_of_halt hstate).unique hm hfinal he

theorem not_halts_of_steps (hd : Steps t c limit d) (hstate : d.state ≠ haltState) :
    ¬ Halts t c limit e := by
  rintro ⟨n, hle, he, hhalt⟩
  obtain rfl : n = limit := Nat.le_antisymm hle ((final_of_halt hhalt).length_le he hd)
  exact hstate (hd.unique he ▸ hhalt)

theorem not_getsStuck_of_steps (hd : Steps t c limit d) : ¬ GetsStuck t c limit := by
  rintro ⟨n, e, hlt, he, hstuck⟩
  exact absurd (hstuck.final.length_le he hd) (Nat.not_le.2 hlt)

theorem written_eq_nil {cells : List Symbol} (h : ∀ s ∈ cells, s = blank) : written cells = [] := by
  simpa [written, List.filter_eq_nil_iff] using h

/-- Cells on both sides that are all blank add nothing to what is read. -/
theorem written_window_widen (c : Config) (first : Int) (left count right : Nat)
    (h : ∀ k, c.cells k ≠ blank → first + left ≤ k ∧ k < first + left + count) :
    written (c.window first (left + count + right)) = written (c.window (first + left) count) := by
  have hleft : written (c.window first left) = [] := by
    refine written_eq_nil fun s hs => ?_
    obtain ⟨i, hi, rfl⟩ := List.mem_map.1 hs
    rw [List.mem_range] at hi
    by_contra hne
    have := h _ hne
    omega
  have hright : written (c.window (first + (left + count : Nat)) right) = [] := by
    refine written_eq_nil fun s hs => ?_
    obtain ⟨i, hi, rfl⟩ := List.mem_map.1 hs
    by_contra hne
    have := h _ hne
    omega
  have hsplit : c.window first (left + count + right) =
      c.window first left ++ c.window (first + left) count ++
        c.window (first + (left + count : Nat)) right := by
    simp [Config.window, List.range_add, Function.comp_def, Int.add_assoc]
  rw [hsplit]
  simp only [written, List.filter_append] at hleft hright ⊢
  rw [hleft, hright, List.nil_append, List.append_nil]

theorem Shows.unique {v w : List Symbol} (hv : Shows c v) (hw : Shows c w) : v = w := by
  obtain ⟨a, n, ha, rfl⟩ := hv
  obtain ⟨b, m, hb, rfl⟩ := hw
  -- Both windows are compared with one that covers them.
  obtain ⟨first, hfirst⟩ : ∃ i, i = min a b := ⟨_, rfl⟩
  obtain ⟨last, hlast⟩ : ∃ i, i = max (a + n) (b + m) := ⟨_, rfl⟩
  have widen : ∀ (p : Int) (k : Nat), first ≤ p → p + k ≤ last →
      (∀ i, c.cells i ≠ blank → p ≤ i ∧ i < p + k) →
      written (c.window first (last - first).toNat) = written (c.window p k) := by
    intro p k hp hq hk
    have h := written_window_widen c first (p - first).toNat k (last - (p + k)).toNat (by
      intro i hi
      have := hk i hi
      omega)
    have hleft : first + ((p - first).toNat : Int) = p := by omega
    have hcount : (p - first).toNat + k + (last - (p + k)).toNat = (last - first).toNat := by omega
    rwa [hleft, hcount] at h
  exact (widen a n (by omega) (by omega) ha).symm.trans (widen b m (by omega) (by omega) hb)

end TapeLab.Textbook
