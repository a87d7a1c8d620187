import Mathlib.Data.List.Forall2
import TapeLab.RuleTable.Spec
import TapeLab.Proofs.Rule
import TapeLab.Proofs.Text.Lines

/-!
Which texts describe a rule table, and which one. A text does if each of its lines that is no remark
holds a rule, and then its table has these rules, in their order; otherwise the first line that does
not is told by its number. Two texts that describe tables describe both, one after the other, when
they are joined by a line feed.
-/

namespace TapeLab

open Text

def ruleLines (lines : List (List Char)) : List (List Char) :=
  (lines.map strip).filter fun line => !RuleTable.isRemark line

/-- There are five words at least, the second and the third are symbols and the fourth is a move. -/
def HoldsRule (line : List Char) : Prop :=
  ∃ state read write move next more,
    words line = state :: read :: write :: move :: next :: more ∧
    (read = "blank".toList ∨ read.length = 1) ∧ (write = "blank".toList ∨ write.length = 1) ∧
    move ∈ [['l'], ['L'], ['n'], ['N'], ['r'], ['R']]

def IsFault (line : List Char) : Prop :=
  RuleTable.isRemark (strip line) = false ∧ ¬ HoldsRule (strip line)

/-- The first line at fault, where lines are numbered from one. -/
def FirstFault (lines : List (List Char)) (number : Nat) : Prop :=
  ∃ before line after, lines = before ++ line :: after ∧ number = before.length + 1 ∧
    IsFault line ∧ ∀ l ∈ before, ¬ IsFault l

theorem exists_forall₂_iff {α β : Type} {R : α → β → Prop} {as : List α} :
    (∃ bs, List.Forall₂ R as bs) ↔ ∀ a ∈ as, ∃ b, R a b := by
  induction as with
  | nil => simp
  | cons a as ih =>
    rw [List.forall_mem_cons, ← ih]
    constructor
    · rintro ⟨_, _ | ⟨hb, hbs⟩⟩
      exact ⟨⟨_, hb⟩, _, hbs⟩
    · rintro ⟨⟨b, hb⟩, bs, hbs⟩
      exact ⟨b :: bs, .cons hb hbs⟩

theorem exists_mem_of_forall₂ {α β : Type} {R : α → β → Prop} {as : List α} {bs : List β}
    (h : List.Forall₂ R as bs) {b : β} (hb : b ∈ bs) : ∃ a ∈ as, R a b := by
  induction h with
  | nil => cases hb
  | cons hab hrest ih =>
    rcases List.mem_cons.1 hb with rfl | hb
    · exact ⟨_, List.mem_cons_self, hab⟩
    · obtain ⟨a, ha, hR⟩ := ih hb
      exact ⟨a, List.mem_cons_of_mem _ ha, hR⟩

theorem namesSymbol_iff {word : List Char} :
    (∃ s, NamesSymbol word s) ↔ word = "blank".toList ∨ word.length = 1 := by
  simp [NamesSymbol, exists_or]

theorem namesMove_iff {word : List Char} :
    (∃ m, NamesMove word m) ↔ word ∈ [['l'], ['L'], ['n'], ['N'], ['r'], ['R']] := by
  constructor
  · rintro ⟨m, hm⟩
    cases m with
    | left => rcases hm with rfl | rfl <;> decide
    | stay => rcases hm with rfl | rfl <;> decide
    | right => rcases hm with rfl | rfl <;> decide
  · simp only [List.mem_cons, List.not_mem_nil, or_false]
    rintro (rfl | rfl | rfl | rfl | rfl | rfl)
    · exact ⟨.left, .inr rfl⟩
    · exact ⟨.left, .inl rfl⟩
    · exact ⟨.stay, .inr rfl⟩
    · exact ⟨.stay, .inl rfl⟩
    · exact ⟨.right, .inr rfl⟩
    · exact ⟨.right, .inl rfl⟩

theorem holdsRule_iff {line : List Char} : HoldsRule line ↔ ∃ r : Rule, r.WrittenOn line := by
  unfold HoldsRule
  simp only [← namesSymbol_iff, ← namesMove_iff]
  constructor
  · rintro ⟨state, read, write, move, next, more, hwords, ⟨s, hs⟩, ⟨s', hs'⟩, ⟨m, hm⟩⟩
    refine ⟨⟨String.ofList state, s, s', m, String.ofList next⟩, read, write, move, more, ?_, hs,
      hs', hm⟩
    rw [hwords, String.toList_ofList, String.toList_ofList]
  · rintro ⟨r, read, write, move, more, hwords, hread, hwrite, hmove⟩
    exact ⟨_, read, write, move, _, more, hwords, ⟨_, hread⟩, ⟨_, hwrite⟩, ⟨_, hmove⟩⟩

theorem isFault_iff {line : List Char} :
    IsFault line ↔ RuleTable.isRemark (strip line) = false ∧
      ∃ cause, Rule.parse (String.ofList (strip line)) = .error cause := by
  unfold IsFault
  rw [holdsRule_iff]
  simp only [← Rule.parse_eq_ok_iff]
  cases Rule.parse (String.ofList (strip line)) <;> simp

theorem firstFault_cons {line : List Char} {rest : List (List Char)} {number : Nat} :
    FirstFault (line :: rest) number ↔
      (IsFault line ∧ number = 1) ∨
        (¬ IsFault line ∧ ∃ n, FirstFault rest n ∧ number = n + 1) := by
  constructor
  · rintro ⟨before, l, after, hlines, rfl, hfault, hbefore⟩
    cases before with
    | nil =>
      obtain ⟨rfl, rfl⟩ := List.cons.inj hlines
      exact .inl ⟨hfault, rfl⟩
    | cons m before =>
      obtain ⟨rfl, rfl⟩ := List.cons.inj hlines
      rw [List.forall_mem_cons] at hbefore
      exact .inr ⟨hbefore.1, _, ⟨before, l, after, rfl, rfl, hfault, hbefore.2⟩, rfl⟩
  · rintro (⟨hfault, rfl⟩ | ⟨hline, n, ⟨before, l, after, rfl, rfl, hfault, hbefore⟩, rfl⟩)
    · exact ⟨[], line, rest, rfl, rfl, hfault, by simp⟩
    · exact ⟨line :: before, l, after, rfl, rfl, hfault, List.forall_mem_cons.2 ⟨hline, hbefore⟩⟩

theorem ruleLines_cons (line : List Char) (rest : List (List Char)) :
    ruleLines (line :: rest) =
      if RuleTable.isRemark (strip line) then ruleLines rest
      else strip line :: ruleLines rest := by
  unfold ruleLines
  cases h : RuleTable.isRemark (strip line) <;> simp [h]

theorem ruleLines_append (before after : List (List Char)) :
    ruleLines (before ++ after) = ruleLines before ++ ruleLines after := by
  simp [ruleLines]

namespace RuleTable

theorem parseLines_eq_ok_iff {lines : List (List Char)} {number : Nat} {rules : List Rule} :
    parseLines number lines = .ok rules ↔
      List.Forall₂ Rule.WrittenOn (ruleLines lines) rules := by
  induction lines generalizing number rules with
  | nil => simp [parseLines, ruleLines, eq_comm]
  | cons line rest ih =>
    rw [parseLines, ruleLines_cons]
    split
    · exact ih
    · rw [List.forall₂_cons_left_iff]
      simp only [← @ih (number + 1)]
      simp only [← Rule.parse_eq_ok_iff]
      cases Rule.parse (String.ofList (strip line)) with
      | error cause => simp
      | ok r =>
        cases parseLines (number + 1) rest with
        | error e => simp [Except.map]
        | ok rs => simp [Except.map, eq_comm]

theorem parseLines_error_iff {lines : List (List Char)} {number told : Nat} :
    (∃ e, parseLines number lines = .error e ∧ e.line = told) ↔
      ∃ n, FirstFault lines n ∧ told + 1 = number + n := by
  induction lines generalizing number with
  | nil => simp [parseLines, FirstFault]
  | cons line rest ih =>
    have hrest : (∃ n, FirstFault rest n ∧ told + 1 = number + 1 + n) ↔
        ∃ n, (∃ m, FirstFault rest m ∧ n = m + 1) ∧ told + 1 = number + n := by
      constructor
      · rintro ⟨n, hn, htold⟩
        exact ⟨n + 1, ⟨n, hn, rfl⟩, by omega⟩
      · rintro ⟨_, ⟨n, hn, rfl⟩, htold⟩
        exact ⟨n, hn, by omega⟩
    rw [parseLines]
    simp only [firstFault_cons, isFault_iff]
    cases hremark : isRemark (strip line) with
    | true => simp [ih, hrest]
    | false =>
      cases hparse : Rule.parse (String.ofList (strip line)) with
      | error cause => simp [eq_comm]
      | ok r =>
        have hmap : (∃ e, (parseLines (number + 1) rest).map (r :: ·) = .error e ∧ e.line = told) ↔
            ∃ e, parseLines (number + 1) rest = .error e ∧ e.line = told := by
          cases parseLines (number + 1) rest <;> simp [Except.map]
        simp [hmap, ih, hrest]

theorem parse_eq_ok_iff {text : String} {t : RuleTable} :
    parse text = .ok t ↔
      List.Forall₂ Rule.WrittenOn (ruleLines (lines text.toList)) t.rules := by
  rw [← @parseLines_eq_ok_iff _ 1, parse]
  cases parseLines 1 (lines text.toList) with
  | error e => simp [Except.map]
  | ok rules =>
    obtain ⟨own⟩ := t
    simp [Except.map]

theorem parse_error_iff {text : String} {number : Nat} :
    (∃ e, parse text = .error e ∧ e.line = number) ↔ FirstFault (lines text.toList) number := by
  have hlines := @parseLines_error_iff (lines text.toList) 1 number
  have hmap : (∃ e, parse text = .error e ∧ e.line = number) ↔
      ∃ e, parseLines 1 (lines text.toList) = .error e ∧ e.line = number := by
    unfold parse
    cases parseLines 1 (lines text.toList) <;> simp [Except.map]
  rw [hmap, hlines]
  constructor
  · rintro ⟨n, hn, hnumber⟩
    obtain rfl : number = n := by omega
    exact hn
  · intro hnumber
    exact ⟨number, hnumber, Nat.add_comm number 1⟩

theorem ruleLines_join (s t : List Char) :
    ruleLines (lines (s ++ '\n' :: t)) = ruleLines (lines s) ++ ruleLines (lines t) := by
  obtain ⟨gap, hgap, hlines⟩ := lines_join s t
  have hnone : ruleLines gap = [] := by
    rcases hgap with rfl | rfl
    · rfl
    · rfl
  rw [hlines, ruleLines_append, ruleLines_append, hnone, List.append_nil]

theorem parse_join {text more : String} {t u : RuleTable} (ht : parse text = .ok t)
    (hu : parse more = .ok u) : parse (text ++ "\n" ++ more) = .ok ⟨t.rules ++ u.rules⟩ := by
  have hchars : (text ++ "\n" ++ more).toList = text.toList ++ '\n' :: more.toList := by simp
  rw [parse_eq_ok_iff, hchars, ruleLines_join]
  exact List.rel_append (parse_eq_ok_iff.1 ht) (parse_eq_ok_iff.1 hu)

/-- A text describes a table just if all its lines that are no remarks hold rules, and the table
then has one rule for each of these lines, told by the line's first five words. Otherwise the error
tells the number of the first line at fault, remarks and empty lines counted. So two texts that are
joined by a line feed describe the rules of both, whatever their own line ends are. -/
theorem parse_line_by_line (text : String) :
    ((∃ t, parse text = .ok t) ↔ ∀ line ∈ ruleLines (lines text.toList), HoldsRule line) ∧
    (∀ t, parse text = .ok t ↔
      List.Forall₂ Rule.WrittenOn (ruleLines (lines text.toList)) t.rules) ∧
    (∀ number, (∃ (e : SpecError) (cause : String), parse text = .error e ∧ e.line = number ∧
      e.message = s!"Line {number}: {cause}") ↔ FirstFault (lines text.toList) number) ∧
    ∀ more t u, parse text = .ok t → parse more = .ok u →
      parse (text ++ "\n" ++ more) = .ok ⟨t.rules ++ u.rules⟩ := by
  refine ⟨?_, fun t => parse_eq_ok_iff, fun number => ?_, fun more t u => parse_join⟩
  · simp only [holdsRule_iff, ← exists_forall₂_iff, parse_eq_ok_iff]
    constructor
    · rintro ⟨t, ht⟩
      exact ⟨t.rules, ht⟩
    · rintro ⟨rules, hrules⟩
      exact ⟨⟨rules⟩, hrules⟩
  · rw [← parse_error_iff]
    constructor
    · rintro ⟨e, -, he, hline, -⟩
      exact ⟨e, he, hline⟩
    · rintro ⟨e, he, rfl⟩
      exact ⟨e, e.cause.message, he, rfl, rfl⟩

/-- The first text ends with a carriage return, which the line feed goes with; the second one begins
with an empty line and a remark; and the third has a fault in its third line. -/
theorem parse_joined_texts :
    ∃ t u, parse "q0 0 1 R q0\r" = .ok t ∧ parse "\n# on\nq1 blank é n HALT at once" = .ok u ∧
      t.rules = [⟨"q0", "0", "1", .right, "q0"⟩] ∧ u.rules = [⟨"q1", blank, "é", .stay, "HALT"⟩] ∧
      parse ("q0 0 1 R q0\r" ++ "\n" ++ "\n# on\nq1 blank é n HALT at once") =
        .ok ⟨t.rules ++ u.rules⟩ ∧
      FirstFault (lines "/ off\r\n\nq0 0 10 R q0".toList) 3 := by
  obtain ⟨-, -, -, hjoin⟩ := parse_line_by_line "q0 0 1 R q0\r"
  obtain ⟨-, -, hfault, -⟩ := parse_line_by_line "/ off\r\n\nq0 0 10 R q0"
  have ht : parse "q0 0 1 R q0\r" = .ok ⟨[⟨"q0", "0", "1", .right, "q0"⟩]⟩ := by decide +kernel
  have hu : parse "\n# on\nq1 blank é n HALT at once" =
      .ok ⟨[⟨"q1", blank, "é", .stay, "HALT"⟩]⟩ := by decide +kernel
  have herror : parse "/ off\r\n\nq0 0 10 R q0" = .error ⟨3, .notOneCharacter "10"⟩ := by
    decide +kernel
  exact ⟨_, _, ht, hu, rfl, rfl, hjoin _ _ _ ht hu, (hfault 3).1 ⟨_, _, herror, rfl, rfl⟩⟩

end RuleTable

end TapeLab
