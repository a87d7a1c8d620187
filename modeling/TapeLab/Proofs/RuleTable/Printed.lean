import TapeLab.Proofs.RuleTable.Spec

/-!
Tables that come back from their own text. What is printed of a rule is one line that tells the
rule, unless one of its parts is no word by itself or the line looks like a remark; and no text has
rules with such parts, so every table that is read from a text comes back.
-/

namespace TapeLab

open Text

/-- A rule that its own line tells: its parts are words, and the first one does not begin like a
remark. -/
structure Rule.Printable (r : Rule) : Prop extends r.InWords where
  noRemark : r.state.toList.head? ≠ some '#' ∧ r.state.toList.head? ≠ some '/'

theorem Rule.WrittenOn.printable {line : List Char} {r : Rule}
    (hremark : RuleTable.isRemark (strip line) = false) (h : r.WrittenOn (strip line)) :
    r.Printable := by
  refine ⟨h.inWords, ?_⟩
  obtain ⟨read, write, move, more, hwords, -⟩ := h
  cases hline : strip line with
  | nil =>
    rw [hline] at hremark
    cases hremark
  | cons c rest =>
    obtain ⟨w, ws, hfirst⟩ := words_cons_of_bare (bare_head_strip line c (by simp [hline])) rest
    rw [hline] at hremark hwords
    have hstate : r.state.toList = c :: w := (List.cons.inj (hwords.symm.trans hfirst)).1
    simpa [hstate, RuleTable.isRemark] using hremark

theorem printable_of_parse {text : String} {t : RuleTable} (h : RuleTable.parse text = .ok t) :
    ∀ r ∈ t.rules, r.Printable := by
  intro r hr
  obtain ⟨line, hline, hwritten⟩ := exists_mem_of_forall₂ (RuleTable.parse_eq_ok_iff.1 h) hr
  obtain ⟨hmem, hremark⟩ := List.mem_filter.1 hline
  obtain ⟨raw, -, rfl⟩ := List.mem_map.1 hmem
  exact hwritten.printable (by simpa using hremark)

theorem isWord_label {s : Symbol} (h : s.length = 1 ∧ IsWord s.toList) :
    IsWord (label s).toList ∧ NamesSymbol (label s).toList s := by
  unfold label
  split
  · next hblank => exact ⟨by decide, .inl ⟨rfl, hblank⟩⟩
  · exact ⟨h.2, .inr ⟨h.1, String.ofList_toList.symm⟩⟩

theorem isWord_name (m : Move) : IsWord m.name.toList := by
  cases m <;> exact isWord_singleton (by decide)

namespace Rule

variable {r : Rule}

def line (r : Rule) : List Char :=
  r.state.toList ++ ' ' :: ((label r.read).toList ++ ' ' :: ((label r.write).toList ++
    ' ' :: (r.move.name.toList ++ ' ' :: r.next.toList)))

theorem toList_specLine (r : Rule) : (RuleTable.specLine r).toList = r.line ++ ['\n'] := by
  simp [RuleTable.specLine, line, toString]

namespace Printable

theorem words_line (h : r.Printable) :
    words r.line = [r.state.toList, (label r.read).toList, (label r.write).toList,
      r.move.name.toList, r.next.toList] := by
  rw [line, words_append_space h.state, words_append_space (isWord_label h.read).1,
    words_append_space (isWord_label h.write).1, words_append_space (isWord_name r.move),
    words_of_isWord h.next]

theorem writtenOn_line (h : r.Printable) : r.WrittenOn r.line :=
  ⟨_, _, _, [], h.words_line, (isWord_label h.read).2, (isWord_label h.write).2, .inl rfl⟩

theorem strip_line (h : r.Printable) : strip r.line = r.line := by
  have hstrip := strip_append h.state h.next (' ' :: ((label r.read).toList ++ ' ' ::
    ((label r.write).toList ++ ' ' :: (r.move.name.toList ++ [' ']))))
  simpa [line] using hstrip

theorem isRemark_line (h : r.Printable) : RuleTable.isRemark r.line = false := by
  obtain ⟨hhash, hslash⟩ := h.noRemark
  unfold line
  cases hstate : r.state.toList with
  | nil => exact absurd hstate h.state.ne_nil
  | cons c w =>
    rw [hstate] at hhash hslash
    simpa [RuleTable.isRemark] using And.intro hhash hslash

theorem not_isLineEnd (h : r.Printable) : ∀ c ∈ r.line, isLineEnd c = false := by
  intro c hc
  have hspace : isLineEnd ' ' = false := by decide
  simp only [line, List.mem_append, List.mem_cons] at hc
  rcases hc with hc | rfl | hc | rfl | hc | rfl | hc | rfl | hc
  · exact h.state.not_isLineEnd hc
  · exact hspace
  · exact (isWord_label h.read).1.not_isLineEnd hc
  · exact hspace
  · exact (isWord_label h.write).1.not_isLineEnd hc
  · exact hspace
  · exact (isWord_name r.move).not_isLineEnd hc
  · exact hspace
  · exact h.next.not_isLineEnd hc

end Printable

end Rule

namespace RuleTable

theorem toList_spec (rules : List Rule) :
    (spec ⟨rules⟩).toList = rules.flatMap fun r => r.line ++ ['\n'] := by
  simp [spec, String.toList_join, Rule.toList_specLine, List.flatMap_map]

theorem lines_spec {rules : List Rule} (h : ∀ r ∈ rules, r.Printable) :
    lines (spec ⟨rules⟩).toList = rules.map Rule.line := by
  rw [toList_spec]
  induction rules with
  | nil => rfl
  | cons r rules ih =>
    rw [List.forall_mem_cons] at h
    rw [List.flatMap_cons, List.append_assoc, List.singleton_append,
      lines_append_newline h.1.not_isLineEnd, ih h.2, List.map_cons]

theorem ruleLines_spec {rules : List Rule} (h : ∀ r ∈ rules, r.Printable) :
    ruleLines (rules.map Rule.line) = rules.map Rule.line := by
  have hstrip : (rules.map Rule.line).map strip = rules.map Rule.line := by
    simpa using fun r hr => (h r hr).strip_line
  rw [ruleLines, hstrip, List.filter_eq_self]
  intro line hline
  obtain ⟨r, hr, rfl⟩ := List.mem_map.1 hline
  simp [(h r hr).isRemark_line]

theorem parse_spec_of_printable {t : RuleTable} (h : ∀ r ∈ t.rules, r.Printable) :
    parse t.spec = .ok t := by
  rw [parse_eq_ok_iff, lines_spec h, ruleLines_spec h, List.forall₂_map_left_iff,
    List.forall₂_same]
  exact fun r hr => (h r hr).writtenOn_line

/-- A table comes back from its own text just if all its rules can be printed; and so do just the
tables that any text describes. -/
theorem parse_spec_iff (t : RuleTable) :
    (parse t.spec = .ok t ↔ ∀ r ∈ t.rules, r.Printable) ∧
    ((∃ text, parse text = .ok t) ↔ parse t.spec = .ok t) := by
  refine ⟨⟨printable_of_parse, parse_spec_of_printable⟩, ?_, fun h => ⟨_, h⟩⟩
  rintro ⟨text, htext⟩
  exact parse_spec_of_printable (printable_of_parse htext)

/-- The signs of remarks do no harm behind the first character, nor as symbols. An empty symbol lets
a line of five words tell another rule. -/
theorem parse_spec_odd_signs :
    (∀ r ∈ [(⟨"a#", "/", blank, .stay, "/"⟩ : Rule)], r.Printable) ∧
    parse (spec ⟨[⟨"a#", "/", blank, .stay, "/"⟩]⟩) = .ok ⟨[⟨"a#", "/", blank, .stay, "/"⟩]⟩ ∧
    (∃ text, parse text = .ok ⟨[⟨"a#", "/", blank, .stay, "/"⟩]⟩) ∧
    parse (spec ⟨[⟨"a", "", "0", .left, "R b"⟩]⟩) ≠ .ok ⟨[⟨"a", "", "0", .left, "R b"⟩]⟩ := by
  have hprintable : ∀ r ∈ [(⟨"a#", "/", blank, .stay, "/"⟩ : Rule)], r.Printable := by
    rw [List.forall_mem_singleton]
    exact ⟨⟨by decide, by decide, by decide, by decide⟩, by decide⟩
  obtain ⟨hiff, hread⟩ := parse_spec_iff ⟨[⟨"a#", "/", blank, .stay, "/"⟩]⟩
  have hparse := hiff.2 hprintable
  refine ⟨hprintable, hparse, hread.2 hparse, fun h => ?_⟩
  have hempty := ((parse_spec_iff _).1.1 h _ List.mem_cons_self).read.1
  cases hempty

end RuleTable

end TapeLab
