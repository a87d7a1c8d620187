import TapeLab.Text.Blank

/-!
Lines. A text behind a line feed has its own lines, after those of the text before it: no line is
lost, none is cut, and at most one empty line comes in between, where the text before has ended its
last line already.
-/

namespace TapeLab.Text

variable {s : List Char} {c : Char}

@[simp] theorem lines_eq_nil_iff : lines s = [] ↔ s = [] := by
  fun_cases lines s with
  | case1 => simp
  | case2 s => simp
  | case3 c s hpair hend => simp
  | case4 c s hpair hend => cases lines s <;> simp [extendFirst]

theorem lines_cons (h : ∀ rest, c = '\r' → s ≠ '\n' :: rest) :
    lines (c :: s) = if isLineEnd c then [] :: lines s else extendFirst c (lines s) :=
  lines.eq_3 c s h

theorem lines_cons_of_inside (hc : isLineEnd c = false) (s : List Char) :
    lines (c :: s) = extendFirst c (lines s) := by
  rw [lines_cons, hc]
  · rfl
  · rintro rest rfl
    cases hc

theorem lines_newline (s : List Char) : lines ('\n' :: s) = [] :: lines s :=
  lines_cons fun _ h => absurd h (by decide)

theorem extendFirst_append {ls : List (List Char)} (h : ls ≠ []) (c : Char)
    (ms : List (List Char)) : extendFirst c (ls ++ ms) = extendFirst c ls ++ ms := by
  cases ls with
  | nil => exact absurd rfl h
  | cons l ls => rfl

theorem lines_append_newline {line : List Char} (hline : ∀ c ∈ line, isLineEnd c = false)
    (s : List Char) : lines (line ++ '\n' :: s) = line :: lines s := by
  induction line with
  | nil => exact lines_newline s
  | cons c line ih =>
    have hrest := ih fun d hd => hline d (List.mem_cons_of_mem c hd)
    rw [List.cons_append, lines_cons_of_inside (hline c List.mem_cons_self), hrest]
    rfl

theorem lines_join (s t : List Char) :
    ∃ gap, (gap = [] ∨ gap = [[]]) ∧ lines (s ++ '\n' :: t) = lines s ++ gap ++ lines t := by
  fun_induction lines s with
  | case1 => exact ⟨[[]], .inr rfl, lines_newline t⟩
  | case2 s ih =>
    obtain ⟨gap, hgap, hlines⟩ := ih
    exact ⟨gap, hgap, by simp [lines, hlines]⟩
  | case3 c s hpair hend ih =>
    obtain ⟨gap, hgap, hlines⟩ := ih
    cases s with
    | nil =>
      by_cases hreturn : c = '\r'
      · subst hreturn
        exact ⟨[], .inl rfl, by simp [lines]⟩
      · refine ⟨[[]], .inr rfl, ?_⟩
        rw [List.cons_append, lines_cons fun _ h => absurd h hreturn, if_pos hend,
          List.nil_append, lines_newline]
        rfl
    | cons d s =>
      refine ⟨gap, hgap, ?_⟩
      rw [List.cons_append, lines_cons, if_pos hend, hlines]
      · rfl
      · rintro rest hreturn hfeed
        exact hpair s hreturn (by rw [(List.cons.inj hfeed).1])
  | case4 c s hpair hend ih =>
    have hinside : isLineEnd c = false := Bool.not_eq_true _ ▸ hend
    obtain ⟨gap, hgap, hlines⟩ := ih
    rw [List.cons_append, lines_cons_of_inside hinside]
    cases s with
    | nil => exact ⟨[], .inl rfl, by rw [List.nil_append, lines_newline]; rfl⟩
    | cons d s =>
      refine ⟨gap, hgap, ?_⟩
      rw [hlines, List.append_assoc, extendFirst_append (by simp), List.append_assoc]

end TapeLab.Text
