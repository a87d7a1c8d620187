import Mathlib.Data.List.TakeWhile
import TapeLab.Text.Numeral

/-!
Numerals of digits only. No digit of any script is white space, a sign or an underscore; so a text
of digits is read from its first character on, up to the first digit that has no decimal value, and
it stands for a number just if there is none such and the digits are not too many.
-/

namespace TapeLab.Text

variable {s : List Char} {c : Char}

def marks : List Nat :=
  [0x09, 0x0A, 0x0B, 0x0C, 0x0D, 0x1C, 0x1D, 0x1E, 0x1F, 0x20, 0x2B, 0x2D, 0x5F, 0x85, 0xA0, 0x1680,
    0x2000, 0x2001, 0x2002, 0x2003, 0x2004, 0x2005, 0x2006, 0x2007, 0x2008, 0x2009, 0x200A, 0x2028,
    0x2029, 0x202F, 0x205F, 0x3000]

theorem marks_apart :
    (∀ n ∈ marks, ∀ z ∈ decimalZeros, ¬ (z ≤ n ∧ n ≤ z + 9)) ∧
      ∀ n ∈ marks, ∀ r ∈ otherDigits, ¬ (r.1 ≤ n ∧ n ≤ r.2) := by
  decide +kernel

theorem not_mem_marks (h : isDigit c = true) : c.toNat ∉ marks := by
  intro mark
  rcases Bool.or_eq_true_iff.1 h with decimal | other
  · obtain ⟨n, value⟩ := Option.isSome_iff_exists.1 decimal
    obtain ⟨z, found, -⟩ := Option.map_eq_some_iff.1 value
    have within := List.find?_some found
    simp only [Bool.and_eq_true, decide_eq_true_eq] at within
    exact marks_apart.1 _ mark z (List.mem_of_find?_eq_some found) within
  · obtain ⟨r, listed, within⟩ := List.any_eq_true.1 other
    simp only [Bool.and_eq_true, decide_eq_true_eq] at within
    exact marks_apart.2 _ mark r listed within

theorem isNumeralBlank_eq_false (h : isDigit c = true) : isNumeralBlank c = false := by
  have mark := not_mem_marks h
  cases blank : isNumeralBlank c with
  | false => rfl
  | true =>
    refine absurd ?_ mark
    simp only [isNumeralBlank, isBlank, Bool.and_eq_true, Bool.or_eq_true, decide_eq_true_eq,
      beq_iff_eq] at blank
    simp only [marks, List.mem_cons, List.not_mem_nil, or_false]
    omega

theorem ne_of_isDigit (h : isDigit c = true) : c ≠ '-' ∧ c ≠ '+' ∧ c ≠ '_' := by
  refine ⟨?_, ?_, ?_⟩ <;>
  · rintro rfl
    exact not_mem_marks h (by decide)

def isDecimal (c : Char) : Bool := (decimalValue? c).isSome

theorem readDigits_of_digits (digits : ∀ c ∈ s, isDigit c = true) (value count : Nat)
    {afterDigit : Bool} (start : afterDigit = true ∨ count = 0) :
    ∃ value', readDigits value count afterDigit s =
      some (value', count + (s.takeWhile isDecimal).length, s.dropWhile isDecimal) := by
  induction s generalizing value count afterDigit with
  | nil =>
    have closed : (afterDigit || count == 0) = true := by simpa using start
    exact ⟨value, by simp [readDigits, closed]⟩
  | cons c s ih =>
    rw [readDigits]
    cases decimal : decimalValue? c with
    | none =>
      have isOther : isDecimal c = false := by simp [isDecimal, decimal]
      have underscore := (ne_of_isDigit (digits c List.mem_cons_self)).2.2
      have closed : (afterDigit || count == 0) = true := by simpa using start
      exact ⟨value, by simp [isOther, underscore, closed]⟩
    | some d =>
      have isDecimal : isDecimal c = true := by simp [isDecimal, decimal]
      obtain ⟨value', read⟩ := ih (fun c hc => digits c (List.mem_cons_of_mem _ hc))
        (10 * value + d) (count + 1) (.inl rfl)
      refine ⟨value', ?_⟩
      simp only [read, List.takeWhile_cons, List.dropWhile_cons, isDecimal, if_true,
        List.length_cons]
      rw [Nat.add_right_comm, Nat.add_assoc]

theorem dropWhile_of_digits (digits : ∀ c ∈ s, isDigit c = true) :
    s.dropWhile isNumeralBlank = s := by
  cases s with
  | nil => rfl
  | cons c s => simp [isNumeralBlank_eq_false (digits c List.mem_cons_self)]

theorem readSign_of_digits (digits : ∀ c ∈ s, isDigit c = true) : readSign s = (false, s) := by
  unfold readSign
  split
  · exact absurd rfl (ne_of_isDigit (digits _ List.mem_cons_self)).1
  · exact absurd rfl (ne_of_isDigit (digits _ List.mem_cons_self)).2.1
  · rfl

theorem all_isNumeralBlank_iff (digits : ∀ c ∈ s, isDigit c = true) :
    s.all isNumeralBlank = true ↔ s = [] := by
  cases s with
  | nil => simp
  | cons c s => simp [isNumeralBlank_eq_false (digits c List.mem_cons_self)]

theorem readInt_of_digits {text : String} (digits : ∀ c ∈ text.toList, isDigit c = true) :
    ∃ value : Nat, readInt text =
      if (text.toList.takeWhile isDecimal).length = 0 then .error (.malformed text)
      else if maxDigits < (text.toList.takeWhile isDecimal).length then
        .error (.tooLong (text.toList.takeWhile isDecimal).length)
      else if text.toList.dropWhile isDecimal = [] then .ok value
      else .error (.malformed text) := by
  obtain ⟨value, read⟩ := readDigits_of_digits digits 0 0 (.inr rfl : false = true ∨ 0 = 0)
  have rest := all_isNumeralBlank_iff fun c hc =>
    digits c ((List.dropWhile_suffix isDecimal).subset hc)
  refine ⟨value, ?_⟩
  unfold readInt
  simp only [dropWhile_of_digits digits, readSign_of_digits digits, read, Nat.zero_add, rest,
    Bool.false_eq_true, if_false]

/-- Digits that stand for no number: one of them has no decimal value, or they are too many. -/
def IsUnread (text : String) : Prop :=
  (∃ c ∈ text.toList, decimalValue? c = none) ∨ maxDigits < text.toList.length

theorem readInt_of_isUnread {text : String} (digits : isDigits text.toList = true)
    (unread : IsUnread text) : ∃ cause, readInt text = .error cause := by
  obtain ⟨value, read⟩ := readInt_of_digits (List.all_eq_true.1 (Bool.and_eq_true_iff.1 digits).2)
  rw [read]
  split
  · exact ⟨_, rfl⟩
  · split
    · exact ⟨_, rfl⟩
    · next short =>
      split
      · next rest =>
        have decimal := List.dropWhile_eq_nil_iff.1 rest
        have whole : text.toList.takeWhile isDecimal = text.toList :=
          List.takeWhile_eq_self_iff.2 decimal
        rw [whole] at short
        rcases unread with ⟨c, hc, other⟩ | long
        · have := decimal c hc
          simp [isDecimal, other] at this
        · exact absurd long short
      · exact ⟨_, rfl⟩

theorem readInt_of_not_isUnread {text : String} (digits : isDigits text.toList = true)
    (read : ¬ IsUnread text) : ∃ value : Nat, readInt text = .ok value := by
  obtain ⟨filled, all⟩ := Bool.and_eq_true_iff.1 digits
  obtain ⟨value, hread⟩ := readInt_of_digits (List.all_eq_true.1 all)
  have decimal : ∀ c ∈ text.toList, isDecimal c = true := by
    intro c hc
    cases value? : decimalValue? c with
    | none => exact absurd (.inl ⟨c, hc, value?⟩) read
    | some d => simp [isDecimal, value?]
  have whole : text.toList.takeWhile isDecimal = text.toList :=
    List.takeWhile_eq_self_iff.2 decimal
  have rest : text.toList.dropWhile isDecimal = [] := List.dropWhile_eq_nil_iff.2 decimal
  have filled : text.toList.length ≠ 0 := by simpa using filled
  rw [whole, if_neg filled, if_neg fun long => read (.inr long), if_pos rest] at hread
  exact ⟨value, hread⟩

end TapeLab.Text
