import TapeLab.Json.Printer
import TapeLab.Json.Reader

/-!
Texts and whole numbers are read as they were written, up to what follows them. A text ends with its
quote; a number ends where neither a digit nor a point nor an exponent goes on.
-/

namespace TapeLab.Json

variable {s : List Char} {n : Nat}

theorem hexValue?_hexDigit : ∀ d < 16, hexValue? (Text.hexDigit d) = some d := by decide

theorem hexCode?_hexText (h : n < 0x10000) :
    ∃ a b c d, Text.hexText 4 n = [a, b, c, d] ∧ hexCode? a b c d = some n := by
  have digit (m : Nat) := hexValue?_hexDigit (m % 16) (by omega)
  refine ⟨_, _, _, _, rfl, ?_⟩
  simp only [hexCode?, digit, Option.bind_eq_bind, Option.bind_some, Option.pure_def,
    Option.some_inj]
  omega

theorem readText_unit {a b c d : Char} (hcode : hexCode? a b c d = some n)
    (hn : isHighSurrogate n = false) :
    readText ('\\' :: 'u' :: a :: b :: c :: d :: s) =
      (readText s).map fun p => (unitChar n :: p.1, p.2) := by
  rw [readText.eq_def]
  split
  · simp_all
  · simp_all
  · next e f g h s heq =>
    simp only [List.cons.injEq, true_and] at heq
    obtain ⟨rfl, rfl, rfl, rfl, rfl⟩ := heq
    cases readText ('\\' :: 'u' :: e :: f :: g :: h :: s) <;> simp [hcode, hn]
  · next heq =>
    simp only [List.cons.injEq, true_and] at heq
    obtain ⟨rfl, rfl, rfl, rfl, rfl⟩ := heq
    cases readText s <;> simp [hcode]
  · next hlong heq =>
    simp only [List.cons.injEq, true_and] at heq
    obtain ⟨rfl, rfl⟩ := heq
    exact absurd rfl (hlong a b c d s rfl)
  · next hlong heq =>
    simp only [List.cons.injEq] at heq
    obtain ⟨rfl, rfl⟩ := heq
    exact absurd rfl (hlong 'u' (a :: b :: c :: d :: s) rfl)

theorem readText_escape {c d : Char} (hd : shortEscape? c = some d) (hu : c ≠ 'u') :
    readText ('\\' :: c :: s) = (readText s).map fun p => (d :: p.1, p.2) := by
  rw [readText.eq_5 _ _ (by simp_all) (by simp_all), hd]
  cases readText s <;> rfl

theorem readText_plain {c : Char} (hquote : c ≠ '\x22') (hslash : c ≠ '\\')
    (hcontrol : ¬ c.toNat < 0x20) :
    readText (c :: s) = (readText s).map fun p => (c :: p.1, p.2) := by
  rw [readText.eq_6 _ _ hquote (by simp_all) (by simp_all) (by simp_all), if_neg (by simp_all)]
  cases readText s <;> rfl

theorem readText_escapeChar (c : Char) (s : List Char) :
    readText (escapeChar c ++ s) = (readText s).map fun p => (c :: p.1, p.2) := by
  unfold escapeChar
  split
  · next h => rw [h]; exact readText_escape rfl (by decide)
  next hquote =>
  split
  · next h => rw [h]; exact readText_escape rfl (by decide)
  next hslash =>
  split
  · next h => rw [h]; exact readText_escape rfl (by decide)
  split
  · next h => rw [h]; exact readText_escape rfl (by decide)
  split
  · next h => rw [h]; exact readText_escape rfl (by decide)
  split
  · next h => rw [h]; exact readText_escape rfl (by decide)
  split
  · next h => rw [h]; exact readText_escape rfl (by decide)
  split
  · obtain ⟨a₁, a₂, a₃, a₄, htext, hcode⟩ := hexCode?_hexText (show c.toNat < 0x10000 by omega)
    have hhigh : isHighSurrogate c.toNat = false := by simp [isHighSurrogate]; omega
    have hlow : isLowSurrogate c.toNat = false := by simp [isLowSurrogate]; omega
    rw [htext]
    refine (readText_unit hcode hhigh).trans ?_
    simp [unitChar, hhigh, hlow]
  · next hcontrol => exact readText_plain hquote hslash hcontrol

theorem readText_escaped (chars s : List Char) :
    readText (chars.flatMap escapeChar ++ '\x22' :: s) = some (chars, s) := by
  induction chars with
  | nil => rw [List.flatMap_nil, List.nil_append, readText]
  | cons c chars ih =>
    rw [List.flatMap_cons, List.append_assoc, readText_escapeChar, ih]
    rfl

/-- Whether nothing at the start of a text would go on with a number in front of it. -/
def EndsNumber : List Char → Prop
  | [] => True
  | c :: _ => c.isDigit = false ∧ c ≠ '.' ∧ c ≠ 'e' ∧ c ≠ 'E'

theorem digits_toDigits_append (n : Nat) (hs : EndsNumber s) :
    digits (Nat.toDigits 10 n ++ s) = Nat.toDigits 10 n := by
  have hdigits : ∀ c ∈ Nat.toDigits 10 n, c.isDigit = true := fun c hc =>
    Nat.isDigit_of_mem_toDigits (by decide) (by decide) hc
  rw [digits, List.takeWhile_append_of_pos hdigits]
  cases s with
  | nil => simp
  | cons c s => simp [hs.1]

theorem eq_zero_of_toDigits_eq_cons (h : Nat.toDigits 10 n = '0' :: s) : n = 0 := by
  induction n using Nat.strongRecOn generalizing s with
  | ind n ih =>
    by_cases hn : n < 10
    · have hvalue := Nat.toNat_digitChar_sub_48_of_lt_ten hn
      rw [Nat.toDigits_of_lt_base hn, List.cons_eq_cons] at h
      rw [← hvalue, h.1]
      rfl
    · rw [Nat.toDigits_of_base_le (by decide) (by omega)] at h
      obtain h | ⟨t, ht, -⟩ := List.append_eq_cons_iff.1 h
      · exact absurd h.1 Nat.toDigits_ne_nil
      · have := ih (n / 10) (by omega) ht
        omega

theorem wholeDigits_toDigits_append (n : Nat) (hs : EndsNumber s) :
    wholeDigits (Nat.toDigits 10 n ++ s) = Nat.toDigits 10 n := by
  unfold wholeDigits
  split
  · next t h =>
    obtain h | ⟨t, ht, -⟩ := List.append_eq_cons_iff.1 h
    · exact absurd h.1 Nat.toDigits_ne_nil
    · rw [eq_zero_of_toDigits_eq_cons ht, Nat.toDigits_zero]
  · exact digits_toDigits_append n hs

theorem fractionPart_eq_nil (hs : EndsNumber s) : fractionPart s = [] := by
  unfold fractionPart
  split
  · exact absurd rfl hs.2.1
  · rfl

theorem exponentPart_eq_nil (hs : EndsNumber s) : exponentPart s = [] := by
  cases s with
  | nil => rfl
  | cons c s => simp [exponentPart, hs.2.2.1, hs.2.2.2]

theorem ofDigits_toDigits (n : Nat) : ofDigits (Nat.toDigits 10 n) = n :=
  Nat.ofDigitChars_ten_toDigits

theorem length_toDigits_le_maxDigits (hn : n < Nat.pow 10 Text.maxDigits) :
    (Nat.toDigits 10 n).length ≤ Text.maxDigits := by
  have hpos : 0 < Text.maxDigits := by decide
  -- the power is too large to be worked out
  generalize Text.maxDigits = k at hn hpos ⊢
  exact (Nat.length_toDigits_le_iff (by decide) hpos).2 hn

theorem readNumber_toDigits (negative : Bool) (hn : n < Nat.pow 10 Text.maxDigits)
    (hs : EndsNumber s) :
    readNumber negative (Nat.toDigits 10 n ++ s) =
      some (.int (if negative then -(n : Int) else n), s) := by
  have hlength := length_toDigits_le_maxDigits hn
  simp [readNumber, wholeDigits_toDigits_append n hs, fractionPart_eq_nil hs,
    exponentPart_eq_nil hs, ofDigits_toDigits, Nat.not_lt.2 hlength]

theorem readValue_digit {c : Char} (hc : c.isDigit = true) (fuel : Nat) (s : List Char) :
    readValue (fuel + 1) (c :: s) = readNumber false (c :: s) := by
  rw [readValue, if_pos hc]
  all_goals rintro rfl; simp at hc

theorem printInt_eq (n : Int) :
    printInt n =
      if n < 0 then '-' :: Nat.toDigits 10 n.natAbs else Nat.toDigits 10 n.natAbs := by
  cases n with
  | ofNat n => simp [printInt, Int.toString_eq_repr, Int.repr]
  | negSucc n => simp [printInt, Int.toString_eq_repr, Int.repr]

theorem readValue_printInt {n : Int} (hn : Text.isWritable n = true) (hs : EndsNumber s)
    (fuel : Nat) : readValue (fuel + 1) (printInt n ++ s) = some (.int n, s) := by
  have hn : n.natAbs < Nat.pow 10 Text.maxDigits := by
    -- the power is too large to be worked out
    generalize hk : Text.maxDigits = k
    simpa [Text.isWritable, hk] using hn
  rw [printInt_eq]
  split
  · next hneg =>
    have hback : -(n.natAbs : Int) = n := by omega
    rw [List.cons_append, readValue, readNumber_toDigits true hn hs, if_pos rfl, hback]
    rfl
  · next hpos =>
    obtain ⟨c, t, hdigits⟩ : ∃ c t, Nat.toDigits 10 n.natAbs = c :: t :=
      List.exists_cons_of_ne_nil Nat.toDigits_ne_nil
    have hmem : c ∈ Nat.toDigits 10 n.natAbs := by simp [hdigits]
    have hc := Nat.isDigit_of_mem_toDigits (by decide) (by decide) hmem
    have hread := readNumber_toDigits false hn hs
    rw [hdigits] at hread ⊢
    rw [List.cons_append, readValue_digit hc, ← List.cons_append, hread]
    simp
    omega

end TapeLab.Json
