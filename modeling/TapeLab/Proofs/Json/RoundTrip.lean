import TapeLab.Proofs.Json.Token

/-!
What is printed is read back. Reading one value of a printed text leaves exactly what follows it;
the fuel that a text of its length is given is enough. Only whole numbers are looked at here.
-/

namespace TapeLab.Json

variable {r s : List Char} {v : Json} {fuel : Nat}

mutual

/-- Whether all numbers in a value are whole and short enough to be written. -/
def IsWhole : Json → Prop
  | int n => Text.isWritable n = true
  | real _ => False
  | list items => AllWhole items
  | record fields => FieldsWhole fields
  | null | bool _ | text _ => True

def AllWhole : List Json → Prop
  | [] => True
  | v :: items => IsWhole v ∧ AllWhole items

def FieldsWhole : List (String × Json) → Prop
  | [] => True
  | (_, v) :: fields => IsWhole v ∧ FieldsWhole fields

end

theorem print_eq_cons (hv : v.IsWhole) :
    ∃ c s, v.print = c :: s ∧ isSpace c = false ∧ c ≠ ']' := by
  cases v with
  | null => exact ⟨_, _, by rw [print], by decide, by decide⟩
  | bool b => cases b <;> exact ⟨_, _, by rw [print], by decide, by decide⟩
  | int n =>
    rw [print, printInt_eq]
    split
    · exact ⟨'-', _, rfl, by decide, by decide⟩
    · obtain ⟨c, s, hdigits⟩ : ∃ c s, Nat.toDigits 10 n.natAbs = c :: s :=
        List.exists_cons_of_ne_nil Nat.toDigits_ne_nil
      have hmem : c ∈ Nat.toDigits 10 n.natAbs := by simp [hdigits]
      have hc := Nat.isDigit_of_mem_toDigits (by decide) (by decide) hmem
      refine ⟨c, s, hdigits, ?_, ?_⟩
      · simp only [isSpace, Bool.or_eq_false_iff, beq_eq_false_iff_ne]
        refine ⟨⟨⟨?_, ?_⟩, ?_⟩, ?_⟩ <;> rintro rfl <;> exact absurd hc (by decide)
      · rintro rfl
        exact absurd hc (by decide)
  | real _ => exact absurd hv (by simp [IsWhole])
  | text s => exact ⟨_, _, by rw [print, printText, List.cons_append], by decide, by decide⟩
  | list items =>
    cases items with
    | nil => exact ⟨_, _, by rw [print], by decide, by decide⟩
    | cons v items => exact ⟨_, _, by rw [print]; rfl, by decide, by decide⟩
  | record fields =>
    cases fields with
    | nil => exact ⟨_, _, by rw [print], by decide, by decide⟩
    | cons f fields => exact ⟨_, _, by rw [print]; rfl, by decide, by decide⟩

theorem skipSpace_cons {c : Char} (hc : isSpace c = false) : skipSpace (c :: s) = c :: s := by
  simp [skipSpace, hc]

theorem skipSpace_print (hv : v.IsWhole) : skipSpace (v.print ++ r) = v.print ++ r := by
  obtain ⟨c, s, hprint, hspace, -⟩ := print_eq_cons hv
  rw [hprint, List.cons_append, skipSpace_cons hspace]

theorem skipSpace_space : skipSpace (' ' :: s) = skipSpace s := by simp [skipSpace, isSpace]

theorem skipSpace_comma : skipSpace (',' :: s) = ',' :: s := skipSpace_cons (by decide)

theorem skipSpace_colon : skipSpace (':' :: s) = ':' :: s := skipSpace_cons (by decide)

theorem skipSpace_bracket : skipSpace (']' :: s) = ']' :: s := skipSpace_cons (by decide)

theorem skipSpace_brace : skipSpace ('\x7d' :: s) = '\x7d' :: s := skipSpace_cons (by decide)

theorem skipSpace_quote : skipSpace ('\x22' :: s) = '\x22' :: s := skipSpace_cons (by decide)

theorem endsNumber_comma : EndsNumber (',' :: s) := by simp [EndsNumber]

theorem endsNumber_bracket : EndsNumber (']' :: s) := by simp [EndsNumber]

theorem endsNumber_brace : EndsNumber ('\x7d' :: s) := by simp [EndsNumber]

theorem length_print_pos (hv : v.IsWhole) : 0 < v.print.length := by
  obtain ⟨c, s, hprint, -⟩ := print_eq_cons hv
  simp [hprint]

theorem readValue_printText (t : String) :
    readValue (fuel + 1) (printText t ++ r) = some (.text t, r) := by
  simp [printText, readValue, readText_escaped]

theorem readValue_bracket (hv : v.IsWhole) :
    readValue (fuel + 1) ('[' :: (v.print ++ r)) =
      (readItems fuel (v.print ++ r)).map fun p => (.list p.1, p.2) := by
  obtain ⟨c, s, hprint, hspace, hclose⟩ := print_eq_cons hv
  rw [readValue, skipSpace_print hv, hprint, List.cons_append]
  simp [hclose]

theorem readValue_brace (k : String) :
    readValue (fuel + 1) ('\x7b' :: (printText k ++ r)) =
      (readFields fuel (printText k ++ r)).map fun p => (.record p.1, p.2) := by
  simp [readValue, printText, skipSpace_quote]

mutual

theorem readValue_print : ∀ (v : Json) (r : List Char) (fuel : Nat), v.IsWhole → EndsNumber r →
    2 * v.print.length ≤ fuel → readValue fuel (v.print ++ r) = some (v, r)
  | v, _, 0, hv, _, hfuel => by
    have := length_print_pos hv
    omega
  | null, _, fuel + 1, _, _, _ => by simp [print, readValue, readWord, dropWord?]
  | bool true, _, fuel + 1, _, _, _ => by simp [print, readValue, readWord, dropWord?]
  | bool false, _, fuel + 1, _, _, _ => by simp [print, readValue, readWord, dropWord?]
  | int n, _, fuel + 1, hn, hr, _ => by rw [print, readValue_printInt hn hr]
  | text t, _, fuel + 1, _, _, _ => by rw [print, readValue_printText]
  | list [], _, fuel + 1, _, _, _ => by
    simp [print, readValue, skipSpace_bracket]
  | list (v :: items), r, fuel + 1, hv, _, hfuel => by
    simp only [print, List.cons_append, List.length_cons, List.length_append] at hfuel
    have hitems := readItems_print v items r fuel hv.1 hv.2 (by omega)
    rw [print, List.cons_append, List.cons_append, List.append_assoc, readValue_bracket hv.1,
      hitems, Option.map_some]
  | record [], _, fuel + 1, _, _, _ => by
    simp [print, readValue, skipSpace_brace]
  | record ((k, v) :: fields), r, fuel + 1, hv, _, hfuel => by
    simp only [print, List.cons_append, List.length_cons, List.length_append] at hfuel
    have hfields := readFields_print k v fields r fuel hv.1 hv.2 (by omega)
    simp only [print, List.cons_append, List.append_assoc] at hfields ⊢
    rw [readValue_brace, hfields, Option.map_some]

theorem readItems_print : ∀ (v : Json) (items : List Json) (r : List Char) (fuel : Nat),
    v.IsWhole → AllWhole items →
    2 * (v.print.length + (printItems items).length) ≤ fuel →
    readItems fuel (v.print ++ (printItems items ++ r)) = some (v :: items, r)
  | v, _, _, 0, hv, _, hfuel => by
    have := length_print_pos hv
    omega
  | v, [], r, fuel + 1, hv, _, hfuel => by
    simp only [printItems, List.length_cons] at hfuel
    have hvalue := readValue_print v (']' :: r) fuel hv endsNumber_bracket (by omega)
    simp [readItems, printItems, hvalue, skipSpace_bracket]
  | v, w :: items, r, fuel + 1, hv, hitems, hfuel => by
    simp only [printItems, List.cons_append, List.length_cons, List.length_append] at hfuel
    have hvalue := readValue_print v (',' :: ' ' :: (w.print ++ (printItems items ++ r))) fuel hv
      endsNumber_comma (by omega)
    have hrest := readItems_print w items r fuel hitems.1 hitems.2 (by omega)
    simp [readItems, printItems, hvalue, hrest, skipSpace_comma, skipSpace_space,
      skipSpace_print hitems.1]

theorem readFields_print : ∀ (k : String) (v : Json) (fields : List (String × Json))
    (r : List Char) (fuel : Nat), v.IsWhole → FieldsWhole fields →
    2 * (v.print.length + (printFields fields).length) ≤ fuel →
    readFields fuel (printText k ++ (':' :: ' ' :: (v.print ++ (printFields fields ++ r)))) =
      some ((k, v) :: fields, r)
  | _, v, _, _, 0, hv, _, hfuel => by
    have := length_print_pos hv
    omega
  | k, v, [], r, fuel + 1, hv, _, hfuel => by
    simp only [printFields, List.length_cons] at hfuel
    have hvalue := readValue_print v ('\x7d' :: r) fuel hv endsNumber_brace (by omega)
    simp [readFields, printText, printFields, readText_escaped, skipSpace_colon, skipSpace_space,
      skipSpace_print hv, hvalue, skipSpace_brace]
  | k, v, (k', w) :: fields, r, fuel + 1, hv, hfields, hfuel => by
    simp only [printFields, List.cons_append, List.append_assoc, List.length_cons,
      List.length_append] at hfuel ⊢
    have hvalue := readValue_print v
      (',' :: ' ' :: (printText k' ++ (':' :: ' ' :: (w.print ++ (printFields fields ++ r)))))
      fuel hv endsNumber_comma (by omega)
    have hrest := readFields_print k' w fields r fuel hfields.1 hfields.2 (by omega)
    simp only [printText, List.cons_append, List.append_assoc, List.nil_append] at hvalue hrest ⊢
    simp [readFields, readText_escaped, skipSpace_colon, skipSpace_space, skipSpace_print hv,
      hvalue, skipSpace_comma, skipSpace_quote, hrest]

end

theorem read?_print (hv : v.IsWhole) : read? v.print = some v := by
  have hread := readValue_print v [] (2 * v.print.length + 2) hv trivial (by omega)
  have hspace := skipSpace_print (r := []) hv
  rw [List.append_nil] at hread hspace
  have hend : skipSpace [] = [] := rfl
  simp [read?, hspace, hread, hend]

theorem return_ne_hexDigit (d : Nat) : '\r' ≠ Text.hexDigit (d % 16) := by
  have h : ∀ d < 16, '\r' ≠ Text.hexDigit d := by decide
  exact h _ (Nat.mod_lt d (by decide))

theorem return_not_mem_escapeChar (c : Char) : '\r' ∉ escapeChar c := by
  by_cases hc : c = '\r'
  · rw [hc]
    decide
  · unfold escapeChar
    repeat' split
    all_goals simp [Text.hexText, return_ne_hexDigit, Ne.symm hc]

theorem return_not_mem_printText (t : String) : '\r' ∉ printText t := by
  simp [printText, return_not_mem_escapeChar]

theorem return_not_mem_printInt (n : Int) : '\r' ∉ printInt n := by
  have hdigits : '\r' ∉ Nat.toDigits 10 n.natAbs := fun h => by
    have := Nat.isDigit_of_mem_toDigits (by decide) (by decide) h
    exact absurd this (by decide)
  rw [printInt_eq]
  split <;> simp [hdigits]

mutual

theorem return_not_mem_print : ∀ v : Json, v.IsWhole → '\r' ∉ v.print
  | null, _ => by simp [print]
  | bool true, _ => by simp [print]
  | bool false, _ => by simp [print]
  | int n, _ => return_not_mem_printInt n
  | text t, _ => return_not_mem_printText t
  | list [], _ => by simp [print]
  | list (v :: items), hv => by
    simp [print, return_not_mem_print v hv.1, return_not_mem_printItems items hv.2]
  | record [], _ => by simp [print]
  | record ((k, v) :: fields), hv => by
    simp [print, return_not_mem_printText, return_not_mem_print v hv.1,
      return_not_mem_printFields fields hv.2]

theorem return_not_mem_printItems : ∀ items : List Json, AllWhole items → '\r' ∉ printItems items
  | [], _ => by simp [printItems]
  | v :: items, hv => by
    simp [printItems, return_not_mem_print v hv.1, return_not_mem_printItems items hv.2]

theorem return_not_mem_printFields :
    ∀ fields : List (String × Json), FieldsWhole fields → '\r' ∉ printFields fields
  | [], _ => by simp [printFields]
  | (k, v) :: fields, hv => by
    simp [printFields, return_not_mem_printText, return_not_mem_print v hv.1,
      return_not_mem_printFields fields hv.2]

end

end TapeLab.Json
