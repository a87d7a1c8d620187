import TapeLab.Text.Blank

/-!
Words and stripped texts. A word is cut off where white space follows it, whatever comes then; the
words of a text begin where the text does, once it is stripped; and a text that begins and ends with
a word has nothing to strip.
-/

namespace TapeLab.Text

variable {s t w : List Char} {c : Char}

structure IsWord (w : List Char) : Prop where
  ne_nil : w ≠ []
  bare : ∀ c ∈ w, isBlank c = false

instance (w : List Char) : Decidable (IsWord w) :=
  decidable_of_iff (w ≠ [] ∧ (w.all fun c => !isBlank c) = true)
    ⟨fun h => ⟨h.1, by simpa using h.2⟩, fun h => ⟨h.ne_nil, by simpa using h.bare⟩⟩

theorem isWord_singleton (hc : isBlank c = false) : IsWord [c] :=
  ⟨List.cons_ne_nil c [], fun _ hd => List.mem_singleton.1 hd ▸ hc⟩

theorem IsWord.cons (hw : IsWord w) (hc : isBlank c = false) : IsWord (c :: w) where
  ne_nil := List.cons_ne_nil c w
  bare _ hd := (List.mem_cons.1 hd).elim (fun h => h ▸ hc) (hw.bare _)

theorem IsWord.not_isLineEnd (hw : IsWord w) (hc : c ∈ w) : isLineEnd c = false := by
  cases hend : isLineEnd c with
  | false => rfl
  | true => cases (isBlank_of_isLineEnd hend).symm.trans (hw.bare c hc)

theorem words_cons_blank (hc : isBlank c = true) (s : List Char) : words (c :: s) = words s := by
  rw [words, if_pos hc]

theorem words_append (hw : IsWord w) (hs : wordEnds s = true) : words (w ++ s) = w :: words s := by
  obtain ⟨hne, hbare⟩ := hw
  induction w with
  | nil => exact absurd rfl hne
  | cons c w ih =>
    have hc : isBlank c = false := hbare c List.mem_cons_self
    cases w with
    | nil => simp [words, hc, hs]
    | cons d w =>
      have hrest := ih (List.cons_ne_nil d w) fun e he => hbare e (List.mem_cons_of_mem c he)
      have hgoes : wordEnds (d :: w ++ s) = false := hbare d (by simp)
      rw [List.cons_append, words, hc, hgoes, hrest]
      rfl

theorem words_append_space (hw : IsWord w) (s : List Char) :
    words (w ++ ' ' :: s) = w :: words s := by
  rw [words_append hw rfl, words_cons_blank rfl]

theorem words_of_isWord (hw : IsWord w) : words w = [w] := by
  have hwords := words_append hw (s := []) rfl
  rwa [List.append_nil] at hwords

theorem words_cons_of_bare (hc : isBlank c = false) (s : List Char) :
    ∃ w ws, words (c :: s) = (c :: w) :: ws := by
  rw [words, hc]
  cases wordEnds s with
  | true => exact ⟨[], words s, rfl⟩
  | false =>
    cases words s with
    | nil => exact ⟨[], [], rfl⟩
    | cons w ws => exact ⟨w, ws, rfl⟩

theorem isWord_of_mem_words (hw : w ∈ words s) : IsWord w := by
  induction s generalizing w with
  | nil => cases hw
  | cons c s ih =>
    rw [words] at hw
    split at hw
    · exact ih hw
    · next hc =>
      have hbare : isBlank c = false := Bool.not_eq_true _ ▸ hc
      split at hw
      · rcases List.mem_cons.1 hw with rfl | hw
        · exact isWord_singleton hbare
        · exact ih hw
      · cases hwords : words s with
        | nil =>
          rw [hwords] at hw
          exact List.mem_singleton.1 hw ▸ isWord_singleton hbare
        | cons v vs =>
          rw [hwords] at hw
          rcases List.mem_cons.1 hw with rfl | hw
          · exact (ih (hwords ▸ List.mem_cons_self)).cons hbare
          · exact ih (hwords ▸ List.mem_cons_of_mem v hw)

theorem bare_head_dropWhile (s : List Char) :
    ∀ c ∈ (s.dropWhile isBlank).head?, isBlank c = false := by
  intro c hc
  have hhead := List.head?_dropWhile_not isBlank s
  rwa [hc] at hhead

theorem stripStart_eq_self_iff : stripStart s = s ↔ ∀ c ∈ s.head?, isBlank c = false := by
  constructor
  · intro h
    rw [← h]
    exact bare_head_dropWhile s
  · intro h
    cases s with
    | nil => rfl
    | cons c s => simp [stripStart, h c rfl]

theorem stripEnd_eq_self_iff : stripEnd s = s ↔ ∀ c ∈ s.getLast?, isBlank c = false := by
  rw [← List.head?_reverse, ← stripStart_eq_self_iff, stripEnd, stripStart,
    List.reverse_eq_iff]

theorem stripEnd_prefix (s : List Char) : stripEnd s <+: s := by
  have hsuffix := List.dropWhile_suffix isBlank (l := s.reverse)
  rwa [← List.reverse_prefix, List.reverse_reverse] at hsuffix

theorem bare_head_strip (s : List Char) : ∀ c ∈ (strip s).head?, isBlank c = false := by
  intro c hc
  obtain ⟨rest, hrest⟩ := stripEnd_prefix (stripStart s)
  refine bare_head_dropWhile s c ?_
  cases hstrip : strip s with
  | nil =>
    rw [hstrip] at hc
    cases hc
  | cons d t =>
    rw [hstrip] at hc
    rw [show s.dropWhile isBlank = d :: t ++ rest from hstrip ▸ hrest.symm]
    exact hc

theorem bare_getLast_strip (s : List Char) : ∀ c ∈ (strip s).getLast?, isBlank c = false := by
  rw [strip, stripEnd, List.getLast?_reverse]
  exact bare_head_dropWhile _

theorem strip_eq_self_iff :
    strip s = s ↔
      (∀ c ∈ s.head?, isBlank c = false) ∧ ∀ c ∈ s.getLast?, isBlank c = false := by
  constructor
  · intro h
    exact ⟨h ▸ bare_head_strip s, h ▸ bare_getLast_strip s⟩
  · rintro ⟨hhead, hlast⟩
    rw [strip, stripStart_eq_self_iff.2 hhead, stripEnd_eq_self_iff.2 hlast]

@[simp] theorem strip_strip (s : List Char) : strip (strip s) = strip s :=
  strip_eq_self_iff.2 ⟨bare_head_strip s, bare_getLast_strip s⟩

theorem strip_cons_ne_nil (hc : isBlank c = false) (s : List Char) : strip (c :: s) ≠ [] := by
  intro h
  have hstart : stripStart (c :: s) = c :: s := stripStart_eq_self_iff.2 fun d hd => by
    obtain rfl := Option.some.inj hd
    exact hc
  rw [strip, hstart, stripEnd, List.reverse_eq_nil_iff] at h
  have hblanks := List.all_takeWhile (p := isBlank) (l := (c :: s).reverse)
  have hall := List.takeWhile_append_dropWhile (p := isBlank) (l := (c :: s).reverse)
  rw [h, List.append_nil] at hall
  rw [hall, List.all_eq_true] at hblanks
  cases hc.symm.trans (hblanks c (by simp))

theorem IsWord.strip (hw : IsWord w) : strip w = w :=
  strip_eq_self_iff.2 ⟨fun c hc => hw.bare c (List.mem_of_mem_head? hc),
    fun c hc => hw.bare c (List.mem_of_getLast? hc)⟩

theorem strip_append (hw : IsWord w) (ht : IsWord t) (s : List Char) :
    strip (w ++ s ++ t) = w ++ s ++ t := by
  refine strip_eq_self_iff.2 ⟨fun c hc => hw.bare c ?_, fun c hc => ht.bare c ?_⟩
  · obtain ⟨d, w, rfl⟩ := List.exists_cons_of_ne_nil hw.ne_nil
    exact List.mem_of_mem_head? hc
  · rw [List.getLast?_append, List.getLast?_eq_some_getLast ht.ne_nil] at hc
    exact List.mem_of_getLast? ((List.getLast?_eq_some_getLast ht.ne_nil).trans hc)

end TapeLab.Text
