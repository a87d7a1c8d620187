import TapeLab.Text.Markup

/-!
The tags that a console finds in a text. A tag counts unless an odd number of backslashes stands
before it, the last of which escapes it. A text that is made of tags and of other pieces keeps all
its tags, if the other pieces leave no backslash over; it has further ones if and only if a bracket
in one of the other pieces begins one.
-/

namespace TapeLab.Text

/-- A tag in a text: the place of its bracket, how many backslashes stand right before that, and the
tag itself. -/
structure TagMatch where
  place : Nat
  slashes : Nat
  tag : List Char
  deriving DecidableEq, Repr

def tagBody (s : List Char) : List Char := s.takeWhile (· ≠ ']') ++ [']']

mutual

def matchesAfter (place slashes : Nat) : List Char → List TagMatch
  | [] => []
  | c :: s =>
    if c = '\\' then matchesAfter (place + 1) (slashes + 1) s
    else if c = '[' && opensTag s then
      ⟨place, slashes, '[' :: tagBody s⟩ :: matchesBehind (place + 1) s
    else matchesAfter (place + 1) 0 s

def matchesBehind (place : Nat) : List Char → List TagMatch
  | [] => []
  | c :: s => if c = ']' then matchesAfter (place + 1) 0 s else matchesBehind (place + 1) s

end

def tagsAfter (place slashes : Nat) (s : List Char) : List (Nat × List Char) :=
  ((matchesAfter place slashes s).filter fun m => m.slashes % 2 = 0).map fun m => (m.place, m.tag)

/-- The tags of a text that are not escaped, with their places. -/
def tags (s : List Char) : List (Nat × List Char) := tagsAfter 0 0 s

def slashesAfter (slashes : Nat) : List Char → Nat
  | [] => slashes
  | c :: s => slashesAfter (if c = '\\' then slashes + 1 else 0) s

theorem exists_split_cons {α : Type} {a b : α} {s : List α} {P : List α → List α → Prop} :
    (∃ before behind, a :: s = before ++ b :: behind ∧ P before behind) ↔
      (a = b ∧ P [] s) ∨ ∃ before behind, s = before ++ b :: behind ∧ P (a :: before) behind := by
  constructor
  · rintro ⟨before, behind, hs, h⟩
    cases before with
    | nil =>
      obtain ⟨rfl, rfl⟩ := List.cons.inj hs
      exact .inl ⟨rfl, h⟩
    | cons c before =>
      obtain ⟨rfl, rfl⟩ := List.cons.inj hs
      exact .inr ⟨before, behind, rfl, h⟩
  · rintro (⟨rfl, h⟩ | ⟨before, behind, rfl, h⟩)
    · exact ⟨[], s, rfl, h⟩
    · exact ⟨a :: before, behind, rfl, h⟩

theorem closesTag_iff {s : List Char} :
    closesTag s = true ↔ ∃ middle after, s = middle ++ ']' :: after ∧ '[' ∉ middle := by
  induction s with
  | nil => simp [closesTag]
  | cons c s ih =>
    simp only [closesTag, Bool.or_eq_true, decide_eq_true_eq, Bool.and_eq_true, bne_iff_ne, ih]
    rw [exists_split_cons]
    simp only [List.not_mem_nil, not_false_eq_true, and_true, List.mem_cons, not_or]
    refine or_congr_right ?_
    constructor
    · rintro ⟨hc, middle, after, hs, hmiddle⟩
      exact ⟨middle, after, hs, Ne.symm hc, hmiddle⟩
    · rintro ⟨middle, after, hs, hc, hmiddle⟩
      exact ⟨Ne.symm hc, middle, after, hs, hmiddle⟩

theorem opensTag_iff {s : List Char} :
    opensTag s = true ↔ ∃ c middle after, s = c :: (middle ++ ']' :: after) ∧
      startsTag c = true ∧ '[' ∉ middle := by
  cases s with
  | nil => simp [opensTag]
  | cons c s =>
    simp only [opensTag, Bool.and_eq_true, closesTag_iff]
    constructor
    · rintro ⟨hc, middle, after, rfl, hmiddle⟩
      exact ⟨c, middle, after, rfl, hc, hmiddle⟩
    · rintro ⟨d, middle, after, hs, hd, hmiddle⟩
      obtain ⟨rfl, rfl⟩ := List.cons.inj hs
      exact ⟨hd, middle, after, rfl, hmiddle⟩

theorem closesTag_append_bracket (s t : List Char) :
    closesTag (s ++ '[' :: t) = closesTag s := by
  induction s with
  | nil => simp [closesTag]
  | cons c s ih => simp only [List.cons_append, closesTag, ih]

theorem opensTag_append_bracket (s t : List Char) :
    opensTag (s ++ '[' :: t) = opensTag s := by
  cases s with
  | nil => rfl
  | cons c s => simp only [List.cons_append, opensTag, closesTag_append_bracket]

theorem closesTag_of_opensTag {s : List Char} (h : opensTag s = true) : closesTag s = true := by
  obtain ⟨c, middle, after, rfl, hc, hmiddle⟩ := opensTag_iff.1 h
  have hbracket : '[' ≠ c := by
    rintro rfl
    cases hc
  exact closesTag_iff.2 ⟨c :: middle, after, rfl, by simp [hbracket, hmiddle]⟩

theorem toList_escape_singleton (c : Char) :
    (escape (String.singleton c)).toList = if c = '\\' then ['\\', '\\'] else [c] := by
  rw [escape, String.toList_ofList, String.toList_singleton, escapeAfter]
  by_cases hslash : c = '\\'
  · simp [hslash, escapeAfter, guardEnd]
  · have hopens : (c = '[' && opensTag []) = false := by simp [opensTag]
    rw [if_neg hslash, hopens, if_neg Bool.false_ne_true, if_neg hslash, escapeAfter]
    simp only [List.replicate_zero, List.nil_append, guardEnd, List.reverse_singleton]
    split
    · next h => cases h
    · next h => exact absurd (List.cons.inj h).1 hslash
    · rfl

theorem guardEnd_eq_nil_iff {s : List Char} : guardEnd s = [] ↔ s = [] := by
  unfold guardEnd
  split
  · rfl
  · next h =>
    have hs : s ≠ [] := by
      rintro rfl
      cases h
    simp [hs]
  · rfl

theorem escapeAfter_eq_nil_iff {slashes : Nat} {s : List Char} :
    escapeAfter slashes s = [] ↔ slashes = 0 ∧ s = [] := by
  induction s generalizing slashes with
  | nil => simp [escapeAfter]
  | cons c s ih =>
    rw [escapeAfter]
    split
    · rw [ih]
      simp
    · split <;> simp

theorem escape_eq_empty_iff {s : String} : escape s = "" ↔ s = "" := by
  rw [escape, ← String.toList_eq_nil_iff, String.toList_ofList, guardEnd_eq_nil_iff,
    escapeAfter_eq_nil_iff, ← String.toList_eq_nil_iff]
  simp

theorem matchesBehind_eq {s : List Char} (h : closesTag s = true) (place slashes : Nat) :
    matchesBehind place s = matchesAfter place slashes s := by
  induction s generalizing place slashes with
  | nil => cases h
  | cons c s ih =>
    simp only [closesTag, Bool.or_eq_true, decide_eq_true_eq, Bool.and_eq_true, bne_iff_ne] at h
    rw [matchesBehind, matchesAfter]
    rcases h with rfl | ⟨hc, hs⟩
    · simp
    · by_cases hend : c = ']'
      · simp [hend]
      · simp only [if_neg hend, hc, decide_false, Bool.false_and, Bool.false_eq_true, if_false]
        split
        · exact ih hs _ _
        · exact ih hs _ _

theorem matchesAfter_cons (place slashes : Nat) (c : Char) (s : List Char) :
    matchesAfter place slashes (c :: s) =
      (if c = '[' ∧ opensTag s = true then [⟨place, slashes, '[' :: tagBody s⟩] else []) ++
        matchesAfter (place + 1) (if c = '\\' then slashes + 1 else 0) s := by
  rw [matchesAfter]
  by_cases hslash : c = '\\'
  · simp [hslash]
  · by_cases htag : c = '[' ∧ opensTag s = true
    · simp [htag, matchesBehind_eq (closesTag_of_opensTag htag.2) _ 0]
    · simp [hslash, htag]

@[simp] theorem tagsAfter_nil (place slashes : Nat) : tagsAfter place slashes [] = [] := by
  simp [tagsAfter, matchesAfter]

theorem tagsAfter_cons (place slashes : Nat) (c : Char) (s : List Char) :
    tagsAfter place slashes (c :: s) =
      (if c = '[' ∧ opensTag s = true ∧ slashes % 2 = 0 then [(place, '[' :: tagBody s)] else []) ++
        tagsAfter (place + 1) (if c = '\\' then slashes + 1 else 0) s := by
  rw [tagsAfter, matchesAfter_cons, List.filter_append, List.map_append]
  congr 1
  by_cases htag : c = '[' ∧ opensTag s = true
  · by_cases heven : slashes % 2 = 0 <;> simp [htag, heven]
  · by_cases heven : slashes % 2 = 0 <;> simp [htag, heven]

/-- A bracket in the text, which another text follows, begins a tag that counts. -/
def Opens (slashes : Nat) (s rest : List Char) : Prop :=
  ∃ before behind, s = before ++ '[' :: behind ∧ opensTag (behind ++ rest) = true ∧
    slashesAfter slashes before % 2 = 0

theorem not_opens_nil (slashes : Nat) (rest : List Char) : ¬ Opens slashes [] rest := by
  rintro ⟨before, behind, h, -⟩
  simp at h

theorem opens_cons {slashes : Nat} {c : Char} {s rest : List Char} :
    Opens slashes (c :: s) rest ↔
      (c = '[' ∧ opensTag (s ++ rest) = true ∧ slashes % 2 = 0) ∨
        Opens (if c = '\\' then slashes + 1 else 0) s rest := by
  exact exists_split_cons

theorem exists_tagsAfter_append (place slashes : Nat) (s rest : List Char) :
    ∃ own, tagsAfter place slashes (s ++ rest) =
        own ++ tagsAfter (place + s.length) (slashesAfter slashes s) rest ∧
      (own = [] ↔ ¬ Opens slashes s rest) := by
  induction s generalizing place slashes with
  | nil => exact ⟨[], rfl, iff_of_true rfl (not_opens_nil _ _)⟩
  | cons c s ih =>
    obtain ⟨own, htags, hown⟩ := ih (place + 1) (if c = '\\' then slashes + 1 else 0)
    rw [List.cons_append, tagsAfter_cons, htags, ← List.append_assoc, List.length_cons,
      Nat.add_right_comm, Nat.add_assoc place]
    refine ⟨_, rfl, ?_⟩
    rw [List.append_eq_nil_iff, hown, opens_cons, not_or]
    simp

theorem slashesAfter_mod_two (s : List Char) {k l : Nat} (h : k % 2 = l % 2) :
    slashesAfter k s % 2 = slashesAfter l s % 2 := by
  induction s generalizing k l with
  | nil => exact h
  | cons c s ih =>
    rw [slashesAfter, slashesAfter]
    refine ih ?_
    split
    · omega
    · rfl

theorem opens_iff_of_even {slashes : Nat} (h : slashes % 2 = 0) {s rest : List Char} :
    Opens slashes s rest ↔ Opens 0 s rest := by
  unfold Opens
  simp only [slashesAfter_mod_two _ (show slashes % 2 = 0 % 2 from h)]

theorem not_opens_of_no_bracket {slashes : Nat} {s : List Char} (h : '[' ∉ s) (rest : List Char) :
    ¬ Opens slashes s rest := by
  rintro ⟨before, behind, rfl, -⟩
  simp at h

inductive Piece
  | tag (name : List Char)
  | text (chars : List Char)
  deriving DecidableEq, Repr

namespace Piece

def chars : Piece → List Char
  | tag name => '[' :: (name ++ [']'])
  | text s => s

def render (pieces : List Piece) : List Char := pieces.flatMap chars

def tagsFrom (place : Nat) : List Piece → List (Nat × List Char)
  | [] => []
  | tag name :: rest => (place, (tag name).chars) :: tagsFrom (place + (tag name).chars.length) rest
  | text s :: rest => tagsFrom (place + s.length) rest

/-- A tag has a name that makes it one, and a text leaves no backslash over for what follows. -/
def Fair : Piece → Prop
  | tag name => name.head?.any startsTag = true ∧ '[' ∉ name ∧ ']' ∉ name
  | text s => slashesAfter 0 s % 2 = 0

instance : (p : Piece) → Decidable p.Fair
  | tag _ => inferInstanceAs (Decidable (_ ∧ _ ∧ _))
  | text _ => inferInstanceAs (Decidable (_ = _))

/-- A bracket in one of the texts begins a tag. -/
def Spell : List Piece → Prop
  | [] => False
  | tag _ :: rest => Spell rest
  | text s :: rest => Opens 0 s (render rest) ∨ Spell rest

@[simp] theorem render_nil : render [] = [] := rfl

@[simp] theorem render_cons (p : Piece) (rest : List Piece) :
    render (p :: rest) = p.chars ++ render rest := rfl

@[simp] theorem render_append (ps qs : List Piece) : render (ps ++ qs) = render ps ++ render qs :=
  List.flatMap_append

theorem Fair.opensTag_append {name : List Char} (h : (tag name).Fair) (rest : List Char) :
    opensTag (name ++ ']' :: rest) = true := by
  cases name with
  | nil => cases h.1
  | cons c name =>
    obtain ⟨hc, hname, -⟩ := h
    exact opensTag_iff.2 ⟨c, name, rest, rfl, hc, fun hmem => hname (List.mem_cons_of_mem c hmem)⟩

theorem Fair.tagBody_append {name : List Char} (h : (tag name).Fair) (rest : List Char) :
    tagBody (name ++ ']' :: rest) = name ++ [']'] := by
  have hname : ∀ c ∈ name, decide (c ≠ ']') = true := fun c hc => by
    simpa using fun heq : c = ']' => h.2.2 (heq ▸ hc)
  rw [tagBody, List.takeWhile_append_of_pos hname]
  simp

theorem slashesAfter_append_bracket (slashes : Nat) (s : List Char) :
    slashesAfter slashes (s ++ [']']) = 0 := by
  induction s generalizing slashes with
  | nil => rfl
  | cons c s ih => exact ih _

theorem tagsAfter_tag {name : List Char} (h : (tag name).Fair) (place : Nat) {slashes : Nat}
    (heven : slashes % 2 = 0) (rest : List Char) :
    tagsAfter place slashes ((tag name).chars ++ rest) = (place, (tag name).chars) ::
      tagsAfter (place + (tag name).chars.length) 0 rest := by
  have hbody : '[' ∉ name ++ [']'] := by simpa using h.2.1
  obtain ⟨own, htags, hown⟩ := exists_tagsAfter_append (place + 1) 0 (name ++ [']']) rest
  rw [hown.2 (not_opens_of_no_bracket hbody rest), List.nil_append,
    slashesAfter_append_bracket] at htags
  have happend : name ++ [']'] ++ rest = name ++ ']' :: rest := by simp
  have hslash : ¬ '[' = '\\' := by decide
  rw [chars, List.cons_append, tagsAfter_cons, if_neg hslash, htags, happend, h.tagBody_append,
    if_pos ⟨rfl, h.opensTag_append rest, heven⟩, List.length_cons, Nat.add_right_comm,
    Nat.add_assoc place]
  rfl

/-- All the tags that are put in count, and they are the only ones unless a text spells one. -/
theorem tagsAfter_render {pieces : List Piece} (hfair : ∀ p ∈ pieces, p.Fair) (place : Nat)
    {slashes : Nat} (heven : slashes % 2 = 0) :
    (tagsFrom place pieces).Sublist (tagsAfter place slashes (render pieces)) ∧
    (tagsAfter place slashes (render pieces) = tagsFrom place pieces ↔ ¬ Spell pieces) := by
  induction pieces generalizing place slashes with
  | nil => simp [tagsFrom, Spell]
  | cons p rest ih =>
    rw [List.forall_mem_cons] at hfair
    cases p with
    | tag name =>
      obtain ⟨hsub, hiff⟩ := ih hfair.2 (place + (tag name).chars.length)
        (show 0 % 2 = 0 from rfl)
      rw [render_cons, tagsAfter_tag hfair.1 place heven, tagsFrom, Spell, ← hiff]
      exact ⟨hsub.cons_cons _, by simp⟩
    | text s =>
      have heven' : slashesAfter slashes s % 2 = 0 := by
        rw [slashesAfter_mod_two s (show slashes % 2 = 0 % 2 from heven)]
        exact hfair.1
      obtain ⟨hsub, hiff⟩ := ih hfair.2 (place + s.length) heven'
      obtain ⟨own, htags, hown⟩ := exists_tagsAfter_append place slashes s (render rest)
      rw [render_cons, chars, htags, tagsFrom, Spell, not_or, ← hiff,
        ← opens_iff_of_even heven, ← hown]
      refine ⟨hsub.trans (List.sublist_append_right _ _), fun h => ?_, ?_⟩
      · have hlength := congrArg List.length h
        have hle := hsub.length_le
        rw [List.length_append] at hlength
        have hnil : own = [] := List.length_eq_zero_iff.1 (by omega)
        rw [hnil, List.nil_append] at h
        exact ⟨hnil, h⟩
      · rintro ⟨rfl, h⟩
        exact h

end Piece

end TapeLab.Text
