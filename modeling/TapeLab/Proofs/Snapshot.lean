import Mathlib.Tactic.ByContra
import TapeLab.Snapshot
import TapeLab.Proofs.Text.Markup

/-!
The tags in the markup of a snapshot. The tags that are put around blank cells, around the cell of
the head and around the state are all found by the console, whatever the cells and the state are. It
finds further ones if and only if cells that are shown as they are spell one, or the state does: a
cell is escaped by itself, so a tag that several cells spell is not seen, and the state is not
escaped.
-/

namespace TapeLab.Snapshot

open Text Text.Piece

def cellPieces (c : Symbol) : List Piece :=
  if c = blank then [.tag "grey58".toList, .text ['_'], .tag ['/']]
  else [.text (escape c).toList]

def placedPieces (head : Int) (p : Symbol × Nat) : List Piece :=
  if (p.2 : Int) = head then .tag "reverse".toList :: (cellPieces p.1 ++ [.tag ['/']])
  else cellPieces p.1

def statePieces (state : String) : List Piece :=
  [.text [' ', ' '], .tag "cyan".toList, .text ('\\' :: '[' :: (state.toList ++ [']'])), .tag ['/']]

def pieces (s : Snapshot) : List Piece :=
  s.cells.zipIdx.flatMap (placedPieces s.head) ++ statePieces s.state

def ownTags (s : Snapshot) : List (Nat × List Char) := tagsFrom 0 s.pieces

/-- The character of a cell that is shown as it is, since it is not blank and the head is not on
it. -/
def plain? (head : Int) (p : Symbol × Nat) : Option Char :=
  if (p.2 : Int) = head ∨ p.1 = blank then none else p.1.toList.head?

def plainRow (s : Snapshot) : List (Option Char) := s.cells.zipIdx.map (plain? s.head)

def EndsTag (row : List (Option Char)) : Prop :=
  ∃ c middle after, row = (c :: (middle ++ [']'])).map some ++ after ∧
    startsTag c = true ∧ '[' ∉ middle

/-- Neighbouring characters of a row are a tag. -/
def HasTag (row : List (Option Char)) : Prop :=
  ∃ before after, row = before ++ some '[' :: after ∧ EndsTag after

/-- The state, with the bracket that is put behind it, has a tag in it that is not escaped. -/
def StateHasTag (state : String) : Prop :=
  ∃ before c middle after,
    state.toList ++ [']'] = before ++ '[' :: c :: (middle ++ ']' :: after) ∧
    startsTag c = true ∧ '[' ∉ middle ∧ slashesAfter 0 before % 2 = 0

theorem toList_cellMarkup (c : Symbol) : (cellMarkup c).toList = render (cellPieces c) := by
  unfold cellMarkup cellPieces
  split
  · rfl
  · simp [render, chars]

theorem toList_placed (head : Int) (p : Symbol × Nat) :
    (if (p.2 : Int) = head then s!"[reverse]{cellMarkup p.1}[/]" else cellMarkup p.1).toList =
      render (placedPieces head p) := by
  unfold placedPieces
  split
  · simp [toString, toList_cellMarkup, chars]
  · exact toList_cellMarkup p.1

theorem toList_markup (s : Snapshot) : s.markup.toList = render s.pieces := by
  have hcells : (String.join (s.cells.zipIdx.map fun p =>
      if (p.2 : Int) = s.head then s!"[reverse]{cellMarkup p.1}[/]" else cellMarkup p.1)).toList =
        render (s.cells.zipIdx.flatMap (placedPieces s.head)) := by
    rw [String.toList_join, List.flatMap_map, render, List.flatMap_assoc]
    simp only [toList_placed, render]
  have hstate : s!"  [cyan]\\[{s.state}][/]".toList = render (statePieces s.state) := by
    simp [toString, statePieces, chars]
  rw [markup, String.toList_append, hcells, hstate, pieces, render_append]

variable {head : Int} {p : Symbol × Nat} {c : Char} {rest : List Piece}

theorem exists_eq_singleton {a : Symbol} (h : a.length = 1) : ∃ c, a = String.singleton c := by
  obtain ⟨c, hc⟩ := List.length_eq_one_iff.1 (String.length_toList.trans h)
  exact ⟨c, String.toList_inj.1 (by rw [hc, String.toList_singleton])⟩

theorem placedPieces_of_plain (hone : p.1.length = 1) (h : plain? head p = some c) :
    placedPieces head p = [.text (if c = '\\' then ['\\', '\\'] else [c])] := by
  obtain ⟨d, hd⟩ := exists_eq_singleton hone
  unfold plain? at h
  split at h
  · cases h
  · next hplain =>
    rw [not_or] at hplain
    rw [hd, String.toList_singleton] at h
    obtain rfl := Option.some.inj h
    rw [placedPieces, if_neg hplain.1, cellPieces, if_neg hplain.2, hd, toList_escape_singleton]

theorem fair_cellPieces {a : Symbol} (hone : a.length = 1) : ∀ q ∈ cellPieces a, q.Fair := by
  obtain ⟨d, rfl⟩ := exists_eq_singleton hone
  unfold cellPieces
  split
  · decide
  · rw [List.forall_mem_singleton, toList_escape_singleton, Fair]
    split
    · rfl
    · next hd => simp [slashesAfter, hd]

theorem fair_placedPieces (hone : p.1.length = 1) : ∀ q ∈ placedPieces head p, q.Fair := by
  unfold placedPieces
  split
  · rw [List.forall_mem_cons, List.forall_mem_append]
    exact ⟨by decide, fair_cellPieces hone, by decide⟩
  · exact fair_cellPieces hone

theorem spell_of_plain (hone : p.1.length = 1) (h : plain? head p = some c) :
    Spell (placedPieces head p ++ rest) ↔ c = '[' ∧ opensTag (render rest) = true ∨ Spell rest := by
  rw [placedPieces_of_plain hone h, List.singleton_append, Spell]
  refine or_congr_left ?_
  split
  · next hc => simp [hc, not_opens_of_no_bracket]
  · simp [opens_cons, not_opens_nil]

theorem closesTag_of_plain (hone : p.1.length = 1) (h : plain? head p = some c) :
    closesTag (render (placedPieces head p ++ rest)) = true ↔
      c = ']' ∨ c ≠ '[' ∧ closesTag (render rest) = true := by
  rw [placedPieces_of_plain hone h, List.singleton_append, render_cons, chars]
  split
  · next hc => simp [hc, closesTag]
  · simp [closesTag]

theorem opensTag_of_plain (hone : p.1.length = 1) (h : plain? head p = some c) :
    opensTag (render (placedPieces head p ++ rest)) = true ↔
      startsTag c = true ∧ closesTag (render rest) = true := by
  rw [placedPieces_of_plain hone h, List.singleton_append, render_cons, chars]
  split
  · next hc => simp [hc, opensTag, startsTag]
  · simp [opensTag]

theorem not_opens_escape (c : Char) (s : List Char) :
    ¬ Opens 0 (escape (String.singleton c)).toList ('[' :: s) := by
  rw [toList_escape_singleton]
  split
  · exact not_opens_of_no_bracket (by decide) _
  · rw [opens_cons]
    rintro (⟨-, hopens, -⟩ | h)
    · cases hopens
    · exact not_opens_nil _ _ h

theorem spell_cellPieces {a : Symbol} (hone : a.length = 1) {name : List Char} :
    Spell (cellPieces a ++ .tag name :: rest) ↔ Spell rest := by
  obtain ⟨d, rfl⟩ := exists_eq_singleton hone
  unfold cellPieces
  split
  · simp [Spell, not_opens_of_no_bracket]
  · rw [List.singleton_append, Spell, Spell]
    exact or_iff_right (not_opens_escape d _)

theorem placedPieces_of_marked (hone : p.1.length = 1) (h : plain? head p = none)
    (rest : List Piece) :
    (∃ s, render (placedPieces head p ++ rest) = '[' :: s) ∧
    (Spell (placedPieces head p ++ rest) ↔ Spell rest) := by
  unfold plain? at h
  unfold placedPieces
  split
  · refine ⟨⟨_, rfl⟩, ?_⟩
    rw [List.cons_append, Spell, List.append_assoc]
    exact spell_cellPieces hone
  · next hhead =>
    have hblank : p.1 = blank := by
      by_contra hne
      obtain ⟨d, hd⟩ := exists_eq_singleton hone
      rw [if_neg (not_or.2 ⟨hhead, hne⟩), hd, String.toList_singleton] at h
      cases h
    rw [cellPieces, if_pos hblank]
    exact ⟨⟨_, rfl⟩, by simp [Spell, not_opens_of_no_bracket]⟩

variable {row : List (Symbol × Nat)}

theorem closesTag_row (hone : ∀ p ∈ row, p.1.length = 1)
    (hrest : closesTag (render rest) = false) :
    closesTag (render (row.flatMap (placedPieces head) ++ rest)) = true ↔
      ∃ middle after, row.map (plain? head) = (middle ++ [']']).map some ++ after ∧
        '[' ∉ middle := by
  induction row with
  | nil => simp [hrest]
  | cons p row ih =>
    rw [List.forall_mem_cons] at hone
    rw [List.flatMap_cons, List.append_assoc, List.map_cons]
    cases hplain : plain? head p with
    | none =>
      obtain ⟨⟨s, hs⟩, -⟩ :=
        placedPieces_of_marked hone.1 hplain (row.flatMap (placedPieces head) ++ rest)
      rw [hs]
      refine iff_of_false (by simp [closesTag]) ?_
      rintro ⟨middle, after, hrow, -⟩
      cases middle with
      | nil => cases (List.cons.inj hrow).1
      | cons d middle => cases (List.cons.inj hrow).1
    | some c =>
      rw [closesTag_of_plain hone.1 hplain, ih hone.2]
      constructor
      · rintro (rfl | ⟨hc, middle, after, hrow, hmiddle⟩)
        · exact ⟨[], row.map (plain? head), rfl, List.not_mem_nil⟩
        · exact ⟨c :: middle, after, by rw [hrow]; rfl, by simp [hmiddle, Ne.symm hc]⟩
      · rintro ⟨middle, after, hrow, hmiddle⟩
        cases middle with
        | nil => exact .inl (Option.some.inj (List.cons.inj hrow).1)
        | cons d middle =>
          obtain ⟨hd, htail⟩ := List.cons.inj hrow
          obtain rfl := Option.some.inj hd
          rw [List.mem_cons, not_or] at hmiddle
          exact .inr ⟨Ne.symm hmiddle.1, middle, after, htail, hmiddle.2⟩

theorem hasTag_cons {x : Option Char} {row : List (Option Char)} :
    HasTag (x :: row) ↔ x = some '[' ∧ EndsTag row ∨ HasTag row :=
  exists_split_cons (P := fun _ after => EndsTag after)

theorem opensTag_row (hone : ∀ p ∈ row, p.1.length = 1)
    (hrest : closesTag (render rest) = false) (hrest' : opensTag (render rest) = false) :
    opensTag (render (row.flatMap (placedPieces head) ++ rest)) = true ↔
      EndsTag (row.map (plain? head)) := by
  cases row with
  | nil => simp [hrest', EndsTag]
  | cons p row =>
    rw [List.forall_mem_cons] at hone
    rw [List.flatMap_cons, List.append_assoc, List.map_cons]
    cases hplain : plain? head p with
    | none =>
      obtain ⟨⟨s, hs⟩, -⟩ :=
        placedPieces_of_marked hone.1 hplain (row.flatMap (placedPieces head) ++ rest)
      rw [hs]
      refine iff_of_false (by simp [opensTag, startsTag]) ?_
      rintro ⟨c, middle, after, hrow, -⟩
      cases (List.cons.inj hrow).1
    | some c =>
      rw [opensTag_of_plain hone.1 hplain, closesTag_row hone.2 hrest]
      constructor
      · rintro ⟨hc, middle, after, hrow, hmiddle⟩
        exact ⟨c, middle, after, by rw [hrow]; rfl, hc, hmiddle⟩
      · rintro ⟨d, middle, after, hrow, hd, hmiddle⟩
        obtain ⟨hc, htail⟩ := List.cons.inj hrow
        obtain rfl := Option.some.inj hc
        exact ⟨hd, middle, after, htail, hmiddle⟩

theorem spell_row (hone : ∀ p ∈ row, p.1.length = 1)
    (hrest : closesTag (render rest) = false) (hrest' : opensTag (render rest) = false) :
    Spell (row.flatMap (placedPieces head) ++ rest) ↔
      HasTag (row.map (plain? head)) ∨ Spell rest := by
  induction row with
  | nil => simp [HasTag]
  | cons p row ih =>
    rw [List.forall_mem_cons] at hone
    rw [List.flatMap_cons, List.append_assoc, List.map_cons, hasTag_cons]
    cases hplain : plain? head p with
    | none =>
      rw [(placedPieces_of_marked hone.1 hplain _).2, ih hone.2]
      simp
    | some c =>
      rw [spell_of_plain hone.1 hplain, opensTag_row hone.2 hrest hrest', ih hone.2, or_assoc,
        Option.some.injEq]

theorem fair_statePieces (state : String) : ∀ q ∈ statePieces state, q.Fair := by
  have hstate : (text ('\\' :: '[' :: (state.toList ++ [']']))).Fair :=
    congrArg (· % 2) (slashesAfter_append_bracket 0 state.toList)
  unfold statePieces
  rw [List.forall_mem_cons, List.forall_mem_cons, List.forall_mem_cons, List.forall_mem_singleton]
  exact ⟨by decide, by decide, hstate, by decide⟩

theorem opens_state_iff (state : String) (s : List Char) :
    Opens 0 (state.toList ++ [']']) ('[' :: s) ↔ StateHasTag state := by
  unfold Opens StateHasTag
  simp only [opensTag_append_bracket, opensTag_iff]
  constructor
  · rintro ⟨before, _, hstate, ⟨c, middle, after, rfl, hc, hmiddle⟩, heven⟩
    exact ⟨before, c, middle, after, hstate, hc, hmiddle, heven⟩
  · rintro ⟨before, c, middle, after, hstate, hc, hmiddle, heven⟩
    exact ⟨before, _, hstate, ⟨c, middle, after, rfl, hc, hmiddle⟩, heven⟩

theorem spell_statePieces (state : String) : Spell (statePieces state) ↔ StateHasTag state := by
  have hspaces : ∀ s, ¬ Opens 0 [' ', ' '] s := not_opens_of_no_bracket (by decide)
  simp only [statePieces, Spell, hspaces, false_or, or_false]
  -- the bracket that is put before the state stands behind one backslash
  rw [opens_cons, opens_cons]
  simp [chars, opens_state_iff]

/-- All the tags that are put in are found where they were put, whatever the cells and the state
are; and they are the only ones unless cells or the state have a tag in them. -/
theorem tags_markup_iff (s : Snapshot) (hone : ∀ c ∈ s.cells, c.length = 1) :
    s.markup.toList = render s.pieces ∧ s.ownTags.Sublist (tags s.markup.toList) ∧
    (tags s.markup.toList = s.ownTags ↔ ¬ HasTag s.plainRow ∧ ¬ StateHasTag s.state) := by
  have hrow : ∀ p ∈ s.cells.zipIdx, p.1.length = 1 := fun p hp =>
    hone p.1 (List.mem_of_getElem? (List.mem_zipIdx_iff_getElem?.1 hp))
  have hfair : ∀ q ∈ s.pieces, q.Fair := by
    intro q hq
    rcases List.mem_append.1 hq with hcell | hstate
    · obtain ⟨p, hp, hq⟩ := List.mem_flatMap.1 hcell
      exact fair_placedPieces (hrow p hp) q hq
    · exact fair_statePieces s.state q hstate
  have hspell : Spell s.pieces ↔ HasTag s.plainRow ∨ StateHasTag s.state := by
    rw [pieces, spell_row hrow rfl rfl, spell_statePieces]
    rfl
  obtain ⟨hsub, hiff⟩ := tagsAfter_render hfair 0 (show 0 % 2 = 0 from rfl)
  rw [hspell, not_or] at hiff
  rw [toList_markup]
  exact ⟨rfl, hsub, hiff⟩

/-- A blank cell and the head keep brackets apart, and a backslash in the state escapes one. -/
theorem tags_markup_of_parted_brackets :
    ∃ s : Snapshot, s.cells = ["[", blank, "b", "]", "\\"] ∧ s.head = 4 ∧ s.state = "a]\\[b" ∧
      (∀ c ∈ s.cells, c.length = 1) ∧ tags s.markup.toList = s.ownTags ∧
      ¬ HasTag s.plainRow ∧ ¬ StateHasTag s.state := by
  obtain ⟨s, hs⟩ : ∃ s : Snapshot, s = ⟨["[", blank, "b", "]", "\\"], 4, "a]\\[b", 0⟩ := ⟨_, rfl⟩
  have hone : ∀ c ∈ s.cells, c.length = 1 := by rw [hs]; decide
  have htags : tags s.markup.toList = s.ownTags := by rw [hs]; decide +kernel
  obtain ⟨-, -, hiff⟩ := tags_markup_iff s hone
  exact ⟨s, by rw [hs], by rw [hs], by rw [hs], hone, htags, hiff.1 htags⟩

/-- Three cells of a tape are taken for a tag, and so is the name of a state. -/
theorem typed_tags_count :
    tags (markup ⟨["[", "b", "]", "0"], 3, "q0", 0⟩).toList =
      (0, "[b]".toList) :: ownTags ⟨["[", "b", "]", "0"], 3, "q0", 0⟩ ∧
    tags (markup ⟨["0"], 0, "[b]", 0⟩).toList ≠ ownTags ⟨["0"], 0, "[b]", 0⟩ := by
  decide +kernel

end TapeLab.Snapshot
