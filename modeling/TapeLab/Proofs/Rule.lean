import TapeLab.Rule
import TapeLab.Proofs.Text.Words

/-!
What the words of a line say. A rule is read from a line just if it is `WrittenOn` it: the state,
the symbol that is read and the one that is written, the move and the next state, in this order.
-/

namespace TapeLab

open Text

def NamesSymbol (word : List Char) (s : Symbol) : Prop :=
  (word = "blank".toList ∧ s = blank) ∨ (word.length = 1 ∧ s = String.ofList word)

def NamesMove (word : List Char) (m : Move) : Prop :=
  word = m.name.toList ∨ word = m.name.toList.map Char.toLower

/-- The rule that the first five words of a line tell. -/
def Rule.WrittenOn (line : List Char) (r : Rule) : Prop :=
  ∃ read write move more,
    words line = r.state.toList :: read :: write :: move :: r.next.toList :: more ∧
    NamesSymbol read r.read ∧ NamesSymbol write r.write ∧ NamesMove move r.move

theorem readSymbol_eq_ok_iff {text : String} {s : Symbol} :
    readSymbol text = .ok s ↔ readSymbol? text = some s := by
  unfold readSymbol
  cases readSymbol? text <;> simp

theorem readMove_eq_ok_iff {text : String} {m : Move} :
    readMove text = .ok m ↔ Move.read? text = some m := by
  unfold readMove
  cases Move.read? text <;> simp

theorem readSymbol?_ofList_iff {word : List Char} (hword : word ≠ []) {s : Symbol} :
    readSymbol? (String.ofList word) = some s ↔ NamesSymbol word s := by
  have hempty : String.ofList word ≠ "" := by simpa using hword
  have hnamed : String.ofList word = "blank" ↔ word = "blank".toList := by
    rw [← String.toList_inj, String.toList_ofList]
  have hlong : "blank".toList.length ≠ 1 := by decide
  simp only [readSymbol?, NamesSymbol, hempty, hnamed, String.length_ofList, false_or]
  generalize "blank".toList = name at hlong ⊢
  by_cases hname : word = name
  · subst hname
    simp [hlong, eq_comm]
  · by_cases hsquare : String.ofList word = blank
    · have hlength : word.length = 1 := by rw [← String.length_ofList, hsquare]; rfl
      simp [hname, hsquare, hlength, eq_comm]
    · by_cases hlength : word.length = 1
      · simp [hname, hsquare, hlength, eq_comm]
      · simp [hname, hsquare, hlength]

theorem Move.read?_ofList_iff {word : List Char} (hword : IsWord word) {m : Move} :
    Move.read? (String.ofList word) = some m ↔ NamesMove word m := by
  unfold Move.read? NamesMove
  rw [String.toList_ofList, hword.strip]
  constructor
  · intro h
    split at h
    all_goals cases h
    all_goals simp [Move.name]
  · cases m with
    | left => rintro (rfl | rfl) <;> rfl
    | stay => rintro (rfl | rfl) <;> rfl
    | right => rintro (rfl | rfl) <;> rfl

namespace Rule

variable {r : Rule} {line : List Char}

theorem ofTexts_eq_ok {state read write move next : String} :
    ofTexts state read write move next = .ok r ↔
      state = r.state ∧ readSymbol read = .ok r.read ∧ readSymbol write = .ok r.write ∧
        readMove move = .ok r.move ∧ next = r.next := by
  obtain ⟨ownState, ownRead, ownWrite, ownMove, ownNext⟩ := r
  unfold ofTexts
  cases readSymbol read with
  | error e => simp [bind, Except.bind]
  | ok symbol =>
    cases readSymbol write with
    | error e => simp [bind, Except.bind]
    | ok other =>
      cases readMove move with
      | error e => simp [bind, Except.bind]
      | ok m => simp [bind, Except.bind, pure, Except.pure]

theorem parse_eq_ok_iff : parse (String.ofList line) = .ok r ↔ r.WrittenOn line := by
  unfold parse WrittenOn
  rw [String.toList_ofList]
  have hword {w : List Char} (hw : w ∈ words line) : IsWord w := isWord_of_mem_words hw
  split
  · next state read write move next more hwords =>
    rw [ofTexts_eq_ok, readSymbol_eq_ok_iff, readSymbol_eq_ok_iff, readMove_eq_ok_iff,
      readSymbol?_ofList_iff (hword (by simp [hwords])).ne_nil,
      readSymbol?_ofList_iff (hword (by simp [hwords])).ne_nil,
      Move.read?_ofList_iff (hword (by simp [hwords])), hwords]
    constructor
    · rintro ⟨hstate, hread, hwrite, hmove, hnext⟩
      refine ⟨read, write, move, more, ?_, hread, hwrite, hmove⟩
      rw [← hstate, ← hnext, String.toList_ofList, String.toList_ofList]
    · rintro ⟨read', write', move', more', hsame, hread, hwrite, hmove⟩
      simp only [List.cons.injEq] at hsame
      obtain ⟨rfl, rfl, rfl, rfl, rfl, rfl⟩ := hsame
      exact ⟨String.ofList_toList, hread, hwrite, hmove, String.ofList_toList⟩
  · next hfew =>
    constructor
    · rintro ⟨⟩
    · rintro ⟨read, write, move, more, hwords, -⟩
      exact absurd hwords (hfew _ _ _ _ _ _)

end Rule

theorem isWord_of_namesSymbol {word : List Char} {s : Symbol} (hword : IsWord word)
    (h : NamesSymbol word s) : s.length = 1 ∧ IsWord s.toList := by
  rcases h with ⟨-, rfl⟩ | ⟨hlength, rfl⟩
  · exact ⟨by decide, isWord_singleton (by decide)⟩
  · rw [String.length_ofList, String.toList_ofList]
    exact ⟨hlength, hword⟩

structure Rule.InWords (r : Rule) : Prop where
  state : IsWord r.state.toList
  read : r.read.length = 1 ∧ IsWord r.read.toList
  write : r.write.length = 1 ∧ IsWord r.write.toList
  next : IsWord r.next.toList

theorem Rule.WrittenOn.inWords {line : List Char} {r : Rule} (h : r.WrittenOn line) :
    r.InWords := by
  obtain ⟨read, write, move, more, hwords, hread, hwrite, -⟩ := h
  have hword {w : List Char} (hw : w ∈ words line) : IsWord w := isWord_of_mem_words hw
  exact ⟨hword (by simp [hwords]), isWord_of_namesSymbol (hword (by simp [hwords])) hread,
    isWord_of_namesSymbol (hword (by simp [hwords])) hwrite, hword (by simp [hwords])⟩

end TapeLab
