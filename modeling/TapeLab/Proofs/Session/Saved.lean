import TapeLab.Session.Saved
import TapeLab.Proofs.Json.RoundTrip
import TapeLab.Proofs.Rule
import TapeLab.Proofs.Text.Blank
import TapeLab.Proofs.Text.Utf8

/-!
Which sessions come back from a save as they were. The save of a session is always understood; each
part of what is read is compared with the part that was saved.
-/

namespace TapeLab

theorem readSymbol?_eq_self_iff {c : Symbol} : readSymbol? c = some c ↔ c.length = 1 := by
  constructor
  · exact length_of_readSymbol?
  · intro hlength
    unfold readSymbol?
    split
    · next hblank =>
      obtain rfl | rfl | rfl := hblank
      · cases hlength
      · cases hlength
      · rfl
    · rfl

theorem readSymbol_eq_ok_self_iff {c : Symbol} : readSymbol c = .ok c ↔ c.length = 1 := by
  rw [readSymbol_eq_ok_iff, readSymbol?_eq_self_iff]

/-- A state name that is saved and read as it is: white space stands at neither end, and it is
neither empty nor too long. -/
structure IsStateName (name : String) : Prop where
  bare : Text.strip name.toList = name.toList
  pos : 1 ≤ name.length
  short : name.length ≤ maxStateLength

structure Rule.Lasting (r : Rule) : Prop where
  state : IsStateName r.state
  read : r.read.length = 1
  write : r.write.length = 1
  next : IsStateName r.next

theorem isStateName_iff {name : String} :
    IsStateName name ↔
      (Text.strip name.toList).isEmpty = false ∧ clipState name = name := by
  rw [clipState_eq_self_iff, List.isEmpty_eq_false_iff]
  constructor
  · intro h
    refine ⟨?_, h.bare, h.short⟩
    rw [h.bare, ← List.length_pos_iff, String.length_toList]
    exact h.pos
  · rintro ⟨hpos, hbare, hshort⟩
    rw [hbare, ← List.length_pos_iff, String.length_toList] at hpos
    exact ⟨hbare, hpos, hshort⟩

theorem Rule.ofJson_toJson (r : Rule) :
    ofJson r.toJson =
      if (Text.strip r.state.toList).isEmpty || (Text.strip r.next.toList).isEmpty then
        .error .malformed
      else ofTexts (clipState r.state) r.read r.write r.move.name (clipState r.next) := by
  simp [ofJson, toJson, Json.field?, Json.lookup, Json.text?]

theorem Rule.ofTexts_eq_ok_iff (r : Rule) (state next : String) :
    ofTexts state r.read r.write r.move.name next = .ok r ↔
      state = r.state ∧ r.read.length = 1 ∧ r.write.length = 1 ∧ next = r.next := by
  rw [ofTexts_eq_ok, readSymbol_eq_ok_self_iff, readSymbol_eq_ok_self_iff, readMove_eq_ok_iff]
  simp [Move.read?_name]

theorem Rule.ofJson_toJson_eq_ok_iff (r : Rule) : ofJson r.toJson = .ok r ↔ r.Lasting := by
  rw [ofJson_toJson]
  constructor
  · intro h
    split at h
    · cases h
    · next hblank =>
      rw [Bool.or_eq_true, not_or, Bool.not_eq_true, Bool.not_eq_true] at hblank
      obtain ⟨hstate, hread, hwrite, hnext⟩ := (ofTexts_eq_ok_iff r _ _).1 h
      exact ⟨isStateName_iff.2 ⟨hblank.1, hstate⟩, hread, hwrite,
        isStateName_iff.2 ⟨hblank.2, hnext⟩⟩
  · intro h
    obtain ⟨hstate, hclipState⟩ := isStateName_iff.1 h.state
    obtain ⟨hnext, hclipNext⟩ := isStateName_iff.1 h.next
    rw [hstate, hnext, Bool.or_self, if_neg Bool.false_ne_true]
    exact (ofTexts_eq_ok_iff r _ _).2 ⟨hclipState, h.read, h.write, hclipNext⟩

namespace Session

variable {s : Session} {challenges : Int}

/-- A session that a save keeps as it is, where challenges are numbered below `challenges`. -/
structure Lasting (challenges : Int) (s : Session) : Prop where
  challenge : ∀ index ∈ s.challenge, 0 ≤ index ∧ index < challenges
  rules : ∃ table, s.rules = some table ∧ ∀ r ∈ table.rules, r.Lasting
  cells : ∀ cells ∈ s.cells, cells ≠ [] ∧ ∀ c ∈ cells, c.length = 1
  head : ∀ head ∈ s.head, 0 ≤ head ∧ ∀ cells ∈ s.cells, head < cells.length

def data (s : Session) : Json :=
  .record [("challenge", optional .int s.challenge),
    ("rules", .list (((s.rules.map RuleTable.rules).getD []).map Rule.toJson)),
    ("tape", optional (fun cells => .list (cells.map .text)) s.cells),
    ("head", optional .int s.head)]

theorem toJson_eq (s : Session) :
    s.toJson = .record [("version", .int version), ("data", s.data)] := rfl

theorem ofJson_toJson (s : Session) (challenges : Int) :
    ofJson s.toJson challenges =
      some ⟨challengeOf s.data challenges, rulesOf s.data, cellsOf s.data,
        headOf s.data (cellsOf s.data)⟩ := by
  rw [toJson_eq]
  simp [ofJson, Json.field?, Json.lookup, Json.int?, Json.isRecord, data]

theorem allOk_eq_some_iff {rules : List Rule} :
    allOk (rules.map (Rule.ofJson ∘ Rule.toJson)) = some rules ↔ ∀ r ∈ rules, r.Lasting := by
  induction rules with
  | nil => simp [allOk]
  | cons r rules ih =>
    rw [List.map_cons, List.forall_mem_cons, ← ih, ← Rule.ofJson_toJson_eq_ok_iff,
      Function.comp_apply]
    cases Rule.ofJson r.toJson with
    | error e => simp [allOk]
    | ok own =>
      rw [allOk]
      generalize allOk (rules.map (Rule.ofJson ∘ Rule.toJson)) = rest
      cases rest <;> simp

theorem mapM_readSymbol?_eq_some_iff {cells : List Symbol} :
    cells.mapM readSymbol? = some cells ↔ ∀ c ∈ cells, c.length = 1 := by
  induction cells with
  | nil => simp
  | cons c cells ih =>
    rw [List.forall_mem_cons, ← ih, ← readSymbol?_eq_self_iff, List.mapM_cons]
    cases readSymbol? c with
    | none => simp
    | some own => cases cells.mapM readSymbol? <;> simp

theorem challengeOf_data :
    challengeOf s.data challenges = s.challenge ↔
      ∀ index ∈ s.challenge, 0 ≤ index ∧ index < challenges := by
  cases h : s.challenge with
  | none => simp [challengeOf, data, h, optional, Json.field?, Json.lookup, Json.number?]
  | some index =>
    simp [challengeOf, data, h, optional, Json.field?, Json.lookup, Json.number?]

theorem rulesOf_data :
    rulesOf s.data = s.rules ↔
      ∃ table, s.rules = some table ∧ ∀ r ∈ table.rules, r.Lasting := by
  cases h : s.rules with
  | none => simp [rulesOf, data, h, Json.field?, Json.lookup, Json.list?, allOk]
  | some table =>
    obtain ⟨rules⟩ := table
    simpa [rulesOf, data, h, Json.field?, Json.lookup, Json.list?] using allOk_eq_some_iff

theorem cellsOf_data :
    cellsOf s.data = s.cells ↔ ∀ cells ∈ s.cells, cells ≠ [] ∧ ∀ c ∈ cells, c.length = 1 := by
  cases h : s.cells with
  | none => simp [cellsOf, data, h, optional, Json.field?, Json.lookup, Json.list?]
  | some cells =>
    simp [cellsOf, data, h, optional, Json.field?, Json.lookup, Json.list?]
    exact fun _ => mapM_readSymbol?_eq_some_iff

theorem headOf_data (cells : Option (List Symbol)) :
    headOf s.data cells = s.head ↔
      ∀ head ∈ s.head, 0 ≤ head ∧ ∀ cs ∈ cells, head < cs.length := by
  cases h : s.head with
  | none => simp [headOf, data, h, optional, Json.field?, Json.lookup, Json.number?]
  | some head =>
    simp [headOf, data, h, optional, Json.field?, Json.lookup, Json.number?]

theorem ofJson_toJson_eq_self_iff :
    ofJson s.toJson challenges = some s ↔ s.Lasting challenges := by
  rw [ofJson_toJson, Option.some_inj]
  constructor
  · intro h
    have hcells : cellsOf s.data = s.cells := congrArg cells h
    have hhead : headOf s.data s.cells = s.head := hcells ▸ congrArg head h
    exact ⟨challengeOf_data.1 (congrArg challenge h), rulesOf_data.1 (congrArg rules h),
      cellsOf_data.1 hcells, (headOf_data _).1 hhead⟩
  · intro h
    have hcells := cellsOf_data.2 h.cells
    rw [hcells, challengeOf_data.2 h.challenge, rulesOf_data.2 h.rules, (headOf_data _).2 h.head]

theorem isWritable_of_natAbs_lt {n : Int} (hn : n.natAbs < 10) : Text.isWritable n = true := by
  have hpos : 1 ≤ Text.maxDigits := by decide
  -- the power is too large to be worked out
  generalize hk : Text.maxDigits = k at hpos
  have hle : 10 ^ 1 ≤ 10 ^ k := Nat.pow_le_pow_right (by decide) hpos
  simp only [Text.isWritable, hk, Nat.pow_eq, decide_eq_true_eq]
  omega

theorem isWritable_iff : s.isWritable = true ↔
    (∀ index ∈ s.challenge, Text.isWritable index = true) ∧
      ∀ head ∈ s.head, Text.isWritable head = true := by
  cases hchallenge : s.challenge <;> cases hhead : s.head <;> simp [isWritable, hchallenge, hhead]

theorem isWhole_toJson (hs : s.isWritable = true) : s.toJson.IsWhole := by
  obtain ⟨hchallenge, hhead⟩ := isWritable_iff.1 hs
  have hrules (rules : List Rule) : Json.AllWhole (rules.map Rule.toJson) := by
    induction rules with
    | nil => trivial
    | cons r rules ih => exact ⟨⟨trivial, trivial, trivial, trivial, trivial, trivial⟩, ih⟩
  have hcells (cells : List Symbol) : Json.AllWhole (cells.map Json.text) := by
    induction cells with
    | nil => trivial
    | cons c cells ih => exact ⟨trivial, ih⟩
  refine ⟨isWritable_of_natAbs_lt (by decide), ⟨?_, hrules _, ?_, ?_, trivial⟩, trivial⟩
  · cases h : s.challenge with
    | none => trivial
    | some index => exact hchallenge index h
  · cases s.cells with
    | none => trivial
    | some cells => exact hcells cells
  · cases h : s.head with
    | none => trivial
    | some head => exact hhead head h

theorem ofBytes_encodeUtf8 (hs : s.isWritable = true) {own : Session}
    (hown : ofJson s.toJson challenges = some own) :
    ofBytes (Text.encodeUtf8 s.toText) challenges = .ok own := by
  have hwhole := isWhole_toJson hs
  have hchars : s.toText.toList = s.toJson.print := String.toList_ofList
  have hlines := Text.unifyNewlines_eq_self (Json.return_not_mem_print _ hwhole)
  simp [ofBytes, Text.decodeUtf8_encodeUtf8, hchars, hlines, Json.read?_print hwhole, hown]

theorem ofBytes_encodeUtf8_eq_ok_self_iff (hs : s.isWritable = true) :
    ofBytes (Text.encodeUtf8 s.toText) challenges = .ok s ↔ s.Lasting challenges := by
  rw [ofBytes_encodeUtf8 hs (ofJson_toJson s challenges), Except.ok.injEq,
    ← ofJson_toJson_eq_self_iff, ofJson_toJson, Option.some_inj]

end Session

end TapeLab
