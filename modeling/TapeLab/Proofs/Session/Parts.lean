import TapeLab.Proofs.Rule
import TapeLab.Proofs.Text.Blank
import TapeLab.Session.Saved

/-!
What a session takes from a save. Any value can be read: a save gives a session, and nothing else
does. Each part of the session is its own entry of the data, if that makes sense, and is absent
otherwise; only the head is looked at beside another part, the cells that it is to stand on. So
what is malformed in one place is missed in that place only.
-/

namespace TapeLab

structure Rule.Sized (r : Rule) : Prop where
  state : 1 ≤ r.state.length ∧ r.state.length ≤ maxStateLength
  read : r.read.length = 1
  write : r.write.length = 1
  next : 1 ≤ r.next.length ∧ r.next.length ≤ maxStateLength

theorem length_clipState (name : String) :
    (clipState name).length = min maxStateLength (Text.strip name.toList).length := by
  rw [← String.length_toList, toList_clipState, List.length_take]

theorem clipState_bounds {name : String} (h : (Text.strip name.toList).isEmpty = false) :
    1 ≤ (clipState name).length ∧ (clipState name).length ≤ maxStateLength := by
  have hpos : 0 < (Text.strip name.toList).length :=
    List.length_pos_iff.2 (List.isEmpty_eq_false_iff.1 h)
  have hmax : 0 < maxStateLength := by decide
  rw [length_clipState]
  omega

theorem Rule.of_ofTexts {state read write move next : String} {r : Rule}
    (h : ofTexts state read write move next = .ok r) :
    r.state = state ∧ r.read.length = 1 ∧ r.write.length = 1 ∧ r.next = next := by
  obtain ⟨hstate, hread, hwrite, -, hnext⟩ := ofTexts_eq_ok.1 h
  exact ⟨hstate.symm, length_of_readSymbol? (readSymbol_eq_ok_iff.1 hread),
    length_of_readSymbol? (readSymbol_eq_ok_iff.1 hwrite), hnext.symm⟩

theorem Rule.clips_of_ofJson {v : Json} {r : Rule} (h : ofJson v = .ok r) :
    ∃ state next, r.state = clipState state ∧ (Text.strip state.toList).isEmpty = false ∧
      r.read.length = 1 ∧ r.write.length = 1 ∧
      r.next = clipState next ∧ (Text.strip next.toList).isEmpty = false := by
  unfold ofJson at h
  dsimp only at h
  split at h
  · split at h
    · cases h
    · next hblank =>
      rw [Bool.or_eq_true, not_or, Bool.not_eq_true, Bool.not_eq_true] at hblank
      obtain ⟨hstate, hread, hwrite, hnext⟩ := of_ofTexts h
      exact ⟨_, _, hstate, hblank.1, hread, hwrite, hnext, hblank.2⟩
  · cases h

theorem Rule.sized_of_ofJson {v : Json} {r : Rule} (h : ofJson v = .ok r) : r.Sized := by
  obtain ⟨_, _, hstate, hstateBlank, hread, hwrite, hnext, hnextBlank⟩ := clips_of_ofJson h
  exact ⟨hstate ▸ clipState_bounds hstateBlank, hread, hwrite,
    hnext ▸ clipState_bounds hnextBlank⟩

namespace Session

variable {v v' : Json} {challenges : Int} {s s' : Session}

/-- An object of the known version, with an object of data. -/
def IsSave (v : Json) : Prop :=
  ∃ version data, v.field? "version" = some version ∧ v.field? "data" = some (.record data) ∧
    (version = .int 1 ∨ version = .bool true)

def dataOf? (v : Json) (key : String) : Option Json :=
  (v.field? "data").bind fun data => data.field? key

theorem int?_eq_version_iff {v : Json} :
    v.int? = some version ↔ v = .int 1 ∨ v = .bool true := by
  cases v with
  | int n => simp [Json.int?, version]
  | bool b => cases b <;> simp [Json.int?, version]
  | _ => simp [Json.int?]

theorem isRecord_iff {v : Json} : v.isRecord = true ↔ ∃ data, v = .record data := by
  cases v <;> simp [Json.isRecord]

theorem ofJson_eq_some_iff :
    ofJson v challenges = some s ↔ IsSave v ∧ ∃ data, v.field? "data" = some data ∧
      s = ⟨challengeOf data challenges, rulesOf data, cellsOf data,
        headOf data (cellsOf data)⟩ := by
  simp only [ofJson, Option.bind_eq_bind, Option.bind_eq_some_iff]
  constructor
  · rintro ⟨saved, ⟨number, hnumber, hsaved⟩, data, hdata, h⟩
    split at h
    · next hknown =>
      obtain ⟨hversion, hrecord⟩ := hknown
      obtain ⟨fields, rfl⟩ := isRecord_iff.1 hrecord
      exact ⟨⟨number, fields, hnumber, hdata, int?_eq_version_iff.1 (hversion ▸ hsaved)⟩, _,
        hdata, (Option.some.inj h).symm⟩
    · cases h
  · rintro ⟨⟨number, fields, hnumber, hfields, hversion⟩, data, hdata, rfl⟩
    obtain rfl : data = .record fields := Option.some.inj (hdata.symm.trans hfields)
    exact ⟨version, ⟨number, hnumber, int?_eq_version_iff.2 hversion⟩, _, hdata,
      if_pos ⟨rfl, rfl⟩⟩

theorem ofJson_eq_none_iff : ofJson v challenges = none ↔ ¬ IsSave v := by
  constructor
  · intro h hsave
    have ⟨_, fields, _, hdata, _⟩ := hsave
    have hread : ofJson v challenges = some _ := ofJson_eq_some_iff.2 ⟨hsave, _, hdata, rfl⟩
    cases h.symm.trans hread
  · intro hsave
    cases h : ofJson v challenges with
    | none => rfl
    | some s => exact absurd (ofJson_eq_some_iff.1 h).1 hsave

/-- A session that has of every part what its entry says, if that makes sense. -/
structure TakenFrom (v : Json) (challenges : Int) (s : Session) : Prop where
  challenge (index : Int) : s.challenge = some index ↔
    dataOf? v "challenge" = some (.int index) ∧ 0 ≤ index ∧ index < challenges
  rules (t : RuleTable) : s.rules = some t ↔
    ∃ items, dataOf? v "rules" = some (.list items) ∧
      items.map Rule.ofJson = t.rules.map Except.ok
  cells (cells : List Symbol) : s.cells = some cells ↔
    cells ≠ [] ∧ ∃ texts : List String, dataOf? v "tape" = some (.list (texts.map Json.text)) ∧
      texts.map readSymbol? = cells.map some
  head (head : Int) : s.head = some head ↔
    dataOf? v "head" = some (.int head) ∧ 0 ≤ head ∧ ∀ cells ∈ s.cells, head < cells.length

theorem number?_eq_some_iff {v : Json} {n : Int} : v.number? = some n ↔ v = .int n := by
  cases v <;> simp [Json.number?]

theorem list?_eq_some_iff {v : Json} {items : List Json} :
    v.list? = some items ↔ v = .list items := by
  cases v <;> simp [Json.list?]

theorem allOk_eq_some_iff_map {α ε : Type} {results : List (Except ε α)} {as : List α} :
    allOk results = some as ↔ results = as.map Except.ok := by
  induction results generalizing as with
  | nil => cases as <;> simp [allOk]
  | cons r results ih =>
    cases r with
    | error e => cases as <;> simp [allOk]
    | ok a =>
      rw [allOk, Option.map_eq_some_iff]
      cases as with
      | nil => simp
      | cons b as =>
        simp only [List.map_cons, List.cons.injEq, Except.ok.injEq]
        constructor
        · rintro ⟨rest, hrest, rfl, rfl⟩
          exact ⟨rfl, ih.1 hrest⟩
        · rintro ⟨rfl, hrest⟩
          exact ⟨as, ih.2 hrest, rfl, rfl⟩

theorem mapM_symbols_eq_some_iff {items : List Json} {cells : List Symbol} :
    (items.mapM fun item => item.text?.bind readSymbol?) = some cells ↔
      ∃ texts : List String, items = texts.map Json.text ∧
        texts.map readSymbol? = cells.map some := by
  induction items generalizing cells with
  | nil => cases cells <;> simp
  | cons item items ih =>
    rw [List.mapM_cons]
    simp only [Option.bind_eq_bind, Option.bind_eq_some_iff, Option.pure_def, Option.some.injEq]
    constructor
    · rintro ⟨c, ⟨text, htext, hc⟩, rest, hrest, rfl⟩
      obtain ⟨texts, rfl, hmap⟩ := ih.1 hrest
      have hitem : item = .text text := by cases item <;> simp_all [Json.text?]
      exact ⟨text :: texts, by rw [hitem, List.map_cons], by rw [List.map_cons, hc, hmap]; rfl⟩
    · rintro ⟨texts, hitems, hmap⟩
      cases texts with
      | nil => cases hitems
      | cons text texts =>
        cases cells with
        | nil => cases hmap
        | cons c cells =>
          rw [List.map_cons, List.cons.injEq] at hitems
          rw [List.map_cons, List.map_cons, List.cons.injEq] at hmap
          exact ⟨c, ⟨text, by rw [hitems.1]; rfl, hmap.1⟩, cells,
            ih.2 ⟨texts, hitems.2, hmap.2⟩, rfl⟩

theorem takenFrom_of_ofJson (h : ofJson v challenges = some s) : s.TakenFrom v challenges := by
  obtain ⟨-, data, hdata, rfl⟩ := ofJson_eq_some_iff.1 h
  have hentry (key : String) : dataOf? v key = data.field? key := by rw [dataOf?, hdata]; rfl
  refine ⟨fun index => ?_, fun t => ?_, fun cells => ?_, fun head => ?_⟩
  · simp only [challengeOf, Option.filter_eq_some_iff, Option.bind_eq_some_iff,
      number?_eq_some_iff, decide_eq_true_eq, hentry]
    simp
  · simp only [rulesOf, Option.bind_eq_some_iff, list?_eq_some_iff, Option.map_eq_some_iff,
      allOk_eq_some_iff_map, hentry]
    constructor
    · rintro ⟨items, ⟨_, hitems, rfl⟩, rules, hrules, rfl⟩
      exact ⟨items, hitems, hrules⟩
    · rintro ⟨items, hitems, hrules⟩
      exact ⟨items, ⟨_, hitems, rfl⟩, t.rules, hrules, rfl⟩
  · simp only [cellsOf, Option.bind_eq_some_iff, list?_eq_some_iff, hentry]
    constructor
    · rintro ⟨items, ⟨_, hitems, rfl⟩, h⟩
      split at h
      · cases h
      · next hempty =>
        obtain ⟨texts, rfl, hmap⟩ := mapM_symbols_eq_some_iff.1 h
        refine ⟨?_, texts, hitems, hmap⟩
        rintro rfl
        rw [List.map_nil, List.map_eq_nil_iff] at hmap
        exact hempty (by rw [hmap]; rfl)
    · rintro ⟨hne, texts, hitems, hmap⟩
      refine ⟨_, ⟨_, hitems, rfl⟩, ?_⟩
      split
      · next hempty =>
        rw [List.isEmpty_iff, List.map_eq_nil_iff] at hempty
        rw [hempty, List.map_nil] at hmap
        exact absurd (List.map_eq_nil_iff.1 hmap.symm) hne
      · exact mapM_symbols_eq_some_iff.2 ⟨texts, rfl, hmap⟩
  · simp only [headOf, Option.filter_eq_some_iff, Option.bind_eq_some_iff, number?_eq_some_iff,
      decide_eq_true_eq, hentry]
    simp

structure WellFormed (challenges : Int) (s : Session) : Prop where
  challenge : ∀ index ∈ s.challenge, 0 ≤ index ∧ index < challenges
  rules : ∀ t ∈ s.rules, ∀ r ∈ t.rules, r.Sized
  cells : ∀ cells ∈ s.cells, cells ≠ [] ∧ ∀ c ∈ cells, c.length = 1
  head : ∀ head ∈ s.head, 0 ≤ head ∧ ∀ cells ∈ s.cells, head < cells.length

theorem TakenFrom.wellFormed (h : s.TakenFrom v challenges) : s.WellFormed challenges where
  challenge index hindex := ((h.challenge index).1 hindex).2
  rules t ht r hr := by
    obtain ⟨items, -, hitems⟩ := (h.rules t).1 ht
    have hmem : Except.ok r ∈ items.map Rule.ofJson := hitems ▸ List.mem_map_of_mem hr
    obtain ⟨item, -, hitem⟩ := List.mem_map.1 hmem
    exact Rule.sized_of_ofJson hitem
  cells cells hcells := by
    obtain ⟨hne, texts, -, htexts⟩ := (h.cells cells).1 hcells
    refine ⟨hne, fun c hc => ?_⟩
    have hmem : some c ∈ texts.map readSymbol? := htexts ▸ List.mem_map_of_mem hc
    obtain ⟨text, -, htext⟩ := List.mem_map.1 hmem
    exact length_of_readSymbol? htext
  head head hhead := ((h.head head).1 hhead).2

/-- Parts that agree, as far as the entries agree that they are read from. -/
structure AgreesWith (v v' : Json) (s s' : Session) : Prop where
  challenge : dataOf? v' "challenge" = dataOf? v "challenge" → s'.challenge = s.challenge
  rules : dataOf? v' "rules" = dataOf? v "rules" → s'.rules = s.rules
  cells : dataOf? v' "tape" = dataOf? v "tape" → s'.cells = s.cells
  head : dataOf? v' "tape" = dataOf? v "tape" → dataOf? v' "head" = dataOf? v "head" →
    s'.head = s.head

theorem TakenFrom.agreesWith (h : s.TakenFrom v challenges) (h' : s'.TakenFrom v' challenges) :
    AgreesWith v v' s s' := by
  have hcells (htape : dataOf? v' "tape" = dataOf? v "tape") : s'.cells = s.cells :=
    Option.ext fun cells => by rw [h'.cells, h.cells, htape]
  refine ⟨fun hchallenge => Option.ext fun index => ?_, fun hrules => Option.ext fun t => ?_,
    hcells, fun htape hhead => Option.ext fun head => ?_⟩
  · rw [h'.challenge, h.challenge, hchallenge]
  · rw [h'.rules, h.rules, hrules]
  · rw [h'.head, h.head, hhead, hcells htape]

end Session

end TapeLab
