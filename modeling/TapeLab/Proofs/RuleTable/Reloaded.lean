import TapeLab.Proofs.RuleTable.Printed
import TapeLab.Proofs.Session.Parts
import TapeLab.Proofs.Session.Saved

/-!
Rules that are saved and read again. A typed line brings state names of any length; saves and edits
take white space off and then cut, so that the cut may leave white space at the end. What comes back
has its names cut once more: a rule that came in may return with other names, but what has returned
once stays as it is.
-/

namespace TapeLab

open Text

/-- A state name that has come in. It begins with no white space, and either there is none in it or
it is not too long. -/
structure IsEnteredName (name : String) : Prop where
  ne_nil : name.toList ≠ []
  front : ∀ c ∈ name.toList.head?, isBlank c = false
  form : IsWord name.toList ∨ name.length ≤ maxStateLength

def EndsWell (name : String) : Prop :=
  name.length ≤ maxStateLength ∧ ∀ c ∈ name.toList.getLast?, isBlank c = false

section Names

variable {name : String}

theorem isEnteredName_of_isWord (h : IsWord name.toList) : IsEnteredName name where
  ne_nil := h.ne_nil
  front c hc := h.bare c (List.mem_of_mem_head? hc)
  form := .inl h

theorem isEnteredName_clipState (h : (strip name.toList).isEmpty = false) :
    IsEnteredName (clipState name) where
  ne_nil := by
    rw [← List.length_pos_iff, String.length_toList]
    exact (clipState_bounds h).1
  front c hc := by
    rw [toList_clipState, List.head?_take] at hc
    exact bare_head_strip name.toList c hc
  form := .inr (clipState_bounds h).2

theorem IsEnteredName.clipState_eq_self_iff (h : IsEnteredName name) :
    clipState name = name ↔ EndsWell name := by
  rw [TapeLab.clipState_eq_self_iff, strip_eq_self_iff]
  exact ⟨fun ⟨⟨_, hlast⟩, hshort⟩ => ⟨hshort, hlast⟩, fun ⟨hshort, hlast⟩ =>
    ⟨⟨h.front, hlast⟩, hshort⟩⟩

theorem IsEnteredName.strip_isEmpty (h : IsEnteredName name) :
    (strip name.toList).isEmpty = false := by
  have hfront := h.front
  rw [List.isEmpty_eq_false_iff]
  cases hname : name.toList with
  | nil => exact absurd hname h.ne_nil
  | cons c s => exact strip_cons_ne_nil (hfront c (by simp [hname])) s

theorem IsEnteredName.isStateName_clipState (h : IsEnteredName name) :
    IsStateName (clipState name) := by
  obtain ⟨hpos, hshort⟩ := clipState_bounds h.strip_isEmpty
  refine ⟨?_, hpos, hshort⟩
  rcases h.form with hword | hlength
  · -- without white space there is none at the end, wherever the name is cut
    have hcut : IsWord (clipState name).toList := by
      refine ⟨List.length_pos_iff.1 (by rw [String.length_toList]; exact hpos), fun c hc => ?_⟩
      rw [toList_clipState, hword.strip] at hc
      exact hword.bare c (List.mem_of_mem_take hc)
    exact hcut.strip
  · have hle := length_strip_le name.toList
    rw [String.length_toList] at hle
    rw [toList_clipState, List.take_of_length_le (by omega), strip_strip]

end Names

namespace Rule

variable {r : Rule}

/-- A rule whose names have come in, and whose symbols are symbols. -/
structure Entered (r : Rule) : Prop where
  state : IsEnteredName r.state
  read : r.read.length = 1
  write : r.write.length = 1
  next : IsEnteredName r.next

def clipped (r : Rule) : Rule :=
  { r with state := clipState r.state, next := clipState r.next }

@[simp] theorem clipped_read : r.clipped.read = r.read := by simp only [clipped]

@[simp] theorem clipped_write : r.clipped.write = r.write := by simp only [clipped]

@[simp] theorem clipped_move : r.clipped.move = r.move := by simp only [clipped]

theorem Entered.ofJson_toJson (h : r.Entered) : ofJson r.toJson = .ok r.clipped := by
  rw [Rule.ofJson_toJson, h.state.strip_isEmpty, h.next.strip_isEmpty, Bool.or_self,
    if_neg Bool.false_ne_true, ofTexts_eq_ok, clipped_read, clipped_write, clipped_move]
  exact ⟨rfl, readSymbol_eq_ok_self_iff.2 h.read, readSymbol_eq_ok_self_iff.2 h.write,
    readMove_eq_ok_iff.2 (Move.read?_name r.move), rfl⟩

theorem Entered.lasting_clipped (h : r.Entered) : r.clipped.Lasting where
  state := h.state.isStateName_clipState
  read := by rw [clipped_read, h.read]
  write := by rw [clipped_write, h.write]
  next := h.next.isStateName_clipState

theorem Entered.clipped_eq_self_iff (h : r.Entered) :
    r.clipped = r ↔ EndsWell r.state ∧ EndsWell r.next := by
  rw [← h.state.clipState_eq_self_iff, ← h.next.clipState_eq_self_iff]
  obtain ⟨state, read, write, move, next⟩ := r
  simp [clipped]

/-- Rules that are typed on a line or read from a save. -/
inductive Enters : Rule → Prop
  | typed {line : String} {r : Rule} : parse line = .ok r → Enters r
  | saved {v : Json} {r : Rule} : ofJson v = .ok r → Enters r

theorem InWords.entered (h : r.InWords) : r.Entered :=
  ⟨isEnteredName_of_isWord h.state, h.read.1, h.write.1, isEnteredName_of_isWord h.next⟩

theorem entered_of_ofJson {v : Json} (h : ofJson v = .ok r) : r.Entered := by
  obtain ⟨_, _, hstate, hstateBlank, hread, hwrite, hnext, hnextBlank⟩ := clips_of_ofJson h
  exact ⟨hstate ▸ isEnteredName_clipState hstateBlank, hread, hwrite,
    hnext ▸ isEnteredName_clipState hnextBlank⟩

theorem Enters.entered (h : r.Enters) : r.Entered := by
  cases h with
  | @typed line _ hline =>
    rw [← String.ofList_toList (s := line), parse_eq_ok_iff] at hline
    exact hline.inWords.entered
  | saved h => exact entered_of_ofJson h

theorem entered_default : default.Entered :=
  InWords.entered ⟨by decide, by decide, by decide, by decide⟩

theorem Entered.edit? {other : Rule} {field : RuleField} {value : String} (h : r.Entered)
    (hedit : r.edit? field value = some other) : other.Entered := by
  have hname (hne : clipState value ≠ "") : IsEnteredName (clipState value) := by
    refine isEnteredName_clipState (List.isEmpty_eq_false_iff.2 fun hnil => hne ?_)
    rw [← String.toList_inj, toList_clipState, hnil]
    rfl
  cases field with
  | state =>
    simp only [Rule.edit?, Option.ite_none_left_eq_some, Option.some.injEq] at hedit
    obtain ⟨hne, rfl⟩ := hedit
    exact ⟨hname hne, h.read, h.write, h.next⟩
  | next =>
    simp only [Rule.edit?, Option.ite_none_left_eq_some, Option.some.injEq] at hedit
    obtain ⟨hne, rfl⟩ := hedit
    exact ⟨h.state, h.read, h.write, hname hne⟩
  | read =>
    obtain ⟨s, hs, rfl⟩ := Option.map_eq_some_iff.1 hedit
    exact ⟨h.state, length_of_readSymbol? hs, h.write, h.next⟩
  | write =>
    obtain ⟨s, hs, rfl⟩ := Option.map_eq_some_iff.1 hedit
    exact ⟨h.state, h.read, length_of_readSymbol? hs, h.next⟩
  | move =>
    obtain ⟨m, -, rfl⟩ := Option.map_eq_some_iff.1 hedit
    exact ⟨h.state, h.read, h.write, h.next⟩

end Rule

namespace RuleTable

/-- Tables of rules that have come in, edited in any way. -/
inductive Entered : RuleTable → Prop
  | of {rules : List Rule} : (∀ r ∈ rules, r.Enters) → Entered ⟨rules⟩
  | add {t : RuleTable} : Entered t → Entered (t.add .default)
  | update {t u : RuleTable} {index : Int} {field value : String} :
      Entered t → t.update index field value = .ok (some u) → Entered u
  | delete {t u : RuleTable} {index : Int} : Entered t → t.delete? index = some u → Entered u

theorem mem_of_update {t u : RuleTable} {index : Int} {field value : String}
    (h : t.update index field value = .ok (some u)) {r : Rule} (hr : r ∈ u.rules) :
    r ∈ t.rules ∨ ∃ s ∈ t.rules, ∃ f, s.edit? f value = some r := by
  unfold update at h
  split at h
  · cases h
  · split at h
    · cases h
    · next f _ =>
      simp only [Except.ok.injEq, Option.bind_eq_bind, Option.bind_eq_some_iff, Option.pure_def,
        Option.some.injEq] at h
      obtain ⟨s, hs, edited, hedit, rfl⟩ := h
      rcases List.mem_or_eq_of_mem_set hr with hr | rfl
      · exact .inl hr
      · exact .inr ⟨s, List.mem_of_getElem? hs, f, hedit⟩

theorem Entered.rules {t : RuleTable} (h : t.Entered) : ∀ r ∈ t.rules, r.Entered := by
  induction h with
  | of h => exact fun r hr => (h r hr).entered
  | add _ ih =>
    intro r hr
    rcases List.mem_append.1 hr with hr | hr
    · exact ih r hr
    · exact List.mem_singleton.1 hr ▸ Rule.entered_default
  | update _ h ih =>
    intro r hr
    rcases mem_of_update h hr with hr | ⟨s, hs, f, hedit⟩
    · exact ih r hr
    · exact (ih s hs).edit? hedit
  | @delete t u index _ h ih =>
    intro r hr
    unfold delete? at h
    split at h
    · obtain rfl := Option.some.inj h
      exact ih r (List.mem_of_mem_eraseIdx hr)
    · cases h

theorem entered_of_parse {text : String} {t : RuleTable} (h : parse text = .ok t) :
    t.Entered := by
  refine .of fun r hr => ?_
  obtain ⟨line, -, hwritten⟩ := exists_mem_of_forall₂ (parse_eq_ok_iff.1 h) hr
  exact .typed (Rule.parse_eq_ok_iff.2 hwritten)

/-- However a rule has come in, what is saved of it is read as the rule with its names cut. It comes
back as it was just if both names are short enough and end well; and what has come back once comes
back unchanged. -/
theorem reload_settles {t : RuleTable} (h : t.Entered) {r : Rule} (hr : r ∈ t.rules) :
    Rule.ofJson r.toJson = .ok r.clipped ∧
    (Rule.ofJson r.toJson = .ok r ↔ EndsWell r.state ∧ EndsWell r.next) ∧
    Rule.ofJson r.clipped.toJson = .ok r.clipped := by
  have hin := h.rules r hr
  refine ⟨hin.ofJson_toJson, ?_, (Rule.ofJson_toJson_eq_ok_iff _).2 hin.lasting_clipped⟩
  rw [hin.ofJson_toJson, Except.ok.injEq]
  exact hin.clipped_eq_self_iff

/-- A typed name of twelve characters is cut, and settles. -/
theorem reload_settles_typed :
    ∃ t r, Entered t ∧ r ∈ t.rules ∧ r.state = "carry_left_1" ∧ r.clipped.state = "carry_left" ∧
      Rule.ofJson r.toJson = .ok r.clipped ∧
      Rule.ofJson r.clipped.toJson = .ok r.clipped := by
  have hparse : parse "carry_left_1 0 1 L q0" =
      .ok ⟨[⟨"carry_left_1", "0", "1", .left, "q0"⟩]⟩ := by decide +kernel
  have hentered := entered_of_parse hparse
  obtain ⟨hcut, -, hsettled⟩ := reload_settles hentered List.mem_cons_self
  exact ⟨_, _, hentered, List.mem_cons_self, rfl, by decide +kernel, hcut, hsettled⟩

/-- Two names that are typed come back as one. A name that is edited is cut behind a space, and
comes back without the space. -/
theorem reload_renames :
    (∃ t r, Entered t ∧ r ∈ t.rules ∧ parse "carry_left_1 0 1 L carry_left_2" = .ok t ∧
      r.state = "carry_left_1" ∧ r.next = "carry_left_2" ∧ Rule.ofJson r.toJson ≠ .ok r ∧
      ∃ other, Rule.ofJson r.toJson = .ok other ∧ other.state = other.next) ∧
    ∃ t u r, Entered t ∧ t.update 0 "state" "carry all 1s" = .ok (some u) ∧ Entered u ∧
      r ∈ u.rules ∧ r.state = "carry all " ∧ Rule.ofJson r.toJson ≠ .ok r ∧
      ∃ other, Rule.ofJson r.toJson = .ok other ∧ other.state = "carry all" := by
  have hparse : parse "carry_left_1 0 1 L carry_left_2" =
      .ok ⟨[⟨"carry_left_1", "0", "1", .left, "carry_left_2"⟩]⟩ := by decide +kernel
  have hnone : Entered ⟨[]⟩ := .of fun r hr => absurd hr List.not_mem_nil
  have hupdate : (add ⟨[]⟩ .default).update 0 "state" "carry all 1s" =
      .ok (some ⟨[⟨"carry all ", blank, blank, .right, "q0"⟩]⟩) := by decide +kernel
  refine ⟨⟨_, _, entered_of_parse hparse, List.mem_cons_self, hparse, rfl, rfl, ?_, ?_⟩,
    _, _, _, hnone.add, hupdate, hnone.add.update hupdate, List.mem_cons_self, rfl, ?_, ?_⟩
  · decide +kernel
  · exact ⟨⟨"carry_left", "0", "1", .left, "carry_left"⟩, by decide +kernel, rfl⟩
  · decide +kernel
  · exact ⟨⟨"carry all", blank, blank, .right, "q0"⟩, by decide +kernel, rfl⟩

end RuleTable

end TapeLab
