import TapeLab.Proofs.Decimal.Binary64
import TapeLab.Settings

/-!
What named values come to. They are accepted if each one suits its setting and the numbers that they
tell are in range, and then the settings have just these numbers. Otherwise the fault is reported as
one of the settings, but for two: a whole delay beyond floating point, and a number out of range
with so many digits that the report cannot be written.
-/

namespace TapeLab

variable {α : Type} {key : SettingKey} {value : SettingValue} {d d' : SettingsDraft}
  {entries : List (String × SettingValue)}

theorem SettingKey.name_inj {k k' : SettingKey} (h : k.name = k'.name) : k = k' := by
  cases k <;> cases k' <;> first | rfl | exact absurd h (by decide)

theorem SettingKey.ofName?_name (key : SettingKey) : ofName? key.name = some key := by
  cases key <;> rfl

theorem SettingKey.ofName?_eq_some_iff {name : String} :
    ofName? name = some key ↔ name = key.name := by
  constructor
  · intro h
    have found : all.find? (fun k => k.name == name) = some key := h
    have named := List.find?_some found
    exact (beq_iff_eq.1 named).symm
  · rintro rfl
    exact key.ofName?_name

namespace SettingValue

def whole? : SettingValue → Option Int
  | int n => some n
  | _ => none

def seconds? : SettingValue → Option Binary64
  | int n => some (.ofInt n)
  | real x => some x
  | _ => none

def path? : SettingValue → Option Path
  | text s => some (.ofText s)
  | _ => none

end SettingValue

def SettingKey.told (key : SettingKey) (read? : SettingValue → Option α)
    (entries : List (String × SettingValue)) : Option α :=
  entries.reverse.findSome? fun e => if e.1 = key.name then read? e.2 else none

theorem SettingKey.told_cons (key : SettingKey) (read? : SettingValue → Option α)
    (e : String × SettingValue) (entries : List (String × SettingValue)) :
    key.told read? (e :: entries) = (key.told read? entries).or (key.told read? [e]) := by
  unfold told
  rw [List.reverse_cons, List.findSome?_append]
  rfl

theorem SettingKey.told_eq_some_iff {read? : SettingValue → Option α} {a : α} :
    key.told read? entries = some a ↔ ∃ before value after,
      entries = before ++ (key.name, value) :: after ∧ read? value = some a ∧
        ∀ e ∈ after, e.1 = key.name → read? e.2 = none := by
  unfold told
  rw [List.findSome?_eq_some_iff]
  constructor
  · rintro ⟨after, ⟨name, value⟩, before, split, read, later⟩
    obtain ⟨rfl, read⟩ := Option.ite_none_right_eq_some.1 read
    refine ⟨before.reverse, value, after.reverse, ?_, read, fun e he named => ?_⟩
    · rw [← List.reverse_inj, split]
      simp
    · have := later e (List.mem_reverse.1 he)
      rwa [if_pos named] at this
  · rintro ⟨before, value, after, rfl, read, later⟩
    refine ⟨after.reverse, (key.name, value), before.reverse, by simp, by simp [read],
      fun e he => ?_⟩
    split
    · next named => exact later e (List.mem_reverse.1 he) named
    · rfl

def SettingsDraft.told (d : SettingsDraft) (entries : List (String × SettingValue)) :
    SettingsDraft where
  speed := (SettingKey.speed.told SettingValue.whole? entries).getD d.speed
  cap := (SettingKey.historyCap.told SettingValue.whole? entries).getD d.cap
  drop := (SettingKey.historyDrop.told SettingValue.whole? entries).getD d.drop
  saveDelay :=
    ((SettingKey.saveDelay.told SettingValue.seconds? entries).map .real).getD d.saveDelay
  sessionFile := (SettingKey.sessionFile.told SettingValue.path? entries).getD d.sessionFile
  maxSteps := (SettingKey.maxSteps.told SettingValue.whole? entries).getD d.maxSteps

theorem SettingsDraft.told_cons (d : SettingsDraft) (e : String × SettingValue)
    (entries : List (String × SettingValue)) :
    d.told (e :: entries) = (d.told [e]).told entries := by
  simp only [told, SettingKey.told_cons _ _ e entries, Option.map_or, Option.getD_or]

/-- The values that suit a setting. A whole delay must be one that floating point can hold. -/
inductive SettingKey.Takes : SettingKey → SettingValue → Prop
  | whole {key : SettingKey} (n : Int) (kind : key.kind = "int") : Takes key (.int n)
  | wholeDelay (n : Int) (held : (Seconds.whole n).isTooLarge = false) : Takes saveDelay (.int n)
  | delay (x : Binary64) : Takes saveDelay (.real x)
  | path (s : String) : Takes sessionFile (.text s)

theorem SettingKey.Takes.seconds_ne_none (h : saveDelay.Takes value) : value.seconds? ≠ none := by
  cases h <;> exact nofun

def refusal (e : String × SettingValue) : SettingsError :=
  match SettingKey.ofName? e.1, e.2 with
  | none, _ => .unknownKey e.1
  | some .saveDelay, .int _ => .delayTooLarge
  | some key, value => .wrongKind key value

theorem SettingsDraft.set_of_takes (d : SettingsDraft) (h : key.Takes value) :
    d.set key value = .ok (d.told [(key.name, value)]) := by
  cases h with
  | whole n kind =>
    cases key with
    | speed | historyCap | historyDrop | maxSteps => rfl
    | saveDelay | sessionFile => exact absurd kind (by decide)
  | wholeDelay n held =>
    unfold set
    simp only [held, Bool.false_eq_true, if_false]
    rfl
  | delay x => rfl
  | path s => rfl

theorem SettingsDraft.set_of_not_takes (d : SettingsDraft) (h : ¬ key.Takes value) :
    d.set key value = .error (refusal (key.name, value)) := by
  unfold refusal
  simp only [key.ofName?_name]
  cases key with
  | speed | historyCap | historyDrop | maxSteps =>
    cases value with
    | int n => exact absurd (.whole n rfl) h
    | _ => rfl
  | sessionFile =>
    cases value with
    | text s => exact absurd (.path s) h
    | _ => rfl
  | saveDelay =>
    cases value with
    | real x => exact absurd (.delay x) h
    | int n =>
      have large : (Seconds.whole n).isTooLarge = true :=
        Bool.not_eq_false _ ▸ fun held => h (.wholeDelay n held)
      unfold set
      simp only [large, if_true]
    | _ => rfl

def Suits (e : String × SettingValue) : Prop := ∃ key : SettingKey, e.1 = key.name ∧ key.Takes e.2

theorem SettingsDraft.setAll_cons_of_suits (d : SettingsDraft) {e : String × SettingValue}
    (h : Suits e) : d.setAll (e :: entries) = (d.told [e]).setAll entries := by
  obtain ⟨name, value⟩ := e
  obtain ⟨key, rfl, takes⟩ := h
  rw [setAll]
  simp only [key.ofName?_name, d.set_of_takes takes]
  rfl

theorem SettingsDraft.setAll_cons_of_not_suits (d : SettingsDraft) {e : String × SettingValue}
    (h : ¬ Suits e) : d.setAll (e :: entries) = .error (refusal e) := by
  obtain ⟨name, value⟩ := e
  rw [setAll]
  cases known : SettingKey.ofName? name with
  | none => simp only [refusal, known]
  | some key =>
    obtain rfl := SettingKey.ofName?_eq_some_iff.1 known
    have takes : ¬ key.Takes value := fun takes => h ⟨key, rfl, takes⟩
    simp only [d.set_of_not_takes takes]
    rfl

theorem SettingsDraft.setAll_of_suits (h : ∀ e ∈ entries, Suits e) :
    d.setAll entries = .ok (d.told entries) := by
  induction entries generalizing d with
  | nil => rfl
  | cons e entries ih =>
    rw [d.setAll_cons_of_suits (h e List.mem_cons_self), d.told_cons e entries]
    exact ih fun e he => h e (List.mem_cons_of_mem _ he)

theorem SettingsDraft.setAll_of_not_suits (d : SettingsDraft)
    {before after : List (String × SettingValue)} {bad : String × SettingValue}
    (suits : ∀ e ∈ before, Suits e) (h : ¬ Suits bad) :
    d.setAll (before ++ bad :: after) = .error (refusal bad) := by
  induction before generalizing d with
  | nil => exact d.setAll_cons_of_not_suits h
  | cons e before ih =>
    rw [List.cons_append, d.setAll_cons_of_suits (suits e List.mem_cons_self)]
    exact ih _ fun e he => suits e (List.mem_cons_of_mem _ he)

theorem suits_or_first (entries : List (String × SettingValue)) :
    (∀ e ∈ entries, Suits e) ∨ ∃ before bad after, entries = before ++ bad :: after ∧
      (∀ e ∈ before, Suits e) ∧ ¬ Suits bad := by
  induction entries with
  | nil => exact .inl nofun
  | cons e entries ih =>
    by_cases h : Suits e
    · rcases ih with suits | ⟨before, bad, after, rfl, suits, hbad⟩
      · exact .inl (List.forall_mem_cons.2 ⟨h, suits⟩)
      · exact .inr ⟨e :: before, bad, after, rfl, List.forall_mem_cons.2 ⟨h, suits⟩, hbad⟩
    · exact .inr ⟨[], e, entries, rfl, nofun, h⟩

theorem refusal_escapes_iff {e : String × SettingValue} :
    (refusal e).isReported = false ↔ e.1 = SettingKey.saveDelay.name ∧ ∃ n, e.2 = .int n := by
  obtain ⟨name, value⟩ := e
  unfold refusal
  cases known : SettingKey.ofName? name with
  | none =>
    simp only [SettingsError.isReported, Bool.true_eq_false, false_iff]
    rintro ⟨rfl, -⟩
    exact absurd known (by decide)
  | some key =>
    obtain rfl := SettingKey.ofName?_eq_some_iff.1 known
    cases key <;> cases value <;> simp [SettingsError.isReported, SettingKey.name]

theorem SettingsError.telling_escapes_iff {n : Int} {e : SettingsError} (h : e.isReported = true) :
    (telling n e).isReported = false ↔ Text.isWritable n = false := by
  unfold telling
  cases Text.isWritable n with
  | true => simp [h]
  | false => simp [isReported]

theorem SettingsError.telling_of_long {n : Int} (e : SettingsError)
    (long : Text.isWritable n = false) : telling n e = .numeral .unwritable := by
  simp [telling, long]

namespace SettingsDraft

structure InRange (d : SettingsDraft) : Prop where
  speed : 0 ≤ d.speed
  drop_pos : 0 < d.drop
  drop_le_cap : d.drop ≤ d.cap
  delay : d.saveDelay.isNegative = false
  maxSteps : 1 ≤ d.maxSteps

/-- Of the numbers out of range, the first one that is told has too many digits for that. -/
inductive Untellable (d : SettingsDraft) : Prop
  | speed (out : d.speed < 0) (long : Text.isWritable d.speed = false)
  | drop (speed : 0 ≤ d.speed) (out : ¬ (0 < d.drop ∧ d.drop ≤ d.cap))
      (long : Text.isWritable d.drop = false)
  | maxSteps (speed : 0 ≤ d.speed) (drop : 0 < d.drop ∧ d.drop ≤ d.cap)
      (delay : d.saveDelay.isNegative = false) (out : d.maxSteps < 1)
      (long : Text.isWritable d.maxSteps = false)

theorem bounds_of_range (h : 0 < d.drop ∧ d.drop ≤ d.cap) :
    ∃ b : History.Bounds, History.Bounds.ofInts d.cap d.drop = .ok b ∧
      (b.cap : Int) = d.cap ∧ (b.drop : Int) = d.drop := by
  refine ⟨_, by rw [History.Bounds.ofInts, dif_pos h], ?_, ?_⟩ <;> dsimp only <;> omega

theorem bounds_of_not_range (h : ¬ (0 < d.drop ∧ d.drop ≤ d.cap)) :
    ∃ e, History.Bounds.ofInts d.cap d.drop = .error e := by
  exact ⟨_, by rw [History.Bounds.ofInts, dif_neg h]⟩

theorem check_of_inRange {x : Binary64} (delay : d.saveDelay = .real x) (h : d.InRange) :
    ∃ s, d.check = .ok s ∧ s.draft = d := by
  obtain ⟨b, bounds, cap, drop⟩ := bounds_of_range ⟨h.drop_pos, h.drop_le_cap⟩
  have fits : d.saveDelay.isTooLarge = false := by rw [delay]; rfl
  have steps := h.maxSteps
  have speed := h.speed
  unfold check
  rw [if_neg (Int.not_lt.2 speed), bounds]
  simp only [h.delay, fits, Bool.false_eq_true, if_false]
  rw [dif_neg (by omega)]
  refine ⟨_, rfl, ?_⟩
  simp only [Settings.draft, cap, drop, delay, Seconds.toBinary64]
  rw [Int.toNat_of_nonneg speed, Int.toNat_of_nonneg (by omega), ← delay]

theorem check_of_untellable (h : d.Untellable) : d.check = .error (.numeral .unwritable) := by
  unfold check
  cases h with
  | speed out long => rw [if_pos out, SettingsError.telling_of_long _ long]
  | drop speed out long =>
    obtain ⟨e, bounds⟩ := bounds_of_not_range out
    simp only [if_neg (Int.not_lt.2 speed), bounds, SettingsError.telling_of_long _ long]
  | maxSteps speed drop delay out long =>
    obtain ⟨b, bounds, -, -⟩ := bounds_of_range drop
    rw [if_neg (Int.not_lt.2 speed), bounds]
    simp only [delay, Bool.false_eq_true, if_false]
    rw [dif_pos out, SettingsError.telling_of_long _ long]

theorem check_of_not_inRange (h : ¬ d.InRange) :
    ∃ e, d.check = .error e ∧ (e.isReported = false → d.Untellable) := by
  unfold check
  by_cases speed : d.speed < 0
  · rw [if_pos speed]
    exact ⟨_, rfl, fun lost => .speed speed ((SettingsError.telling_escapes_iff rfl).1 lost)⟩
  · rw [if_neg speed]
    have speed := Int.not_lt.1 speed
    by_cases drop : 0 < d.drop ∧ d.drop ≤ d.cap
    · obtain ⟨b, bounds, -, -⟩ := bounds_of_range drop
      simp only [bounds]
      cases delay : d.saveDelay.isNegative with
      | true =>
        refine ⟨.negativeSaveDelay d.saveDelay, by rw [if_pos rfl], fun lost => ?_⟩
        cases lost
      | false =>
        simp only [Bool.false_eq_true, if_false]
        have out : d.maxSteps < 1 :=
          Int.not_le.1 fun steps => h ⟨speed, drop.1, drop.2, delay, steps⟩
        rw [dif_pos out]
        exact ⟨_, rfl, fun lost =>
          .maxSteps speed drop delay out ((SettingsError.telling_escapes_iff rfl).1 lost)⟩
    · obtain ⟨_, bounds⟩ := bounds_of_not_range drop
      simp only [bounds]
      exact ⟨_, rfl, fun lost =>
        .drop speed drop ((SettingsError.telling_escapes_iff rfl).1 lost)⟩

theorem told_saveDelay (entries : List (String × SettingValue)) :
    (default.told entries).saveDelay = .real
      ((SettingKey.saveDelay.told SettingValue.seconds? entries).getD (.ofRatio false 1 2)) := by
  unfold told
  cases SettingKey.saveDelay.told SettingValue.seconds? entries <;> rfl

end SettingsDraft

namespace Settings

variable {s : Settings}

/-- What ends the program although the named values are at fault. -/
inductive Escapes (entries : List (String × SettingValue)) : SettingsError → Prop
  | delay {before after : List (String × SettingValue)} {n : Int}
      (split : entries = before ++ (SettingKey.saveDelay.name, .int n) :: after)
      (suits : ∀ e ∈ before, Suits e) (large : (Seconds.whole n).isTooLarge = true) :
      Escapes entries .delayTooLarge
  | number (suits : ∀ e ∈ entries, Suits e)
      (untellable : (SettingsDraft.default.told entries).Untellable) :
      Escapes entries (.numeral .unwritable)

theorem draft_inj {s s' : Settings} (h : s.draft = s'.draft) : s = s' := by
  obtain ⟨speed, ⟨cap, drop, _, _⟩, saveDelay, sessionFile, maxSteps, _⟩ := s
  obtain ⟨speed', ⟨cap', drop', _, _⟩, saveDelay', sessionFile', maxSteps', _⟩ := s'
  simp only [draft, SettingsDraft.mk.injEq, Int.natCast_inj, Seconds.real.injEq] at h
  obtain ⟨rfl, rfl, rfl, rfl, rfl, rfl⟩ := h
  rfl

theorem ofEntries_of_suits (h : ∀ e ∈ entries, Suits e) :
    ofEntries entries = (SettingsDraft.default.told entries).check := by
  unfold ofEntries
  rw [SettingsDraft.setAll_of_suits h]
  rfl

theorem ofEntries_of_not_suits {before after : List (String × SettingValue)}
    {bad : String × SettingValue} (suits : ∀ e ∈ before, Suits e) (h : ¬ Suits bad) :
    ofEntries (before ++ bad :: after) = .error (refusal bad) := by
  unfold ofEntries
  rw [SettingsDraft.setAll_of_not_suits _ suits h]
  rfl

theorem ofEntries_of_inRange (suits : ∀ e ∈ entries, Suits e)
    (range : (SettingsDraft.default.told entries).InRange) :
    ∃ s, ofEntries entries = .ok s ∧ s.draft = SettingsDraft.default.told entries := by
  rw [ofEntries_of_suits suits]
  exact SettingsDraft.check_of_inRange (SettingsDraft.told_saveDelay entries) range

theorem ofEntries_of_not_inRange (suits : ∀ e ∈ entries, Suits e)
    (range : ¬ (SettingsDraft.default.told entries).InRange) :
    ∃ e, ofEntries entries = .error e ∧
      (e.isReported = false → (SettingsDraft.default.told entries).Untellable) := by
  rw [ofEntries_of_suits suits]
  exact SettingsDraft.check_of_not_inRange range

theorem ofEntries_eq_ok_iff : ofEntries entries = .ok s ↔ (∀ e ∈ entries, Suits e) ∧
    s.draft.InRange ∧ s.draft = SettingsDraft.default.told entries := by
  constructor
  · intro h
    rcases suits_or_first entries with suits | ⟨before, bad, after, rfl, suits, unfit⟩
    · by_cases range : (SettingsDraft.default.told entries).InRange
      · obtain ⟨s', accepted, told⟩ := ofEntries_of_inRange suits range
        obtain rfl := Except.ok.inj (accepted.symm.trans h)
        exact ⟨suits, told ▸ range, told⟩
      · obtain ⟨e, refused, -⟩ := ofEntries_of_not_inRange suits range
        cases refused.symm.trans h
    · rw [ofEntries_of_not_suits suits unfit] at h
      cases h
  · rintro ⟨suits, range, told⟩
    obtain ⟨s', accepted, told'⟩ := ofEntries_of_inRange suits (told ▸ range)
    rw [accepted, draft_inj (told'.trans told.symm)]

theorem ofEntries_escapes_iff {e : SettingsError} :
    ofEntries entries = .error e ∧ e.isReported = false ↔ Escapes entries e := by
  constructor
  · rintro ⟨refused, lost⟩
    rcases suits_or_first entries with suits | ⟨before, ⟨name, value⟩, after, rfl, suits, unfit⟩
    · have range : ¬ (SettingsDraft.default.told entries).InRange := by
        intro range
        obtain ⟨s, accepted, -⟩ := ofEntries_of_inRange suits range
        cases accepted.symm.trans refused
      obtain ⟨e', refused', untellable⟩ := ofEntries_of_not_inRange suits range
      obtain rfl := Except.error.inj (refused'.symm.trans refused)
      have h := untellable lost
      rw [ofEntries_of_suits suits, SettingsDraft.check_of_untellable h] at refused
      cases refused
      exact .number suits h
    · rw [ofEntries_of_not_suits suits unfit] at refused
      obtain rfl := Except.error.inj refused
      obtain ⟨rfl, n, rfl⟩ := refusal_escapes_iff.1 lost
      exact .delay rfl suits (Bool.not_eq_false _ ▸ fun held => unfit ⟨_, rfl, .wholeDelay n held⟩)
  · intro h
    cases h with
    | delay split suits large =>
      obtain rfl := split
      refine ⟨ofEntries_of_not_suits suits ?_, rfl⟩
      rintro ⟨key, named, takes⟩
      obtain rfl : SettingKey.saveDelay = key := SettingKey.name_inj named
      cases takes with
      | whole n kind => exact absurd kind (by decide)
      | wholeDelay n held => exact Bool.false_ne_true (held.symm.trans large)
    | number suits untellable =>
      rw [ofEntries_of_suits suits]
      exact ⟨SettingsDraft.check_of_untellable untellable, rfl⟩

theorem saveDelay_eq_nan_iff (h : ofEntries entries = .ok s) (negative : Bool) :
    s.saveDelay = .nan negative ↔ ∃ before after,
      entries = before ++ (SettingKey.saveDelay.name, .real (.nan negative)) :: after ∧
        ∀ e ∈ after, e.1 ≠ SettingKey.saveDelay.name := by
  obtain ⟨suits, -, draft⟩ := ofEntries_eq_ok_iff.1 h
  have told := (congrArg SettingsDraft.saveDelay draft).trans
    (SettingsDraft.told_saveDelay entries)
  have isTold : s.saveDelay = .nan negative ↔
      SettingKey.saveDelay.told SettingValue.seconds? entries = some (.nan negative) := by
    rw [Seconds.real.inj told]
    cases SettingKey.saveDelay.told SettingValue.seconds? entries with
    | none => simp [Binary64.ofRatio_ne_nan]
    | some x => simp
  rw [isTold, SettingKey.told_eq_some_iff]
  constructor
  · rintro ⟨before, value, after, split, read, later⟩
    have isNan : value = .real (.nan negative) := by
      cases value with
      | real x => exact congrArg _ (Option.some.inj read)
      | int n => exact absurd (Option.some.inj read) (Binary64.ofRatio_ne_nan _ _ _ _)
      | _ => cases read
    subst isNan
    refine ⟨before, after, split, fun e he named => ?_⟩
    obtain ⟨key, named', takes⟩ := suits e (by rw [split]; simp [he])
    obtain rfl := SettingKey.name_inj (named'.symm.trans named)
    exact takes.seconds_ne_none (later e he named)
  · rintro ⟨before, after, split, later⟩
    exact ⟨before, _, after, split, rfl, fun e he named => absurd named (later e he)⟩

end Settings

end TapeLab
