import TapeLab.Proofs.Disk.Tree
import TapeLab.Proofs.Settings.Entries
import TapeLab.Settings.File

/-!
Settings from a file. Faults of the disk, of the form of the text and of the values are reported as
faults of the settings. What is not: a path with the character zero in it, bytes that are no text, a
number in the text that is too long, something else than a table under the name of the program, and
the faults of values that end the program.
-/

namespace TapeLab.Settings

variable {tree : Tree} {file : Path} {s : Settings} {e : SettingsError} {path : Option Path}
  {t : Toml.Entries} {entries : List (String × SettingValue)}

/-- The file that settings are loaded from. The default file counts only if it is there. -/
def fileFor? (tree : Tree) : Option Path → Option Path
  | some file => some file
  | none => if tree.isFile defaultFile then some defaultFile else none

theorem load_of_file (h : fileFor? tree path = some file) :
    load tree path = loadFrom tree file := by
  cases path with
  | some _ =>
    cases h
    rfl
  | none =>
    obtain ⟨there, isDefault⟩ := Option.ite_none_right_eq_some.1 h
    cases isDefault
    unfold load
    exact if_pos there

theorem load_of_no_file (h : tree.isFile defaultFile = false) : load tree none = .ok .default := by
  rw [load, h]
  rfl

theorem load_of_none (h : fileFor? tree path = none) : load tree path = .ok .default := by
  cases path with
  | some _ => cases h
  | none =>
    unfold fileFor? at h
    cases there : tree.isFile defaultFile with
    | false => exact load_of_no_file there
    | true =>
      rw [there] at h
      cases h

def named (t : Toml.Entries) : List (String × SettingValue) := t.map fun e => (e.1, valueOf e.2)

def Holds (tree : Tree) (file : Path) (t : Toml.Entries) : Prop :=
  ∃ bytes text, tree.read file = .ok bytes ∧ Text.decodeUtf8 bytes = .ok text ∧
    Toml.read (Text.unifyNewlines text) = .ok t

inductive Names (t : Toml.Entries) : List (String × SettingValue) → Prop
  | all (h : Toml.lookup tableName t = none) : Names t (named t)
  | inner {inner : Toml.Entries} (h : Toml.lookup tableName t = some (.table inner)) :
      Names t (named inner)

/-- What ends the program although the file is at fault. -/
inductive FileEscapes (tree : Tree) (file : Path) : SettingsError → Prop
  | path (null : file.hasNull = true) : FileEscapes tree file .nullByte
  | bytes {bytes : List UInt8} {cause : Text.Utf8Error} (read : tree.read file = .ok bytes)
      (invalid : Text.decodeUtf8 bytes = .error cause) : FileEscapes tree file (.notText cause)
  | numeral {bytes : List UInt8} {text : List Char} {cause : Text.NumeralError}
      (read : tree.read file = .ok bytes) (decoded : Text.decodeUtf8 bytes = .ok text)
      (long : Toml.read (Text.unifyNewlines text) = .error (.numeral cause)) :
      FileEscapes tree file (.numeral cause)
  | table {t : Toml.Entries} {v : Toml} (holds : Holds tree file t)
      (given : Toml.lookup tableName t = some v) (other : ∀ inner, v ≠ .table inner) :
      FileEscapes tree file (.notTable (valueOf v))
  | values {t : Toml.Entries} {entries : List (String × SettingValue)} {e : SettingsError}
      (holds : Holds tree file t) (names : Names t entries) (escapes : Escapes entries e) :
      FileEscapes tree file e

theorem ofDocument_of_names (h : Names t entries) : ofDocument t = ofEntries entries := by
  unfold ofDocument
  cases h with
  | all h => rw [h]; rfl
  | inner h => rw [h]; rfl

theorem names_or_other (t : Toml.Entries) : (∃ entries, Names t entries) ∨
    ∃ v, Toml.lookup tableName t = some v ∧ (∀ inner, v ≠ .table inner) ∧
      ofDocument t = .error (.notTable (valueOf v)) := by
  cases h : Toml.lookup tableName t with
  | none => exact .inl ⟨_, .all h⟩
  | some v =>
    unfold ofDocument
    rw [h]
    cases v with
    | table inner => exact .inl ⟨_, .inner h⟩
    | _ => exact .inr ⟨_, rfl, nofun, rfl⟩

theorem loadFrom_of_holds (h : Holds tree file t) : loadFrom tree file = ofDocument t := by
  obtain ⟨bytes, text, read, decoded, parsed⟩ := h
  unfold loadFrom
  simp only [read, decoded]
  unfold ofText
  rw [parsed]

theorem loadFrom_of_not_holds (h : ∀ t, ¬ Holds tree file t) : ∃ e,
    loadFrom tree file = .error e ∧ (e.isReported = false → FileEscapes tree file e) := by
  unfold loadFrom
  cases read : tree.read file with
  | error cause =>
    cases cause with
    | nullByte => exact ⟨_, rfl, fun _ => .path (Tree.read_nullByte_iff.1 read)⟩
    | refused cause path => exact ⟨.unreadable file (.refused cause path), rfl, nofun⟩
  | ok bytes =>
    cases decoded : Text.decodeUtf8 bytes with
    | error cause =>
      simp only [decoded]
      exact ⟨_, rfl, fun _ => .bytes read decoded⟩
    | ok text =>
      simp only [decoded]
      unfold ofText
      cases parsed : Toml.read (Text.unifyNewlines text) with
      | error fault =>
        cases fault with
        | malformed => exact ⟨.notToml file, rfl, nofun⟩
        | numeral cause => exact ⟨_, rfl, fun _ => .numeral read decoded parsed⟩
      | ok t => exact absurd ⟨bytes, text, read, decoded, parsed⟩ (h t)

theorem loadFrom_eq_ok_iff : loadFrom tree file = .ok s ↔
    ∃ t entries, Holds tree file t ∧ Names t entries ∧ ofEntries entries = .ok s := by
  constructor
  · intro h
    by_cases holds : ∃ t, Holds tree file t
    · obtain ⟨t, holds⟩ := holds
      rw [loadFrom_of_holds holds] at h
      rcases names_or_other t with ⟨entries, names⟩ | ⟨v, -, -, refused⟩
      · exact ⟨t, entries, holds, names, (ofDocument_of_names names).symm.trans h⟩
      · cases refused.symm.trans h
    · obtain ⟨e, refused, -⟩ := loadFrom_of_not_holds fun t ht => holds ⟨t, ht⟩
      cases refused.symm.trans h
  · rintro ⟨t, entries, holds, names, accepted⟩
    rw [loadFrom_of_holds holds, ofDocument_of_names names, accepted]

theorem loadFrom_of_escapes (h : FileEscapes tree file e) :
    loadFrom tree file = .error e ∧ e.isReported = false := by
  cases h with
  | path null =>
    unfold loadFrom
    rw [Tree.read_nullByte_iff.2 null]
    exact ⟨rfl, rfl⟩
  | bytes read invalid =>
    unfold loadFrom
    simp only [read, invalid]
    exact ⟨trivial, rfl⟩
  | numeral read decoded long =>
    unfold loadFrom
    simp only [read, decoded]
    unfold ofText
    rw [long]
    exact ⟨rfl, rfl⟩
  | @table t v holds given other =>
    rw [loadFrom_of_holds holds]
    unfold ofDocument
    rw [given]
    cases v with
    | table inner => exact absurd rfl (other inner)
    | _ => exact ⟨rfl, rfl⟩
  | values holds names escapes =>
    rw [loadFrom_of_holds holds, ofDocument_of_names names]
    exact ofEntries_escapes_iff.2 escapes

theorem loadFrom_escapes_iff :
    loadFrom tree file = .error e ∧ e.isReported = false ↔ FileEscapes tree file e := by
  refine ⟨?_, loadFrom_of_escapes⟩
  rintro ⟨refused, lost⟩
  by_cases holds : ∃ t, Holds tree file t
  · obtain ⟨t, holds⟩ := holds
    rw [loadFrom_of_holds holds] at refused
    rcases names_or_other t with ⟨entries, names⟩ | ⟨v, given, other, refused'⟩
    · rw [ofDocument_of_names names] at refused
      exact .values holds names (ofEntries_escapes_iff.1 ⟨refused, lost⟩)
    · cases refused'.symm.trans refused
      exact .table holds given other
  · obtain ⟨e', refused', escapes⟩ := loadFrom_of_not_holds fun t ht => holds ⟨t, ht⟩
    cases refused'.symm.trans refused
    exact escapes lost

theorem inRange_default : Settings.default.draft.InRange :=
  ⟨by decide, by decide, by decide, Binary64.isNegative_ofRatio 1 2, by decide⟩

theorem inRange_of_load (h : load tree path = .ok s) : s.draft.InRange := by
  cases hfile : fileFor? tree path with
  | none =>
    rw [load_of_none hfile] at h
    cases h
    exact inRange_default
  | some file =>
    rw [load_of_file hfile] at h
    obtain ⟨t, entries, -, -, accepted⟩ := loadFrom_eq_ok_iff.1 h
    exact (ofEntries_eq_ok_iff.1 accepted).2.1

/-- Loading settings, and making them from named values, comes to one of three outcomes. The
settings have the numbers that were told, in their ranges, where the delay is no number if the last
one given is none. Or the fault is reported as one of the settings. Or it ends the program, and the
ways are those listed. -/
theorem returned_or_reported (entries : List (String × SettingValue)) (tree : Tree)
    (path : Option Path) :
    (∀ s, ofEntries entries = .ok s ↔ (∀ e ∈ entries, Suits e) ∧ s.draft.InRange ∧
      s.draft = SettingsDraft.default.told entries) ∧
    (∀ s negative, ofEntries entries = .ok s → (s.saveDelay = .nan negative ↔
      ∃ before after,
        entries = before ++ (SettingKey.saveDelay.name, .real (.nan negative)) :: after ∧
          ∀ e ∈ after, e.1 ≠ SettingKey.saveDelay.name)) ∧
    (∀ e, ofEntries entries = .error e ∧ e.isReported = false ↔ Escapes entries e) ∧
    (∀ s, load tree path = .ok s ↔ s.draft.InRange ∧
      ((fileFor? tree path = none ∧ s = .default) ∨ ∃ file t entries,
        fileFor? tree path = some file ∧ Holds tree file t ∧ Names t entries ∧
          ofEntries entries = .ok s)) ∧
    ∀ e, load tree path = .error e ∧ e.isReported = false ↔
      ∃ file, fileFor? tree path = some file ∧ FileEscapes tree file e := by
  refine ⟨fun _ => ofEntries_eq_ok_iff, fun _ negative h => saveDelay_eq_nan_iff h negative,
    fun _ => ofEntries_escapes_iff, fun s => ?_, fun e => ?_⟩
  · cases hfile : fileFor? tree path with
    | none =>
      rw [load_of_none hfile]
      constructor
      · rintro ⟨rfl⟩
        exact ⟨inRange_default, .inl ⟨rfl, rfl⟩⟩
      · rintro ⟨-, ⟨-, rfl⟩ | ⟨_, _, _, ⟨⟩, -⟩⟩
        rfl
    | some file =>
      rw [load_of_file hfile, loadFrom_eq_ok_iff]
      constructor
      · rintro ⟨t, entries, holds, names, accepted⟩
        exact ⟨(ofEntries_eq_ok_iff.1 accepted).2.1,
          .inr ⟨file, t, entries, rfl, holds, names, accepted⟩⟩
      · rintro ⟨-, ⟨⟨⟩, -⟩ | ⟨_, t, entries, ⟨⟩, holds, names, accepted⟩⟩
        exact ⟨t, entries, holds, names, accepted⟩
  · cases hfile : fileFor? tree path with
    | none =>
      rw [load_of_none hfile]
      constructor
      · rintro ⟨⟨⟩, -⟩
      · rintro ⟨_, ⟨⟩, -⟩
    | some file =>
      rw [load_of_file hfile, loadFrom_escapes_iff]
      constructor
      · exact fun escapes => ⟨file, rfl, escapes⟩
      · rintro ⟨_, ⟨⟩, escapes⟩
        exact escapes

/-- No number as the delay, a number in the place of the program's table, a byte that begins no
character, and a delay beyond floating point: the first is accepted, the others are not reported. -/
theorem unreported_faults :
    (∃ s, ofEntries [("save_delay", .real (.nan false))] = .ok s ∧ s.saveDelay = .nan false) ∧
    (∃ e, ofDocument [("tmsandbox", .int 3)] = .error e ∧ e.isReported = false) ∧
    (∃ e, load (Tree.empty.put ["c.toml"] (.file [0xff])) (some ⟨"", ["c.toml"]⟩) = .error e ∧
      e.isReported = false) ∧
    ∃ e, ofEntries [("save_delay", .int (Nat.pow 2 1024))] = .error e ∧ e.isReported = false := by
  have read : (Tree.empty.put ["c.toml"] (.file [0xff])).read ⟨"", ["c.toml"]⟩ = .ok [0xff] :=
    Tree.read_of_resolve
      (Tree.resolve_eq_ok_iff.2 ⟨⟨by simp [Path.hasNull], by decide +kernel⟩, rfl⟩) rfl
  refine ⟨⟨_, rfl, rfl⟩, ⟨.notTable (.int 3), rfl, rfl⟩,
    ⟨.notText ⟨0, 1, 0xff, .invalidStart⟩, loadFrom_of_escapes (.bytes read rfl)⟩,
    .delayTooLarge, ofEntries_escapes_iff.2 ?_⟩
  exact .delay (List.nil_append _).symm (fun _ he => absurd he List.not_mem_nil)
    (by decide +kernel)

end TapeLab.Settings
