import TapeLab.Proofs.Keeper
import TapeLab.Proofs.Session.Parts

/-!
What a keeper loads. Whatever is in the file, there is an answer: a session if the bytes are a text
in UTF-8, the text is JSON, and the value is a save; otherwise none, and that is logged at most.
-/

namespace TapeLab

theorem Session.ofBytes_eq_ok_iff {bytes : List UInt8} {challenges : Int} {s : Session} :
    ofBytes bytes challenges = .ok s ↔
      ∃ text v, Text.decodeUtf8 bytes = .ok text ∧
        Json.read? (Text.unifyNewlines text) = some v ∧ ofJson v challenges = some s := by
  unfold ofBytes
  cases Text.decodeUtf8 bytes with
  | error e => simp
  | ok text =>
    simp only [Except.ok.injEq, exists_and_left, exists_eq_left']
    cases Json.read? (Text.unifyNewlines text) with
    | none => simp
    | some v => cases hread : ofJson v challenges <;> simp [hread]

namespace Keeper

variable {k : Keeper} {disk : Tree} {s : Session}

theorem load_eq_some_iff :
    (k.load disk).1 = some s ↔
      ∃ bytes, disk.read k.path = .ok bytes ∧ Session.ofBytes bytes k.challenges = .ok s := by
  unfold load
  cases disk.read k.path with
  | error e => cases h : e.isNotFound <;> simp [h]
  | ok bytes =>
    simp only [Except.ok.injEq, exists_eq_left']
    cases Session.ofBytes bytes k.challenges with
    | ok own => simp
    | error fault => cases fault <;> simp

theorem level_of_mem_load {log : Log} (hlog : log ∈ (k.load disk).2) : log.level = .debug := by
  unfold load at hlog
  split at hlog
  · split at hlog
    · cases hlog
    · obtain rfl := List.mem_singleton.1 hlog
      rfl
  · split at hlog
    · cases hlog
    · obtain rfl := List.mem_singleton.1 hlog
      rfl
    · obtain rfl := List.mem_singleton.1 hlog
      rfl

/-- Every value has an answer, and it is a session just if the value is a save. Of every part the
session has what its entry says, if that makes sense, so that its parts make sense together; and
each part hangs on its own entry alone, the head on that of the tape, too. So every file has an
answer, whatever is in it. -/
theorem saves_read_by_parts (challenges : Int) :
    (∀ v, Session.ofJson v challenges = none ↔ ¬ Session.IsSave v) ∧
    (∀ v s, Session.ofJson v challenges = some s →
      s.WellFormed challenges ∧ s.TakenFrom v challenges) ∧
    (∀ v v' s s', Session.ofJson v challenges = some s → Session.ofJson v' challenges = some s' →
      Session.AgreesWith v v' s s') ∧
    ∀ (k : Keeper) (disk : Tree), k.challenges = challenges →
      (∀ s, (k.load disk).1 = some s ↔
        ∃ bytes text v, disk.read k.path = .ok bytes ∧ Text.decodeUtf8 bytes = .ok text ∧
          Json.read? (Text.unifyNewlines text) = some v ∧
          Session.ofJson v challenges = some s) ∧
      ∀ log ∈ (k.load disk).2, log.level = .debug := by
  refine ⟨fun v => Session.ofJson_eq_none_iff, fun v s hs => ?_, fun v v' s s' hs hs' => ?_,
    fun k disk hk => ⟨fun s => ?_, fun log hlog => level_of_mem_load hlog⟩⟩
  · have htaken := Session.takenFrom_of_ofJson hs
    exact ⟨htaken.wellFormed, htaken⟩
  · exact (Session.takenFrom_of_ofJson hs).agreesWith (Session.takenFrom_of_ofJson hs')
  · rw [load_eq_some_iff, hk]
    simp only [Session.ofBytes_eq_ok_iff, exists_and_left]

def oddSave : Json :=
  .record [("version", .int 1), ("data", .record [("challenge", .int 7),
    ("rules", .list [.record [("state", .text " a long name "), ("read", .text ""),
      ("write", .text "x"), ("move", .text "r"), ("next_state", .text "HALT")]]),
    ("tape", .list [.text "1", .text "blank"]), ("head", .int 1)])]

def oddSaveWithoutRules : Json :=
  .record [("data", .record [("rules", .int 3), ("tape", .list [.text "1", .text "blank"]),
    ("head", .int 1), ("challenge", .list [])]), ("version", .bool true)]

/-- What is malformed in the one save and in the other is missed there, and nothing else is; bytes
that are no text are answered, too. -/
theorem oddSave_read_by_parts :
    ∃ (s s' : Session) (k : Keeper) (disk : Tree),
      Session.ofJson oddSave 5 = some s ∧ Session.ofJson oddSaveWithoutRules 5 = some s' ∧
      s.challenge = none ∧ s.rules = some ⟨[⟨"a long nam", blank, "x", .right, "HALT"⟩]⟩ ∧
      s'.rules = none ∧ s.WellFormed 5 ∧ s'.cells = s.cells ∧ s'.head = s.head ∧
      s.head = some 1 ∧ k.challenges = 5 ∧ disk.read k.path = .ok [0x7b, 0xff] ∧
      (k.load disk).1 = none ∧ ∀ log ∈ (k.load disk).2, log.level = .debug := by
  obtain ⟨-, htaken, hagrees, hload⟩ := saves_read_by_parts 5
  have hodd : Session.ofJson oddSave 5 = some _ := rfl
  have hwithout : Session.ofJson oddSaveWithoutRules 5 = some _ := rfl
  have hboth := hagrees _ _ _ _ hodd hwithout
  have hread := Tree.ready_empty.read_put [0x7b, 0xff]
  refine ⟨_, _, .new ⟨"", ["last.json"]⟩ (.finite 500) 5,
    Tree.empty.put ["last.json"] (.file [0x7b, 0xff]), hodd, hwithout, by decide, by decide,
    by decide, (htaken _ _ hodd).1, hboth.cells rfl, hboth.head rfl rfl, by decide, rfl,
    hread, Option.eq_none_iff_forall_ne_some.2 fun s hs => ?_, (hload _ _ rfl).2⟩
  obtain ⟨bytes, text, v, hbytes, htext, -⟩ := ((hload _ _ rfl).1 s).1 hs
  obtain rfl : [0x7b, 0xff] = bytes := Except.ok.inj (hread.symm.trans hbytes)
  cases htext

end Keeper

end TapeLab
