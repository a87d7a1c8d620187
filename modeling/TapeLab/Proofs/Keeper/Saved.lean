import TapeLab.Proofs.Keeper
import TapeLab.Proofs.Session.Saved

/-!
What a keeper reads from its file after it has written a session into it.
-/

namespace TapeLab.Keeper

open Session

variable {k : Keeper} {s : Session} {disk written : Tree}

/-- A session with numbers that are short enough is written if the disk takes it, and then it is
read as it was just if the file can hold all of it: its challenge exists, there are rules, all state
names and symbols are such as can be typed, and the head is on the tape. -/
theorem load_write_eq_some_iff (hs : s.isWritable = true)
    (hdisk : disk.write k.path s.bytes = (written, none)) :
    k.write s disk = (written, none) ∧ ((k.load written).1 = some s ↔ s.Lasting k.challenges) := by
  have hread : written.read k.path = .ok (Text.encodeUtf8 s.toText) := Tree.read_of_write hdisk
  refine ⟨write_eq_none_iff.2 ⟨hs, hdisk⟩, ?_⟩
  rw [← Session.ofBytes_encodeUtf8_eq_ok_self_iff hs, load, hread]
  dsimp only
  cases hbytes : Session.ofBytes (Text.encodeUtf8 s.toText) k.challenges with
  | ok own => simp
  | error fault => cases fault <;> simp

def fullSession : Session :=
  ⟨some 2, some ⟨[⟨"q0", "1", "é", .left, "a b"⟩]⟩, some ["1", "é"], some 1⟩

theorem isWritable_fullSession : fullSession.isWritable = true := by
  refine isWritable_iff.2 ⟨?_, ?_⟩
  · rintro index ⟨⟩
    exact isWritable_of_natAbs_lt (by decide)
  · rintro head ⟨⟩
    exact isWritable_of_natAbs_lt (by decide)

theorem lasting_fullSession : fullSession.Lasting 3 where
  challenge := by
    rintro index ⟨⟩
    decide
  rules := by
    refine ⟨_, rfl, ?_⟩
    rw [List.forall_mem_singleton]
    exact ⟨⟨by decide, by decide, by decide⟩, by decide, by decide,
      ⟨by decide, by decide, by decide⟩⟩
  cells := by
    rintro cells ⟨⟩
    decide
  head := by
    rintro head ⟨⟩
    refine ⟨by decide, ?_⟩
    rintro cells ⟨⟩
    decide

/-- With as few challenges as there are, it comes back; with one less, it does not. -/
theorem load_write_fullSession :
    ∃ k l : Keeper, ∃ written, fullSession.isWritable = true ∧
      k.challenges = 3 ∧ k.write fullSession .empty = (written, none) ∧
      (k.load written).1 = some fullSession ∧
      l.challenges = 2 ∧ l.write fullSession .empty = (written, none) ∧
      (l.load written).1 ≠ some fullSession := by
  obtain ⟨written, hwritten, -⟩ := Tree.accepts_empty.write fullSession.bytes
  have hload (challenges : Int) := load_write_eq_some_iff
    (k := new ⟨"", ["last.json"]⟩ (.finite 500) challenges) isWritable_fullSession hwritten
  refine ⟨_, _, written, isWritable_fullSession, rfl, (hload 3).1,
    (hload 3).2.2 lasting_fullSession, rfl, (hload 2).1, fun hown => ?_⟩
  exact absurd (((hload 2).2.1 hown).challenge 2 rfl).2 (by decide)

end TapeLab.Keeper
