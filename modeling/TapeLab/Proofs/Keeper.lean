import TapeLab.Keeper
import TapeLab.Proofs.Agenda.Numbers
import TapeLab.Proofs.Disk.Tree
import TapeLab.Proofs.Session

/-!
What keepers are asked for, and what they do about it. A keeper is asked to keep a session, or to
take the file away; the last request is the one that counts. On a disk that accepts all writes a
keeper `Serves`: what was asked for last is in the file, or the session is pending.
-/

namespace TapeLab

def Session.bytes (s : Session) : List UInt8 := Text.encodeUtf8 s.toText

namespace Keeper

variable {α : Type} {path : Path} {before disk : Tree} {k : Keeper} {a : Agenda α} {s : Session}

theorem cancel_eq (k : Keeper) (a : Agenda α) :
    k.cancel a = ({ k with handle := none }, a.cancelHeld k.handle) := by
  obtain ⟨path, delay, challenges, pending, handle, underway⟩ := k
  cases handle <;> rfl

theorem schedule_eq (lift : KeeperAlarm → α) (loop : Bool) (s : Session) (k : Keeper)
    (a : Agenda α) :
    k.schedule lift loop s a =
      if loop then
        ({ k with pending := some s, handle := some (a.cancelHeld k.handle).next },
          ((a.cancelHeld k.handle).set k.delay (.alarm (lift .save))).1)
      else ({ k with pending := some s, handle := none }, a.cancelHeld k.handle) := by
  rw [schedule, cancel_eq]
  cases loop <;> rfl

theorem fault_clear (k : Keeper) (a : Agenda α) (disk : Tree) :
    (k.clear a disk).fault = if k.path.hasNull then some (.disk .nullByte) else none := by
  unfold clear
  rw [cancel_eq]
  dsimp only
  cases hnull : k.path.hasNull with
  | true =>
    rw [Tree.unlink_of_hasNull hnull]
    rfl
  | false =>
    split
    · rfl
    · next e he =>
      unfold complain
      rw [if_pos (show (SaveError.disk e).isRefusal = true from Tree.isRefusal_of_unlink hnull he)]
      rfl

theorem write_eq_none_iff {written : Tree} :
    k.write s disk = (written, none) ↔
      s.isWritable = true ∧ disk.write k.path s.bytes = (written, none) := by
  rw [Keeper.write]
  cases s.isWritable with
  | true =>
    simp only [if_true, true_and, Prod.mk.injEq, Option.map_eq_none_iff]
    exact ⟨fun h => Prod.ext h.1 h.2, fun h => ⟨congrArg Prod.fst h, congrArg Prod.snd h⟩⟩
  | false => simp

theorem ofJson_of_load (h : (k.load disk).1 = some s) :
    ∃ json, Session.ofJson json k.challenges = some s := by
  unfold load at h
  split at h
  · split at h <;> cases h
  · split at h
    · next own hown =>
      cases h
      exact Session.ofJson_of_ofBytes hown
    · cases h
    · cases h

inductive Request
  | keep (s : Session)
  | clear

/-- The last request is met: it is in the file, or it is a session that is pending, or one that
cannot be written. If there was no request, the disk is as it was before. -/
inductive Heeds (path : Path) (before : Tree) (k : Keeper) (disk : Tree) : Option Request → Prop
  | untouched : k.pending = none → disk = before → Heeds path before k disk none
  | pending {s : Session} : k.pending = some s → Heeds path before k disk (some (.keep s))
  | kept {s : Session} : k.pending = none → disk.read path = .ok s.bytes →
      Heeds path before k disk (some (.keep s))
  /-- A session with a number that is too long to be written. -/
  | dropped {s : Session} : k.pending = none → s.isWritable = false →
      Heeds path before k disk (some (.keep s))
  | cleared : k.pending = none → disk.read path = .error (.refused .notFound path) →
      Heeds path before k disk (some .clear)

/-- A keeper of the file at a path, on a disk that accepts all writes to it. -/
structure Serves (path : Path) (before : Tree) (asked : Option Request) (k : Keeper) (disk : Tree) :
    Prop where
  place : k.path = path
  accepts : disk.Accepts path
  heeds : Heeds path before k disk asked

variable {asked : Option Request}

theorem serves_new {delay : Time} {challenges : Int} (h : disk.Accepts path) :
    Serves path disk none (new path delay challenges) disk := ⟨rfl, h, .untouched rfl rfl⟩

theorem Serves.of_pending (h : Serves path before asked k disk) {l : Keeper}
    (hpath : l.path = k.path) (hpending : l.pending = k.pending) :
    Serves path before asked l disk := by
  refine ⟨hpath.trans h.place, h.accepts, ?_⟩
  cases h.heeds with
  | untouched hnone hdisk => exact .untouched (hpending.trans hnone) hdisk
  | pending hsome => exact .pending (hpending.trans hsome)
  | kept hnone hread => exact .kept (hpending.trans hnone) hread
  | dropped hnone hlong => exact .dropped (hpending.trans hnone) hlong
  | cleared hnone hread => exact .cleared (hpending.trans hnone) hread

theorem Serves.eq_of_pending (h : Serves path before asked k disk) (hs : k.pending = some s) :
    asked = some (.keep s) := by
  cases h.heeds with
  | untouched hnone _ => cases hnone.symm.trans hs
  | pending hsome => cases hsome.symm.trans hs; rfl
  | kept hnone _ | dropped hnone _ => cases hnone.symm.trans hs
  | cleared hnone _ => cases hnone.symm.trans hs

theorem Serves.read_of_keep (h : Serves path before (some (.keep s)) k disk)
    (hnone : k.pending = none) (hs : s.isWritable = true) : disk.read path = .ok s.bytes := by
  cases h.heeds with
  | pending hsome => cases hnone.symm.trans hsome
  | kept _ hread => exact hread
  | dropped _ hlong => cases hs.symm.trans hlong

theorem Serves.of_clear (h : Serves path before (some .clear) k disk) :
    k.pending = none ∧ disk.read path = .error (.refused .notFound path) := by
  cases h.heeds with
  | cleared hnone hread => exact ⟨hnone, hread⟩

theorem Serves.schedule (h : Serves path before asked k disk) (lift : KeeperAlarm → α)
    (loop : Bool) (s : Session) (a : Agenda α) :
    Serves path before (some (.keep s)) (k.schedule lift loop s a).1 disk := by
  rw [schedule_eq]
  split
  · exact ⟨h.place, h.accepts, .pending rfl⟩
  · exact ⟨h.place, h.accepts, .pending rfl⟩

theorem Serves.write (h : Serves path before asked k disk) (hs : k.pending = some s) {l : Keeper}
    (hpath : l.path = k.path) (hl : l.pending = none) :
    Serves path before asked l (k.write s disk).1 ∧
      (k.write s disk).2 = if s.isWritable then none else some (.numeral .unwritable) := by
  rw [h.eq_of_pending hs]
  cases hlong : s.isWritable with
  | true =>
    obtain ⟨written, hwrite, hread, haccepts⟩ := h.accepts.write s.bytes
    rw [write_eq_none_iff.2 ⟨hlong, h.place ▸ hwrite⟩]
    exact ⟨⟨hpath.trans h.place, haccepts, .kept hl hread⟩, rfl⟩
  | false =>
    obtain ⟨written, hwrite, haccepts⟩ := h.accepts.beginWrite
    have hdropped : k.write s disk = (written, some (.numeral .unwritable)) := by
      simp [Keeper.write, hlong, h.place, hwrite]
    rw [hdropped]
    exact ⟨⟨hpath.trans h.place, haccepts, .dropped hl hlong⟩, rfl⟩

theorem Serves.flush (h : Serves path before asked k disk) (a : Agenda α) :
    ∃ written logs fault, k.flush a disk =
        ⟨{ k with handle := none, pending := none }, a.cancelHeld k.handle, written, logs, fault⟩ ∧
      (k.pending = none → written = disk) ∧
      ((∀ s ∈ k.pending, s.isWritable = true) → fault = none) ∧
      Serves path before asked { k with handle := none, pending := none } written := by
  rw [Keeper.flush, cancel_eq]
  cases hpending : k.pending with
  | none =>
    refine ⟨disk, [], none, ?_, fun _ => rfl, fun _ => rfl, h.of_pending rfl hpending.symm⟩
    simp
  | some s =>
    obtain ⟨hserves, hfault⟩ :=
      h.write hpending (l := { k with handle := none, pending := none }) rfl rfl
    have hpath : Keeper.write { k with handle := none, pending := none } s disk =
        k.write s disk := rfl
    dsimp only
    rw [hpath]
    obtain ⟨written, hwritten⟩ : ∃ written, (k.write s disk).1 = written := ⟨_, rfl⟩
    rw [hwritten] at hserves
    cases hlong : s.isWritable with
    | true =>
      rw [show k.write s disk = (written, none) from
        Prod.ext hwritten (hfault.trans (if_pos hlong))]
      exact ⟨written, _, _, rfl, nofun, fun _ => rfl, hserves⟩
    | false =>
      rw [show k.write s disk = (written, some (.numeral .unwritable)) from
        Prod.ext hwritten (by rw [hfault, hlong]; rfl)]
      exact ⟨written, _, _, rfl, nofun, fun hs => by simp [hlong] at hs, hserves⟩

theorem Serves.save (h : Serves path before asked k disk) (lift : KeeperAlarm → α) (a : Agenda α) :
    ∃ b written logs underway, k.save lift a disk =
        ⟨{ k with handle := none, pending := none, underway := underway }, b, written, logs, none⟩ ∧
      (b = a ∨ ∃ fault, b = (a.putOff (.alarm (lift (.heard fault)))).1) ∧
      (k.pending = none → written = disk) ∧
      Serves path before asked { k with handle := none, pending := none, underway := underway }
        written := by
  rw [Keeper.save]
  cases hpending : k.pending with
  | none =>
    refine ⟨a, disk, [], k.underway, ?_, .inl rfl, fun _ => rfl, h.of_pending rfl hpending.symm⟩
    simp
  | some s =>
    obtain ⟨hserves, -⟩ := h.write hpending
      (l := { k with handle := none, pending := none, underway := k.underway + 1 }) rfl rfl
    exact ⟨_, _, _, k.underway + 1, rfl, .inr ⟨_, rfl⟩, nofun, hserves⟩

theorem Serves.clear (h : Serves path before asked k disk) (a : Agenda α) :
    ∃ cleared, k.clear a disk =
        ⟨{ k with handle := none, pending := none }, a.cancelHeld k.handle, cleared, [], none⟩ ∧
      Serves path before (some .clear) { k with handle := none, pending := none } cleared := by
  obtain ⟨cleared, hunlink, hread, haccepts⟩ := h.accepts.unlink
  refine ⟨cleared, ?_, h.place, haccepts, .cleared rfl hread⟩
  rw [Keeper.clear, cancel_eq]
  simp [h.place, hunlink]

end Keeper

end TapeLab
