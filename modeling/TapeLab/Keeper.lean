import TapeLab.Agenda
import TapeLab.Journal
import TapeLab.Session.Saved

/-!
Keepers of a session file. A session that is scheduled is written when a delay has passed without
another one being scheduled; a flush writes it at once. What came of a write after a delay is heard
of in the next turn.
-/

namespace TapeLab

structure Keeper where
  path : Path
  delay : Time
  challenges : Int
  pending : Option Session
  handle : Option Nat
  /-- The writes whose outcome has not been heard of. -/
  underway : Nat
  deriving DecidableEq, Repr

/-- What a keeper leaves when it has worked on the disk, and a fault that was not only logged. -/
structure KeeperWork (α : Type) where
  keeper : Keeper
  agenda : Agenda α
  disk : Tree
  logs : List Log
  fault : Option SaveError

inductive KeeperAlarm
  | save
  | heard (fault : Option SaveError)
  deriving DecidableEq, Repr

namespace Keeper

variable {α : Type}

def new (path : Path) (delay : Time) (challenges : Int) : Keeper :=
  ⟨path, delay, challenges, none, none, 0⟩

def load (k : Keeper) (disk : Tree) : Option Session × List Log :=
  match disk.read k.path with
  | .error e => if e.isNotFound then (none, []) else (none, [.unreadable k.path])
  | .ok bytes =>
    match Session.ofBytes bytes k.challenges with
    | .ok s => (some s, [])
    | .error .unreadable => (none, [.unreadable k.path])
    | .error .unknownLayout => (none, [.unknownLayout k.path])

/-- The disk with the session in the file, unless a fault keeps it out. -/
def write (k : Keeper) (s : Session) (disk : Tree) : Tree × Option SaveError :=
  if s.isWritable then
    let (disk, fault) := disk.write k.path (Text.encodeUtf8 s.toText)
    (disk, fault.map .disk)
  else
    let (disk, fault) := disk.beginWrite k.path
    (disk, some ((fault.map .disk).getD (.numeral .unwritable)))

def cancel (k : Keeper) (a : Agenda α) : Keeper × Agenda α :=
  match k.handle with
  | none => (k, a)
  | some id => ({ k with handle := none }, a.cancel id)

/-- Remembers a session in the place of any other, and sets the timer of its writing if timers can
be set. -/
def schedule (lift : KeeperAlarm → α) (loop : Bool) (s : Session) (k : Keeper) (a : Agenda α) :
    Keeper × Agenda α :=
  let (k, a) := { k with pending := some s }.cancel a
  if loop then
    let (a, id) := a.set k.delay (.alarm (lift .save))
    ({ k with handle := some id }, a)
  else (k, a)

/-- Logs that the disk has refused something; any other fault is handed on. -/
def complain (k : Keeper) (a : Agenda α) (disk : Tree) (log : Log) (e : SaveError) :
    KeeperWork α :=
  if e.isRefusal then ⟨k, a, disk, [log], none⟩ else ⟨k, a, disk, [], some e⟩

def flush (k : Keeper) (a : Agenda α) (disk : Tree) : KeeperWork α :=
  let (k, a) := k.cancel a
  match k.pending with
  | none => ⟨k, a, disk, [], none⟩
  | some s =>
    let k := { k with pending := none }
    match k.write s disk with
    | (disk, none) => ⟨k, a, disk, [.saved k.path], none⟩
    | (disk, some e) => k.complain a disk (.notSaved k.path e) e

def clear (k : Keeper) (a : Agenda α) (disk : Tree) : KeeperWork α :=
  let (k, a) := k.cancel a
  let k := { k with pending := none }
  match disk.unlink k.path with
  | .ok disk => ⟨k, a, disk, [], none⟩
  | .error e => k.complain a disk (.notRemoved k.path (.disk e)) (.disk e)

def save (lift : KeeperAlarm → α) (k : Keeper) (a : Agenda α) (disk : Tree) : KeeperWork α :=
  let k := { k with handle := none }
  match k.pending with
  | none => ⟨k, a, disk, [], none⟩
  | some s =>
    let (disk, fault) := k.write s disk
    ⟨{ k with pending := none, underway := k.underway + 1 },
      (a.putOff (.alarm (lift (.heard fault)))).1, disk,
      if fault.isNone then [.saved k.path] else [], none⟩

def hear (fault : Option SaveError) (k : Keeper) (a : Agenda α) (disk : Tree) : KeeperWork α :=
  ⟨{ k with underway := k.underway - 1 }, a, disk, (fault.map (.notSaved k.path)).toList, none⟩

def answer (lift : KeeperAlarm → α) (alarm : KeeperAlarm) (k : Keeper) (a : Agenda α)
    (disk : Tree) : KeeperWork α :=
  match alarm with
  | .save => k.save lift a disk
  | .heard fault => k.hear fault a disk

end Keeper

end TapeLab
