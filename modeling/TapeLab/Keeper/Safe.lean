import TapeLab.Clockwork
import TapeLab.Keeper

/-!
Safes: a keeper on its own, with the agenda of its timers and the disk that it writes to.
-/

namespace TapeLab

structure Safe where
  keeper : Keeper
  agenda : Agenda KeeperAlarm
  disk : Tree
  loop : Bool
  deriving Repr

namespace Safe

def new (keeper : Keeper) (disk : Tree) (loop : Bool) : Safe := ⟨keeper, .empty, disk, loop⟩

def load (f : Safe) : Option Session := (f.keeper.load f.disk).1

def schedule (f : Safe) (s : Session) : Safe :=
  let (k, a) := f.keeper.schedule id f.loop s f.agenda
  { f with keeper := k, agenda := a }

def cancel (f : Safe) : Safe :=
  let (k, a) := f.keeper.cancel f.agenda
  { f with keeper := k, agenda := a }

def write (f : Safe) (s : Session) : Safe × Option SaveError :=
  let (disk, fault) := f.keeper.write s f.disk
  ({ f with disk := disk }, fault)

def withWork (f : Safe) (w : KeeperWork KeeperAlarm) : Safe × Option SaveError :=
  ({ f with keeper := w.keeper, agenda := w.agenda, disk := w.disk }, w.fault)

def flush (f : Safe) : Safe × Option SaveError := f.withWork (f.keeper.flush f.agenda f.disk)

def clear (f : Safe) : Safe × Option SaveError := f.withWork (f.keeper.clear f.agenda f.disk)

def fire (alarm : KeeperAlarm) (f : Safe) : Safe :=
  (f.withWork (f.keeper.answer id alarm f.agenda f.disk)).1

def clockwork : Clockwork Safe KeeperAlarm where
  agenda := agenda
  withAgenda a f := { f with agenda := a }
  fire := fire

def sleep (patience : Nat) (delay : Rat) (f : Safe) : Safe := clockwork.sleep patience delay f

/-- Waits for writes that are under way: two turns, if there are any. -/
def drain (patience : Nat) (f : Safe) : Safe :=
  if 0 < f.keeper.underway then clockwork.passTurns patience 2 f else f

end Safe

end TapeLab
