import TapeLab.Workbench
import TapeLab.Console.Status

/-!
Trials: runs that nobody watches. A trial goes on until the machine halts or has taken a number of
steps, and answers whether it was stopped by that limit.
-/

namespace TapeLab.Trial

def watcherKey : String := "limit"

/-- Shows every step, if asked for, and pauses a run that has come to the limit. -/
def watcher (maxSteps : Nat) (trace : Bool) : Listener where
  key := watcherKey
  react d :=
    (if trace && d.machine.active.isSome then [.print d.machine.traceLine] else []) ++
    (if d.running && !d.machine.halted && maxSteps ≤ d.machine.steps then
      [.flag, .perform .pause]
    else [])

/-- Calls that may be carried out in a trial: those on the agenda, and for every step its tick and
what the keeper does about it. -/
def patience (maxSteps : Nat) (w : Workbench) : Nat :=
  w.desk.agenda.load Alarm.calls + 3 * maxSteps

inductive Result
  /-- The run is over; the flag tells whether the limit has stopped it. -/
  | over (limited : Bool)
  | fault (cause : Fault)
  /-- The run goes on, but no call is left that could end it. -/
  | endless
  deriving DecidableEq, Repr

def awaitEnd (maxSteps : Nat) (w : Workbench) : Workbench × Result :=
  match w.desk.pacer.current with
  | none => (w, .over w.flagged)
  | some run =>
    match Workbench.clockwork.awaitEnding (patience maxSteps w) run none w with
    | (w, some _) => (w, .over w.flagged)
    | (w, none) => (w, .endless)

def run (maxSteps : Nat) (trace : Bool) (w : Workbench) : Workbench × Result :=
  match ({ w with flagged := false }.subscribe (watcher maxSteps trace)).perform .run with
  | (w, .ok (.flag true)) => awaitEnd maxSteps w
  | (w, .ok _) => (w, .over w.flagged)
  | (w, .error f) => (w, .fault f)

end TapeLab.Trial
