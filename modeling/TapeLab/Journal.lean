import TapeLab.Rule
import TapeLab.Disk.Path
import TapeLab.Disk.Tree
import TapeLab.Console.Output
import TapeLab.Text.Numeral

/-!
Journals: what was shown, logged and heard, in one order. A log record has a level, the name of the
part of the program that wrote it, and a message.
-/

namespace TapeLab

inductive Level
  | debug
  | info
  | warning
  deriving DecidableEq, Repr

def Level.name : Level → String
  | debug => "DEBUG"
  | info => "INFO"
  | warning => "WARNING"

inductive SaveError
  | disk (cause : FileError)
  | numeral (cause : Text.NumeralError)
  deriving DecidableEq, Repr

namespace SaveError

def message : SaveError → String
  | disk cause => cause.message
  | numeral cause => cause.message

def isRefusal : SaveError → Bool
  | disk cause => cause.isRefusal
  | numeral _ => false

end SaveError

inductive Log
  | stepped (steps : Int) (rule : Rule)
  | missed (steps : Int) (message : String)
  | undone (steps : Int)
  /-- A run has started; the delay is in seconds, with three places. -/
  | runStarted (delay : String)
  | runPaused
  | judged (challenge : String) (won : Bool)
  | reset (challenge : String)
  | loaded (challenge : String)
  | restored (challenge : String)
  | saved (path : Path)
  | notSaved (path : Path) (cause : SaveError)
  | notRemoved (path : Path) (cause : SaveError)
  | unreadable (path : Path)
  | unknownLayout (path : Path)
  deriving DecidableEq, Repr

namespace Log

def level : Log → Level
  | judged .. | restored _ => .info
  | notSaved .. | notRemoved .. => .warning
  | _ => .debug

def source : Log → String
  | stepped .. | missed .. | undone _ => "tmsandbox.turing_machine"
  | runStarted _ | runPaused => "tmsandbox.scheduler"
  | judged .. | reset _ | loaded _ | restored _ => "tmsandbox.controller"
  | _ => "tmsandbox.storage"

def message : Log → String
  | stepped steps rule => s!"Step {steps}: {rule.describe}"
  | missed steps message => s!"Rule miss at step {steps}: {message}"
  | undone steps => s!"Undid step, back at step {steps}"
  | runStarted delay => s!"Run started with a {delay}s delay"
  | runPaused => "Run paused"
  | judged challenge true => s!"Challenge '{challenge}' solved"
  | judged challenge false => s!"Challenge '{challenge}' failed"
  | reset challenge => s!"Reset to challenge '{challenge}'"
  | loaded challenge => s!"Loaded challenge '{challenge}'"
  | restored challenge => s!"Restored previous session on challenge '{challenge}'"
  | saved path => s!"Saved session to {path.toText}"
  | notSaved path cause => s!"Could not save session to {path.toText}: {cause.message}"
  | notRemoved path cause => s!"Could not remove session file {path.toText}: {cause.message}"
  | unreadable path => s!"Ignoring unreadable session file {path.toText}: ..."
  | unknownLayout path => s!"Ignoring session file {path.toText} with an unknown layout"

end Log

inductive Entry
  | shown (output : Output)
  | logged (log : Log)
  | heard (key : String) (steps : Int) (running : Bool)
  deriving DecidableEq, Repr

/-- The last entry comes first. -/
abbrev Journal := List Entry

end TapeLab
