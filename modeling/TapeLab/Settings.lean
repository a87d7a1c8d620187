import TapeLab.Decimal.Shortest
import TapeLab.History
import TapeLab.Disk.Tree
import TapeLab.Text.Numeral
import TapeLab.Text.Utf8

/-!
Settings. They are made from named values, each of which must be known and of the right kind, and
then checked for range, in a fixed order.
-/

namespace TapeLab

structure Settings where
  speed : Nat
  bounds : History.Bounds
  saveDelay : Binary64
  sessionFile : Path
  maxSteps : Nat
  maxSteps_pos : 0 < maxSteps
  deriving Repr

inductive SettingValue
  | int (n : Int)
  | real (x : Binary64)
  | text (s : String)
  | bool (b : Bool)
  | nothing
  | list
  | table
  | date
  | time
  | dateTime
  deriving DecidableEq, Repr

def SettingValue.kind : SettingValue → String
  | int _ => "int"
  | real _ => "float"
  | text _ => "str"
  | bool _ => "bool"
  | nothing => "NoneType"
  | list => "list"
  | table => "dict"
  | date => "date"
  | time => "time"
  | dateTime => "datetime"

def SettingValue.fullKind : SettingValue → String
  | date => "datetime.date"
  | time => "datetime.time"
  | dateTime => "datetime.datetime"
  | v => v.kind

inductive Seconds
  | whole (n : Int)
  | real (x : Binary64)
  deriving DecidableEq, Repr

namespace Seconds

def toBinary64 : Seconds → Binary64
  | whole n => .ofInt n
  | real x => x

def isNegative : Seconds → Bool
  | whole n => n < 0
  | real x => x.isNegative

def text : Seconds → String
  | whole n => toString n
  | real x => x.text

def isTooLarge : Seconds → Bool
  | whole n => (Binary64.ofInt n).isInfinite
  | real _ => false

end Seconds

inductive SettingKey
  | speed
  | historyCap
  | historyDrop
  | saveDelay
  | sessionFile
  | maxSteps
  deriving DecidableEq, Repr

namespace SettingKey

def all : List SettingKey := [speed, historyCap, historyDrop, saveDelay, sessionFile, maxSteps]

def name : SettingKey → String
  | speed => "speed"
  | historyCap => "history_cap"
  | historyDrop => "history_drop"
  | saveDelay => "save_delay"
  | sessionFile => "session_file"
  | maxSteps => "max_steps"

def kind : SettingKey → String
  | saveDelay => "float"
  | sessionFile => "Path"
  | _ => "int"

def ofName? (name : String) : Option SettingKey := all.find? fun k => k.name == name

end SettingKey

inductive SettingsError
  | unknownKey (key : String)
  | wrongKind (key : SettingKey) (value : SettingValue)
  | negativeSpeed (speed : Int)
  | badDrop (drop : Int)
  | negativeSaveDelay (delay : Seconds)
  | noSteps (maxSteps : Int)
  | unreadable (path : Path) (cause : FileError)
  | notToml (path : Path)
  | notTable (value : SettingValue)
  | numeral (cause : Text.NumeralError)
  | notText (cause : Text.Utf8Error)
  | delayTooLarge
  | nullByte
  deriving DecidableEq, Repr

namespace SettingsError

def isReported : SettingsError → Bool
  | notTable _ | numeral _ | notText _ | delayTooLarge | nullByte => false
  | _ => true

def message : SettingsError → String
  | unknownKey key => s!"Unknown configuration key '{key}'"
  | wrongKind key value => s!"Config key '{key.name}' expected {key.kind}, got {value.kind}"
  | negativeSpeed speed => s!"speed must not be negative, got {speed}"
  | badDrop drop => s!"history_drop must be between 1 and history_cap, got {drop}"
  | negativeSaveDelay delay => s!"save_delay must not be negative, got {delay.text}"
  | noSteps maxSteps => s!"max_steps must be positive, got {maxSteps}"
  | unreadable path cause =>
    s!"Could not read configuration file {path.toText}: {cause.message}"
  | notToml path => s!"Configuration file {path.toText} is not valid TOML: ..."
  | notTable value => s!"'{value.fullKind}' object has no attribute 'items'"
  | numeral cause => cause.message
  | notText cause => cause.message
  | delayTooLarge => "int too large to convert to float"
  | nullByte => FileError.nullByte.message

/-- The error that tells a number, unless that has too many digits. -/
def telling (n : Int) (e : SettingsError) : SettingsError :=
  if Text.isWritable n then e else numeral .unwritable

end SettingsError

/-- Settings before their ranges are checked. -/
structure SettingsDraft where
  speed : Int
  cap : Int
  drop : Int
  saveDelay : Seconds
  sessionFile : Path
  maxSteps : Int
  deriving DecidableEq, Repr

namespace SettingsDraft

def default : SettingsDraft where
  speed := 300
  cap := 500
  drop := 100
  saveDelay := .real (.ofRatio false 1 2)
  sessionFile := .ofText "~/.tmsandbox/session.json"
  maxSteps := 1000000

def setInt (d : SettingsDraft) (key : SettingKey) (n : Int) : Except SettingsError SettingsDraft :=
  match key with
  | .speed => .ok { d with speed := n }
  | .historyCap => .ok { d with cap := n }
  | .historyDrop => .ok { d with drop := n }
  | .maxSteps => .ok { d with maxSteps := n }
  | .saveDelay => .ok { d with saveDelay := .whole n }
  | .sessionFile => .error (.wrongKind key (.int n))

/-- Puts a value in, if it is of the right kind. A whole number for the delay is rounded. -/
def set (d : SettingsDraft) (key : SettingKey) (value : SettingValue) :
    Except SettingsError SettingsDraft :=
  match key, value with
  | .saveDelay, .int n =>
    if (Seconds.whole n).isTooLarge then .error .delayTooLarge
    else .ok { d with saveDelay := .real (.ofInt n) }
  | .saveDelay, .real x => .ok { d with saveDelay := .real x }
  | .sessionFile, .text s => .ok { d with sessionFile := .ofText s }
  | key, .int n => d.setInt key n
  | key, value => .error (.wrongKind key value)

def setAll (d : SettingsDraft) : List (String × SettingValue) → Except SettingsError SettingsDraft
  | [] => .ok d
  | (name, value) :: entries =>
    match SettingKey.ofName? name with
    | none => .error (.unknownKey name)
    | some key => do (← d.set key value).setAll entries

def check (d : SettingsDraft) : Except SettingsError Settings :=
  if d.speed < 0 then .error (.telling d.speed (.negativeSpeed d.speed))
  else match History.Bounds.ofInts d.cap d.drop with
    | .error _ => .error (.telling d.drop (.badDrop d.drop))
    | .ok bounds =>
      if d.saveDelay.isNegative then .error (.negativeSaveDelay d.saveDelay)
      else if h : d.maxSteps < 1 then .error (.telling d.maxSteps (.noSteps d.maxSteps))
      else if d.saveDelay.isTooLarge then .error .delayTooLarge
      else .ok ⟨d.speed.toNat, bounds, d.saveDelay.toBinary64, d.sessionFile, d.maxSteps.toNat,
        by omega⟩

end SettingsDraft

namespace Settings

def default : Settings where
  speed := 300
  bounds := .default
  saveDelay := .ofRatio false 1 2
  sessionFile := .ofText "~/.tmsandbox/session.json"
  maxSteps := 1000000
  maxSteps_pos := by decide

def draft (s : Settings) : SettingsDraft :=
  ⟨s.speed, s.bounds.cap, s.bounds.drop, .real s.saveDelay, s.sessionFile, s.maxSteps⟩

def ofEntries (entries : List (String × SettingValue)) : Except SettingsError Settings := do
  (← SettingsDraft.default.setAll entries).check

def override (s : Settings) (values : List (SettingKey × Int)) : Except SettingsError Settings := do
  (← values.foldlM (fun d v => d.setInt v.1 v.2) s.draft).check

def sessionPath (s : Settings) (home : Path) : Except Path.HomeError Path :=
  s.sessionFile.expandHome home

end Settings

end TapeLab
