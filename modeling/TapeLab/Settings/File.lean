import TapeLab.Settings
import TapeLab.Toml.Reader

/-!
Settings from a file. The file is TOML; a table named for the program takes the place of the whole
document. Without a path the file is optional.
-/

namespace TapeLab.Settings

def defaultFile : Path := .ofText "tmsandbox.toml"

def tableName : String := "tmsandbox"

def valueOf : Toml → SettingValue
  | .text s => .text s
  | .int n => .int n
  | .real x => .real x
  | .bool b => .bool b
  | .date => .date
  | .time => .time
  | .dateTime => .dateTime
  | .list _ => .list
  | .table _ => .table

def ofTable (t : Toml.Entries) : Except SettingsError Settings :=
  ofEntries (t.map fun e => (e.1, valueOf e.2))

def ofDocument (t : Toml.Entries) : Except SettingsError Settings :=
  match Toml.lookup tableName t with
  | none => ofTable t
  | some (.table inner) => ofTable inner
  | some v => .error (.notTable (valueOf v))

def ofText (path : Path) (text : List Char) : Except SettingsError Settings :=
  match Toml.read (Text.unifyNewlines text) with
  | .error .malformed => .error (.notToml path)
  | .error (.numeral cause) => .error (.numeral cause)
  | .ok t => ofDocument t

def loadFrom (t : Tree) (path : Path) : Except SettingsError Settings :=
  match t.read path with
  | .error .nullByte => .error .nullByte
  | .error cause => .error (.unreadable path cause)
  | .ok bytes =>
    match Text.decodeUtf8 bytes with
    | .error cause => .error (.notText cause)
    | .ok text => ofText path text

/-- The settings of a file, or of the default file if that is there. -/
def load (t : Tree) : Option Path → Except SettingsError Settings
  | some path => loadFrom t path
  | none => if t.isFile defaultFile then loadFrom t defaultFile else .ok .default

end TapeLab.Settings
