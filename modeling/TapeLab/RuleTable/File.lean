import TapeLab.RuleTable.Spec
import TapeLab.Disk.Tree
import TapeLab.Text.Markup
import TapeLab.Text.Utf8

/-!
Rule tables from files, and how it is told that a file does not hold one.
-/

namespace TapeLab

inductive RuleFileError
  | unreadable (path : Path) (cause : FileCause)
  | nullByte (path : Path)
  | notText (path : Path) (cause : Text.Utf8Error)
  | malformed (path : Path) (cause : SpecError)
  deriving DecidableEq, Repr

namespace RuleFileError

def unreadableLine (path : Path) (message : String) : String :=
  s!"[error]Could not read the rule file:[/] {Text.escape path.toText}\n{message}"

def malformedLine (path : Path) (message : String) : String :=
  s!"[error]The rule file is formatted incorrectly:[/] {Text.escape path.toText}\n" ++
    Text.escape message

def markup : RuleFileError → String
  | unreadable path cause => unreadableLine path cause.text
  | nullByte path => malformedLine path FileError.nullByte.message
  | notText path cause => malformedLine path cause.message
  | malformed path cause => malformedLine path cause.message

end RuleFileError

def RuleTable.load (disk : Tree) (path : Path) : Except RuleFileError RuleTable :=
  match disk.read path with
  | .error (.refused cause _) => .error (.unreadable path cause)
  | .error .nullByte => .error (.nullByte path)
  | .ok bytes =>
    match Text.decodeUtf8 bytes with
    | .error cause => .error (.notText path cause)
    | .ok text =>
      match RuleTable.parse (String.ofList (Text.unifyNewlines text)) with
      | .error cause => .error (.malformed path cause)
      | .ok t => .ok t

end TapeLab
