import TapeLab.Session
import TapeLab.Json.Printer
import TapeLab.Json.Reader
import TapeLab.Text.Utf8

/-!
The saved form of sessions. A save is an object with a version and the data. In reading, a part of
the data that is malformed is dropped, and the others are still used.
-/

namespace TapeLab

namespace Rule

def toJson (r : Rule) : Json :=
  .record [("state", .text r.state), ("read", .text r.read), ("write", .text r.write),
    ("move", .text r.move.name), ("next_state", .text r.next)]

/-- The rule that an object of five texts stands for. State names are clipped and must not be blank
altogether. -/
def ofJson (v : Json) : Except RuleError Rule :=
  let text (key : String) := (v.field? key).bind Json.text?
  match text "state", text "read", text "write", text "move", text "next_state" with
  | some state, some read, some write, some move, some next =>
    if (Text.strip state.toList).isEmpty || (Text.strip next.toList).isEmpty then .error .malformed
    else ofTexts (clipState state) read write move (clipState next)
  | _, _, _, _, _ => .error .malformed

end Rule

namespace Session

def version : Int := 1

def optional {α : Type} (f : α → Json) : Option α → Json
  | none => .null
  | some a => f a

def toJson (s : Session) : Json :=
  .record [("version", .int version),
    ("data", .record [("challenge", optional .int s.challenge),
      ("rules", .list (((s.rules.map RuleTable.rules).getD []).map Rule.toJson)),
      ("tape", optional (fun cells => .list (cells.map .text)) s.cells),
      ("head", optional .int s.head)])]

def allOk {α ε : Type} : List (Except ε α) → Option (List α)
  | [] => some []
  | .ok a :: rest => (allOk rest).map (a :: ·)
  | .error _ :: _ => none

def challengeOf (data : Json) (challenges : Int) : Option Int :=
  ((data.field? "challenge").bind Json.number?).filter fun n => 0 ≤ n ∧ n < challenges

def rulesOf (data : Json) : Option RuleTable :=
  ((data.field? "rules").bind Json.list?).bind fun items =>
    (allOk (items.map Rule.ofJson)).map RuleTable.mk

/-- A tape is read if it has cells and all of them hold symbols. -/
def cellsOf (data : Json) : Option (List Symbol) :=
  ((data.field? "tape").bind Json.list?).bind fun items =>
    if items.isEmpty then none
    else items.mapM fun v => v.text?.bind readSymbol?

/-- A head is read if it is not negative and stands on the tape, if there is one. -/
def headOf (data : Json) (cells : Option (List Symbol)) : Option Int :=
  ((data.field? "head").bind Json.number?).filter fun n =>
    0 ≤ n ∧ ∀ cs ∈ cells, n < cs.length

/-- The session that a save holds, if its version is known. Challenges are numbered below
`challenges`. -/
def ofJson (v : Json) (challenges : Int) : Option Session := do
  let saved ← (v.field? "version").bind Json.int?
  let data ← v.field? "data"
  if saved = version ∧ data.isRecord then
    let cells := cellsOf data
    return ⟨challengeOf data challenges, rulesOf data, cells, headOf data cells⟩
  else none

def toText (s : Session) : String := s.toJson.toText

def isWritable (s : Session) : Bool :=
  s.challenge.all Text.isWritable && s.head.all Text.isWritable

inductive ReadFault
  | unreadable
  | unknownLayout
  deriving DecidableEq, Repr

def ofBytes (bytes : List UInt8) (challenges : Int) : Except ReadFault Session :=
  match Text.decodeUtf8 bytes with
  | .error _ => .error .unreadable
  | .ok text =>
    match Json.read? (Text.unifyNewlines text) with
    | none => .error .unreadable
    | some v =>
      match ofJson v challenges with
      | none => .error .unknownLayout
      | some s => .ok s

end Session

end TapeLab
