import TapeLab.Toml.Value
import TapeLab.Toml.Moment
import TapeLab.Toml.Text
import TapeLab.Decimal.Reader

/-!
Reading TOML. A document is a row of statements: entries and the headers of tables. It is refused if
an entry or a table is given twice, or if a later statement goes into a table or list that was
written as a value.
-/

namespace TapeLab.Toml

def malformed {α : Type} : Except TomlError α := .error .malformed

def ofOption {α : Type} : Option α → Except TomlError α
  | some a => .ok a
  | none => malformed

def digitRun (isDigit : Char → Bool) : List Char → List Char
  | [] => []
  | c :: s =>
    if isDigit c then
      c :: match s with
        | '_' :: d :: rest => if isDigit d then '_' :: digitRun isDigit (d :: rest) else []
        | s => digitRun isDigit s
    else []

def ofRun (base : Nat) (run : List Char) : Nat :=
  run.foldl (fun n c => match Json.hexValue? c with
    | some d => base * n + d
    | none => n) 0

def basedNumber? (s : List Char) : Option (Toml × List Char) :=
  let run (base : Nat) (isDigit : Char → Bool) (s : List Char) :=
    let digits := digitRun isDigit s
    if digits.isEmpty then none else some (Toml.int (ofRun base digits), s.drop digits.length)
  match s with
  | '0' :: 'x' :: s => run 16 (fun c => (Json.hexValue? c).isSome) s
  | '0' :: 'b' :: s => run 2 (fun c => c == '0' || c == '1') s
  | '0' :: 'o' :: s => run 8 (fun c => c.isDigit && c != '8' && c != '9') s
  | _ => none

def decimalNumber? (s : List Char) : Option (Except TomlError Toml × List Char) :=
  let sign := match s with
    | '+' :: _ => ['+']
    | '-' :: _ => ['-']
    | _ => []
  let s := s.drop sign.length
  let whole := match s with
    | '0' :: _ => ['0']
    | s => digitRun Char.isDigit s
  let s := s.drop whole.length
  let fraction := match s with
    | '.' :: s =>
      let digits := digitRun Char.isDigit s
      if digits.isEmpty then [] else '.' :: digits
    | _ => []
  let s := s.drop fraction.length
  let exponent := match s with
    | [] => []
    | e :: s =>
      let sign := match s with
        | '+' :: _ => ['+']
        | '-' :: _ => ['-']
        | _ => []
      let digits := digitRun Char.isDigit (s.drop sign.length)
      if (e = 'e' ∨ e = 'E') ∧ !digits.isEmpty then e :: sign ++ digits else []
  let s := s.drop exponent.length
  let text := String.ofList (sign ++ whole ++ fraction ++ exponent)
  if whole.isEmpty then none
  else if fraction.isEmpty && exponent.isEmpty then
    match Text.readInt text with
    | .ok n => some (.ok (.int n), s)
    | .error e => some (.error (.numeral e), s)
  else
    match Binary64.read? text with
    | some x => some (.ok (.real x), s)
    | none => some (malformed, s)

def specialNumber? (s : List Char) : Option (Toml × List Char) :=
  let (negative, rest) := Text.readSign s
  match Json.dropWord? ['i', 'n', 'f'] rest, Json.dropWord? ['n', 'a', 'n'] rest with
  | some s, _ => some (.real (.infinite negative), s)
  | _, some s => some (.real (.nan negative), s)
  | _, _ => none

def readAtom (s : List Char) : Except TomlError (Toml × List Char) :=
  match s with
  | [] => malformed
  | c :: _ =>
    if c = '\x22' ∨ c = '\x27' then
      ofOption ((readText? s).map fun p => (.text (String.ofList p.1), p.2))
    else match Json.dropWord? ['t', 'r', 'u', 'e'] s,
        Json.dropWord? ['f', 'a', 'l', 's', 'e'] s with
      | some s, _ => .ok (.bool true, s)
      | _, some s => .ok (.bool false, s)
      | none, none =>
        match moment? s with
        | some none => malformed
        | some (some (.date, s)) => .ok (.date, s)
        | some (some (.time, s)) => .ok (.time, s)
        | some (some (.dateTime, s)) => .ok (.dateTime, s)
        | none =>
          match basedNumber? s with
          | some p => .ok p
          | none =>
            match decimalNumber? s with
            | some (v, s) => v.map fun v => (v, s)
            | none => ofOption (specialNumber? s)

def skipFiller (inRemark : Bool) : List Char → Option (List Char)
  | [] => some []
  | c :: s =>
    if inRemark then
      if c = '\n' then skipFiller false s
      else if isForbidden c then none
      else skipFiller true s
    else if isSpace c ∨ c = '\n' then skipFiller false s
    else if c = '#' then skipFiller true s
    else some (c :: s)

def isInside (frozen : List (List String)) (path : List String) : Bool :=
  frozen.any fun p => p.isPrefixOf path

mutual

/-- A value at the start of a text. Every call for a part takes one off the fuel. -/
def readValue : Nat → List Char → Except TomlError (Toml × List Char)
  | 0, _ => malformed
  | fuel + 1, s =>
    match s with
    | '[' :: s => do
      match ← ofOption (skipFiller false s) with
      | ']' :: s => return (.list [], s)
      | s =>
        let (items, s) ← readItems fuel s
        return (.list items, s)
    | '\x7b' :: s =>
      match skipSpace s with
      | '\x7d' :: s => .ok (.table [], s)
      | s => do
        let (entries, s) ← readEntries fuel [] [] s
        return (.table entries, s)
    | s => readAtom s

def readItems : Nat → List Char → Except TomlError (List Toml × List Char)
  | 0, _ => malformed
  | fuel + 1, s => do
    let (v, s) ← readValue fuel s
    match ← ofOption (skipFiller false s) with
    | ']' :: s => return ([v], s)
    | ',' :: s =>
      match ← ofOption (skipFiller false s) with
      | ']' :: s => return ([v], s)
      | s =>
        let (items, s) ← readItems fuel s
        return (v :: items, s)
    | _ => malformed

def readEntries :
    Nat → List (List String) → Entries → List Char → Except TomlError (Entries × List Char)
  | 0, _, _, _ => malformed
  | fuel + 1, frozen, t, s => do
    let (key, v, s) ← readPair fuel s
    if isInside frozen key then malformed
    match key.getLast? with
    | none => malformed
    | some last =>
      let t ← ofOption (atPath false (insert last v) key.dropLast t)
      match skipSpace s with
      | '\x7d' :: s => return (t, s)
      | ',' :: s =>
        readEntries fuel (if v.isNest then key :: frozen else frozen) t (skipSpace s)
      | _ => malformed

def readPair : Nat → List Char → Except TomlError (List String × Toml × List Char)
  | 0, _ => malformed
  | fuel + 1, s => do
    let (key, s) ← ofOption (readKey s)
    match s with
    | '=' :: s =>
      let (v, s) ← readValue fuel (skipSpace s)
      return (key, v, s)
    | _ => malformed

end

/-- A document that has been read in part. -/
structure Document where
  entries : Entries
  header : List String
  declared : List (List String)
  dotted : List (List String)
  frozen : List (List String)
  deriving Repr

namespace Document

def empty : Document := ⟨[], [], [], [], []⟩

def beginnings (key : List String) : List (List String) :=
  (List.range (key.length - 1)).map fun i => key.take (i + 1)

def addEntry (d : Document) (key : List String) (v : Toml) : Except TomlError Document := do
  let inner := (beginnings key).map (d.header ++ ·)
  if inner.any d.declared.contains then malformed
  let parent := d.header ++ key.dropLast
  if isInside d.frozen parent then malformed
  match key.getLast? with
  | none => malformed
  | some last =>
    let entries ← ofOption (atPath true (insert last v) parent d.entries)
    return { d with
      entries := entries
      dotted := inner ++ d.dotted
      frozen := if v.isNest then (d.header ++ key) :: d.frozen else d.frozen }

/-- What a header does before its own table: the tables of dotted keys count as declared. -/
def closeSection (d : Document) : Document :=
  { d with declared := d.dotted ++ d.declared, dotted := [] }

def openTable (d : Document) (key : List String) : Except TomlError Document := do
  let d := d.closeSection
  if d.declared.contains key || isInside d.frozen key then malformed
  let entries ← ofOption (atPath true some key d.entries)
  return { d with entries := entries, header := key, declared := key :: d.declared }

def openListTable (d : Document) (key : List String) : Except TomlError Document := do
  let d := d.closeSection
  if isInside d.frozen key then malformed
  match key.getLast? with
  | none => malformed
  | some last =>
    let entries ← ofOption (atPath true (appendTable last) key.dropLast d.entries)
    return { d with
      entries := entries
      header := key
      declared := key :: d.declared.filter fun p => !key.isPrefixOf p
      frozen := d.frozen.filter fun p => !key.isPrefixOf p }

end Document

def skipRemark : Bool → List Char → Option (List Char)
  | _, [] => some []
  | false, c :: s => if c = '#' then skipRemark true s else some (c :: s)
  | true, c :: s =>
    if c = '\n' then some (c :: s)
    else if isForbidden c then none
    else skipRemark true s

def readStatement (fuel : Nat) (d : Document) (s : List Char) :
    Except TomlError (Document × List Char) :=
  match s with
  | '[' :: '[' :: s => do
    let (key, s) ← ofOption (readKey (skipSpace s))
    let d ← d.openListTable key
    match s with
    | ']' :: ']' :: s => return (d, skipSpace s)
    | _ => malformed
  | '[' :: s => do
    let (key, s) ← ofOption (readKey (skipSpace s))
    let d ← d.openTable key
    match s with
    | ']' :: s => return (d, skipSpace s)
    | _ => malformed
  | '#' :: _ => .ok (d, s)
  | _ => do
    let (key, v, s) ← readPair fuel s
    let d ← d.addEntry key v
    return (d, skipSpace s)

def readLines (fuel : Nat) : Nat → Document → List Char → Except TomlError Document
  | 0, _, _ => malformed
  | more + 1, d, s =>
    match skipSpace s with
    | [] => .ok d
    | '\n' :: s => readLines fuel more d s
    | s => do
      let (d, s) ← readStatement fuel d s
      match ← ofOption (skipRemark false s) with
      | [] => return d
      | '\n' :: s => readLines fuel more d s
      | _ => malformed

def read (s : List Char) : Except TomlError Entries :=
  (readLines (2 * s.length + 4) (s.length + 1) .empty s).map Document.entries

end TapeLab.Toml
