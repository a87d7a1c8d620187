import TapeLab.Json.Reader

/-!
Texts and keys in TOML. Texts in double quotes have escapes, texts in single quotes have none; in
three quotes they may go over several lines.
-/

namespace TapeLab.Toml

def isForbidden (c : Char) : Bool := (c.toNat < 0x20 && c != '\t') || c.toNat == 0x7F

def isSpace (c : Char) : Bool := c == ' ' || c == '\t'

def skipSpace (s : List Char) : List Char := s.dropWhile isSpace

def scalar? (code : Nat) : Option Char :=
  if code < 0xD800 ∨ (0xE000 ≤ code ∧ code < 0x110000) then some (Char.ofNat code) else none

def shortEscape? (c : Char) : Option Char :=
  if c = 'b' then some '\x08'
  else if c = 't' then some '\t'
  else if c = 'n' then some '\n'
  else if c = 'f' then some '\x0c'
  else if c = 'r' then some '\r'
  else if c = '\x22' ∨ c = '\\' then some c
  else none

def cons? (c : Option Char) (p : Option (List Char × List Char)) : Option (List Char × List Char) :=
  match c, p with
  | some c, some (text, rest) => some (c :: text, rest)
  | _, _ => none

def longCode? (a b c d e f g h : Char) : Option Char := do
  scalar? ((← Json.hexCode? a b c d) * 0x10000 + (← Json.hexCode? e f g h))

def readBasic : List Char → Option (List Char × List Char)
  | [] => none
  | '\x22' :: s => some ([], s)
  | '\\' :: 'U' :: a :: b :: c :: d :: e :: f :: g :: h :: s =>
    cons? (longCode? a b c d e f g h) (readBasic s)
  | '\\' :: 'u' :: a :: b :: c :: d :: s =>
    cons? (Json.hexCode? a b c d >>= scalar?) (readBasic s)
  | '\\' :: c :: s => cons? (shortEscape? c) (readBasic s)
  | c :: s => if c = '\\' ∨ isForbidden c then none else cons? (some c) (readBasic s)

/-- What a reader of a text over several lines is about: characters, the blanks that must end a line
behind a backslash, or the blanks and line ends after such a line. -/
inductive Trim
  | none
  | restOfLine
  | blanks
  deriving DecidableEq, Repr

/-- A text in three double quotes, from behind its opening quotes. A backslash at the end of a line
drops the line end and the blanks after it. -/
def readLongBasic : Trim → List Char → Option (List Char × List Char)
  | _, [] => none
  | .restOfLine, c :: s =>
    if isSpace c then readLongBasic .restOfLine s
    else if c = '\n' then readLongBasic .blanks s
    else none
  | _, '\x22' :: '\x22' :: '\x22' :: s => some ([], s)
  | _, '\\' :: 'U' :: a :: b :: c :: d :: e :: f :: g :: h :: s =>
    cons? (longCode? a b c d e f g h) (readLongBasic .none s)
  | _, '\\' :: 'u' :: a :: b :: c :: d :: s =>
    cons? (Json.hexCode? a b c d >>= scalar?) (readLongBasic .none s)
  | _, '\\' :: c :: s =>
    if isSpace c then readLongBasic .restOfLine s
    else if c = '\n' then readLongBasic .blanks s
    else cons? (shortEscape? c) (readLongBasic .none s)
  | trim, c :: s =>
    if trim = .blanks ∧ (isSpace c ∨ c = '\n') then readLongBasic .blanks s
    else if c = '\\' ∨ (isForbidden c ∧ c ≠ '\n') then none
    else cons? (some c) (readLongBasic .none s)

def readLiteral : List Char → Option (List Char × List Char)
  | [] => none
  | '\x27' :: s => some ([], s)
  | c :: s => if isForbidden c then none else cons? (some c) (readLiteral s)

def readLongLiteral : List Char → Option (List Char × List Char)
  | [] => none
  | '\x27' :: '\x27' :: '\x27' :: s => some ([], s)
  | c :: s => if isForbidden c ∧ c ≠ '\n' then none else cons? (some c) (readLongLiteral s)

def takeQuotes (mark : Char) (p : List Char × List Char) : List Char × List Char :=
  match p.2 with
  | [] => p
  | a :: s =>
    if a = mark then
      match s with
      | b :: s => if b = mark then (p.1 ++ [mark, mark], s) else (p.1 ++ [mark], b :: s)
      | [] => (p.1 ++ [mark], [])
    else p

def skipNewline : List Char → List Char
  | '\n' :: s => s
  | s => s

def readText? (s : List Char) : Option (List Char × List Char) :=
  match s with
  | '\x22' :: '\x22' :: '\x22' :: s =>
    (readLongBasic .none (skipNewline s)).map (takeQuotes '\x22')
  | '\x22' :: s => readBasic s
  | '\x27' :: '\x27' :: '\x27' :: s =>
    (readLongLiteral (skipNewline s)).map (takeQuotes '\x27')
  | '\x27' :: s => readLiteral s
  | _ => none

def isBareKey (c : Char) : Bool := c.isAlphanum || c == '-' || c == '_'

def readKeyPart : List Char → Option (String × List Char)
  | [] => none
  | c :: s =>
    if isBareKey c then
      some (String.ofList ((c :: s).takeWhile isBareKey), (c :: s).dropWhile isBareKey)
    else if c = '\x22' then (readBasic s).map fun p => (String.ofList p.1, p.2)
    else if c = '\x27' then (readLiteral s).map fun p => (String.ofList p.1, p.2)
    else none

def readKeyParts : Nat → List Char → Option (List String × List Char)
  | 0, _ => none
  | fuel + 1, s => do
    let (part, s) ← readKeyPart s
    match skipSpace s with
    | '.' :: s =>
      let (parts, s) ← readKeyParts fuel (skipSpace s)
      return (part :: parts, s)
    | s => return ([part], s)

def readKey (s : List Char) : Option (List String × List Char) := readKeyParts s.length s

end TapeLab.Toml
