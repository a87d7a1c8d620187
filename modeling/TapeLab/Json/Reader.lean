import TapeLab.Json.Value
import TapeLab.Text.Numeral

/-!
Reading JSON. White space may stand around values, and `NaN`, `Infinity` and `-Infinity` are read
too. A whole number has at most `Text.maxDigits` digits.
-/

namespace TapeLab.Json

def isSpace (c : Char) : Bool := c == ' ' || c == '\t' || c == '\n' || c == '\r'

def skipSpace (s : List Char) : List Char := s.dropWhile isSpace

def hexValue? (c : Char) : Option Nat :=
  let n := c.toNat
  if 48 ≤ n ∧ n ≤ 57 then some (n - 48)
  else if 97 ≤ n ∧ n ≤ 102 then some (n - 87)
  else if 65 ≤ n ∧ n ≤ 70 then some (n - 55)
  else none

def hexCode? (a b c d : Char) : Option Nat := do
  let a ← hexValue? a
  let b ← hexValue? b
  let c ← hexValue? c
  let d ← hexValue? d
  return ((a * 16 + b) * 16 + c) * 16 + d

def isHighSurrogate (n : Nat) : Bool := 0xD800 ≤ n && n ≤ 0xDBFF

def isLowSurrogate (n : Nat) : Bool := 0xDC00 ≤ n && n ≤ 0xDFFF

/-- The character of a code unit that is no part of a pair; the replacement character stands for
half a pair. -/
def unitChar (n : Nat) : Char :=
  if isHighSurrogate n || isLowSurrogate n then '\uFFFD' else Char.ofNat n

def shortEscape? (c : Char) : Option Char :=
  if c = '\x22' ∨ c = '\\' ∨ c = '/' then some c
  else if c = 'n' then some '\n'
  else if c = 'r' then some '\r'
  else if c = 't' then some '\t'
  else if c = 'b' then some '\x08'
  else if c = 'f' then some '\x0c'
  else none

def readText : List Char → Option (List Char × List Char)
  | [] => none
  | '\x22' :: s => some ([], s)
  | '\\' :: 'u' :: a :: b :: c :: d :: '\\' :: 'u' :: e :: f :: g :: h :: s => do
    let high ← hexCode? a b c d
    if isHighSurrogate high then
      let low ← hexCode? e f g h
      if isLowSurrogate low then
        let code := 0x10000 + (high - 0xD800) * 0x400 + (low - 0xDC00)
        let (chars, rest) ← readText s
        return (Char.ofNat code :: chars, rest)
    let (chars, rest) ← readText ('\\' :: 'u' :: e :: f :: g :: h :: s)
    return (unitChar high :: chars, rest)
  | '\\' :: 'u' :: a :: b :: c :: d :: s => do
    let code ← hexCode? a b c d
    let (chars, rest) ← readText s
    return (unitChar code :: chars, rest)
  | '\\' :: c :: s => do
    let c ← shortEscape? c
    let (chars, rest) ← readText s
    return (c :: chars, rest)
  | c :: s => do
    if c = '\\' ∨ c.toNat < 0x20 then none
    let (chars, rest) ← readText s
    return (c :: chars, rest)

def digits (s : List Char) : List Char := s.takeWhile Char.isDigit

def ofDigits (s : List Char) : Nat := s.foldl (fun n c => 10 * n + (c.toNat - 48)) 0

def wholeDigits (s : List Char) : List Char :=
  match s with
  | '0' :: _ => ['0']
  | _ => digits s

def fractionPart (s : List Char) : List Char :=
  match s with
  | '.' :: s => if (digits s).isEmpty then [] else '.' :: digits s
  | _ => []

def exponentPart (s : List Char) : List Char :=
  match s with
  | [] => []
  | e :: s =>
    if e = 'e' ∨ e = 'E' then
      let sign := match s with
        | '+' :: _ => ['+']
        | '-' :: _ => ['-']
        | _ => []
      let ds := digits (s.drop sign.length)
      if ds.isEmpty then [] else e :: sign ++ ds
    else []

def readNumber (negative : Bool) (s : List Char) : Option (Json × List Char) :=
  let whole := wholeDigits s
  let s := s.drop whole.length
  let fraction := fractionPart s
  let s := s.drop fraction.length
  let exponent := exponentPart s
  let s := s.drop exponent.length
  if whole.isEmpty then none
  else if fraction.isEmpty && exponent.isEmpty then
    if Text.maxDigits < whole.length then none
    else some (.int (if negative then -(ofDigits whole : Int) else ofDigits whole), s)
  else
    let sign := if negative then ['-'] else []
    some (.real (String.ofList (sign ++ whole ++ fraction ++ exponent)), s)

def dropWord? : List Char → List Char → Option (List Char)
  | [], s => some s
  | _ :: _, [] => none
  | w :: word, c :: s => if w = c then dropWord? word s else none

def readWord (s : List Char) : Option (Json × List Char) :=
  let named (word : String) (v : Json) := (dropWord? word.toList s).map fun rest => (v, rest)
  named "null" .null <|> named "true" (.bool true) <|> named "false" (.bool false) <|>
    named "NaN" (.real "NaN") <|> named "Infinity" (.real "Infinity") <|>
    named "-Infinity" (.real "-Infinity")

mutual

/-- A value at the start of a text, and what follows it. Every call for a part takes one off the
fuel, and no text of `n` characters asks for more than `2 * n + 1` of it. -/
def readValue : Nat → List Char → Option (Json × List Char)
  | 0, _ => none
  | fuel + 1, s =>
    match s with
    | [] => none
    | '\x22' :: s => (readText s).map fun p => (.text (String.ofList p.1), p.2)
    | '[' :: s =>
      match skipSpace s with
      | ']' :: s => some (.list [], s)
      | s => (readItems fuel s).map fun p => (.list p.1, p.2)
    | '\x7b' :: s =>
      match skipSpace s with
      | '\x7d' :: s => some (.record [], s)
      | s => (readFields fuel s).map fun p => (.record p.1, p.2)
    | '-' :: rest => readNumber true rest <|> readWord s
    | c :: _ => if c.isDigit then readNumber false s else readWord s

def readItems : Nat → List Char → Option (List Json × List Char)
  | 0, _ => none
  | fuel + 1, s => do
    let (v, s) ← readValue fuel s
    match skipSpace s with
    | ']' :: s => return ([v], s)
    | ',' :: s =>
      let (items, s) ← readItems fuel (skipSpace s)
      return (v :: items, s)
    | _ => none

def readFields : Nat → List Char → Option (List (String × Json) × List Char)
  | 0, _ => none
  | fuel + 1, s =>
    match s with
    | '\x22' :: s => do
      let (key, s) ← readText s
      match skipSpace s with
      | ':' :: s =>
        let (v, s) ← readValue fuel (skipSpace s)
        match skipSpace s with
        | '\x7d' :: s => return ([(String.ofList key, v)], s)
        | ',' :: s =>
          let (fields, s) ← readFields fuel (skipSpace s)
          return ((String.ofList key, v) :: fields, s)
        | _ => none
      | _ => none
    | _ => none

end

def read? (s : List Char) : Option Json := do
  let (v, rest) ← readValue (2 * s.length + 2) (skipSpace s)
  if (skipSpace rest).isEmpty then return v else none

end TapeLab.Json
