import TapeLab.Json.Value
import TapeLab.Text.Quoted

/-!
JSON values as text, on one line, with a space behind each comma and colon. Only the quote, the
backslash and control characters are escaped.
-/

namespace TapeLab.Json

def escapeChar (c : Char) : List Char :=
  if c = '\x22' then ['\\', '\x22']
  else if c = '\\' then ['\\', '\\']
  else if c = '\n' then ['\\', 'n']
  else if c = '\r' then ['\\', 'r']
  else if c = '\t' then ['\\', 't']
  else if c = '\x08' then ['\\', 'b']
  else if c = '\x0c' then ['\\', 'f']
  else if c.toNat < 0x20 then '\\' :: 'u' :: Text.hexText 4 c.toNat
  else [c]

def printText (s : String) : List Char :=
  '\x22' :: s.toList.flatMap escapeChar ++ ['\x22']

def printInt (n : Int) : List Char := (toString n).toList

mutual

def print : Json → List Char
  | null => ['n', 'u', 'l', 'l']
  | bool true => ['t', 'r', 'u', 'e']
  | bool false => ['f', 'a', 'l', 's', 'e']
  | int n => printInt n
  | real form => form.toList
  | text s => printText s
  | list [] => ['[', ']']
  | list (v :: items) => '[' :: print v ++ printItems items
  | record [] => ['\x7b', '\x7d']
  | record ((k, v) :: fields) =>
    '\x7b' :: printText k ++ ':' :: ' ' :: print v ++ printFields fields

def printItems : List Json → List Char
  | [] => [']']
  | v :: items => ',' :: ' ' :: print v ++ printItems items

def printFields : List (String × Json) → List Char
  | [] => ['\x7d']
  | (k, v) :: fields =>
    ',' :: ' ' :: printText k ++ ':' :: ' ' :: print v ++ printFields fields

end

def toText (v : Json) : String := String.ofList v.print

end TapeLab.Json
