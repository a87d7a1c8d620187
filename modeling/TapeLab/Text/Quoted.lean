import TapeLab.Text.HiddenTable

/-!
Texts in quotes, as error messages show file names and numerals. Single quotes are used unless the
text holds one and no double quote. Backslashes, the quote in use and characters that cannot be
seen are escaped.
-/

namespace TapeLab.Text

def hexDigit (n : Nat) : Char :=
  if n < 10 then Char.ofNat (48 + n) else Char.ofNat (87 + n)

def hexText : Nat → Nat → List Char
  | 0, _ => []
  | width + 1, n => hexText width (n / 16) ++ [hexDigit (n % 16)]

def escapeQuoted (mark c : Char) : List Char :=
  if c = mark ∨ c = '\\' then ['\\', c]
  else if c = '\n' then ['\\', 'n']
  else if c = '\r' then ['\\', 'r']
  else if c = '\t' then ['\\', 't']
  else if isHidden c then
    if c.toNat < 0x100 then '\\' :: 'x' :: hexText 2 c.toNat
    else if c.toNat < 0x10000 then '\\' :: 'u' :: hexText 4 c.toNat
    else '\\' :: 'U' :: hexText 8 c.toNat
  else [c]

def quoted (s : String) : String :=
  let mark := if s.contains '\x27' && !s.contains '\x22' then '\x22' else '\x27'
  String.ofList (mark :: s.toList.flatMap (escapeQuoted mark) ++ [mark])

end TapeLab.Text
