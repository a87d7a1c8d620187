/-!
Console markup. A tag is a bracketed text such as `[red]` or `[/]`: a bracket, a small letter or
one of `#`, `/`, `@`, further characters other than an opening bracket, and a closing bracket.
`escape` puts backslashes before whatever would be read as a tag.
-/

namespace TapeLab.Text

def startsTag (c : Char) : Bool :=
  c.isLower || c == '#' || c == '/' || c == '@'

def closesTag : List Char → Bool
  | [] => false
  | c :: s => c = ']' || (c != '[' && closesTag s)

def opensTag : List Char → Bool
  | [] => false
  | c :: s => startsTag c && closesTag s

mutual

/-- Escapes a text that stands behind `slashes` backslashes not yet written. The backslashes before
a tag are doubled, and one more is put before its bracket. -/
def escapeAfter (slashes : Nat) : List Char → List Char
  | [] => List.replicate slashes '\\'
  | c :: s =>
    if c = '\\' then escapeAfter (slashes + 1) s
    else if c = '[' && opensTag s then
      List.replicate (2 * slashes + 1) '\\' ++ '[' :: copyTag s
    else List.replicate slashes '\\' ++ c :: escapeAfter 0 s

def copyTag : List Char → List Char
  | [] => []
  | c :: s => c :: if c = ']' then escapeAfter 0 s else copyTag s

end

/-- Doubles a single backslash at the end, which would otherwise escape a tag that is put behind. -/
def guardEnd (s : List Char) : List Char :=
  match s.reverse with
  | '\\' :: '\\' :: _ => s
  | '\\' :: _ => s ++ ['\\']
  | _ => s

def escape (s : String) : String := String.ofList (guardEnd (escapeAfter 0 s.toList))

end TapeLab.Text
