/-!
Paths of files. A path is kept without empty parts and without single points, so that two spellings
of one path are equal; steps to the parent folder stay.
-/

namespace TapeLab

/-- A path. Its root is empty if it starts from the current folder, else one or two slashes. -/
structure Path where
  root : String
  parts : List String
  deriving DecidableEq, Repr

namespace Path

def pieces : List Char → List (List Char)
  | [] => [[]]
  | c :: s =>
    if c = '/' then [] :: pieces s
    else match pieces s with
      | [] => [[c]]
      | p :: ps => (c :: p) :: ps

def ofText (text : String) : Path where
  root := match text.toList with
    | '/' :: '/' :: '/' :: _ => "/"
    | '/' :: '/' :: _ => "//"
    | '/' :: _ => "/"
    | _ => ""
  parts := ((pieces text.toList).map String.ofList).filter fun p => p ≠ "" ∧ p ≠ "."

def toText (p : Path) : String :=
  if p.root = "" ∧ p.parts = [] then "." else p.root ++ "/".intercalate p.parts

def parent (p : Path) : Path := { p with parts := p.parts.dropLast }

def name (p : Path) : String := (p.parts.getLast?).getD ""

def beforePoint? (name : List Char) : Option (List Char) :=
  match name.reverse.span (· ≠ '.') with
  | (_ :: _, _ :: c :: front) => some (c :: front).reverse
  | _ => none

/-- The name of a file without its extension. A point at either end of a name begins no
extension. -/
def stem (p : Path) : String :=
  ((beforePoint? p.name.toList).map String.ofList).getD p.name

def start (p : Path) : List String := if p.root = "" then [] else [p.root]

def child (p : Path) (part : String) : Path := { p with parts := p.parts ++ [part] }

def sibling (p : Path) (name : String) : Path := { p with parts := p.parts.dropLast ++ [name] }

def hasNull (p : Path) : Bool := p.parts.any fun s => s.contains '\x00'

inductive HomeError
  | unknownUser
  | nullByte
  deriving DecidableEq, Repr

def HomeError.message : HomeError → String
  | unknownUser => "Could not determine home directory."
  | nullByte => "embedded null byte"

/-- The home folder that a tilde with a name behind it stands for, where `home` is one's own. Of the
others only the administrator is known. -/
def homeOf (home : Path) (name : String) : Except HomeError Path :=
  if name = "" then .ok home
  else if name = "root" then .ok (.ofText "/root")
  else if name.contains '\x00' then .error .nullByte
  else .error .unknownUser

def expandHome (p home : Path) : Except HomeError Path :=
  match p.root, p.parts with
  | "", first :: rest =>
    match first.toList with
    | '~' :: name =>
      (homeOf home (String.ofList name)).map fun h => { h with parts := h.parts ++ rest }
    | _ => .ok p
  | _, _ => .ok p

end Path

end TapeLab
