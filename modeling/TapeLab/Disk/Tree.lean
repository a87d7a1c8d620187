import TapeLab.Disk.Path
import TapeLab.Text.Quoted

/-!
A tree of files and folders, seen from the current folder, with the faults that reading and writing
can meet.
-/

namespace TapeLab

inductive FileCause
  | notFound
  | exists
  | notFolder
  | isFolder
  | nameTooLong
  deriving DecidableEq, Repr

inductive FileError
  | refused (cause : FileCause) (path : Path)
  /-- The path has the character zero in it, so that it can name nothing. -/
  | nullByte
  deriving DecidableEq, Repr

def FileCause.number : FileCause → Nat
  | notFound => 2
  | .exists => 17
  | notFolder => 20
  | isFolder => 21
  | nameTooLong => 36

def FileCause.text : FileCause → String
  | notFound => "No such file or directory"
  | .exists => "File exists"
  | notFolder => "Not a directory"
  | isFolder => "Is a directory"
  | nameTooLong => "File name too long"

namespace FileError

def message : FileError → String
  | refused cause path =>
    s!"[Errno {cause.number}] {cause.text}: " ++ Text.quoted path.toText
  | nullByte => "embedded null byte"

def isRefusal : FileError → Bool
  | refused _ _ => true
  | nullByte => false

def isNotFound : FileError → Bool
  | refused .notFound _ => true
  | _ => false

end FileError

inductive Node
  | file (bytes : List UInt8)
  | folder
  deriving DecidableEq, Repr

/-- What there is at a place. A place is the parts of a path; those of a path with a root come after
that root. Most places are told apart by how many parts they have. -/
structure Tree.Entry where
  depth : Nat
  place : List String
  node : Node
  deriving DecidableEq, Repr

def Tree.Entry.isAt (e : Tree.Entry) (depth : Nat) (place : List String) : Bool :=
  e.depth == depth && e.place == place

structure Tree where
  entries : List Tree.Entry
  deriving DecidableEq, Repr

namespace Tree

def empty : Tree := ⟨[]⟩

def isAbove (place : List String) : Bool :=
  place.all fun p => p == ".." || p == "/" || p == "//"

def node? (t : Tree) (place : List String) : Option Node :=
  if isAbove place then some .folder
  else
    let depth := place.length
    (t.entries.find? fun e => e.isAt depth place).map Entry.node

def remove (t : Tree) (place : List String) : Tree :=
  let depth := place.length
  ⟨t.entries.filter fun e => !e.isAt depth place⟩

def put (t : Tree) (place : List String) (node : Node) : Tree :=
  ⟨⟨place.length, place, node⟩ :: (t.remove place).entries⟩

theorem node?_put_self (t : Tree) (place : List String) (node : Node)
    (below : isAbove place = false) : (t.put place node).node? place = some node := by
  simp [node?, put, below, Entry.isAt]

theorem node?_put_of_ne (t : Tree) {place other : List String} (node : Node)
    (differs : other ≠ place) : (t.put place node).node? other = t.node? other := by
  have skip : (fun e : Entry =>
      decide ((!e.isAt place.length place) = true ∧ e.isAt other.length other = true)) =
        fun e => e.isAt other.length other := by
    funext e
    rw [Bool.eq_iff_iff]
    by_cases here : e.place = other <;> simp [Entry.isAt, here, differs]
  have first : Entry.isAt ⟨place.length, place, node⟩ other.length other = false := by
    simp [Entry.isAt, Ne.symm differs]
  simp only [node?, put, remove, List.find?_cons, first, List.find?_filter, skip]

def descend (place : List String) (part : String) : List String :=
  if part = ".." then
    match place.getLast? with
    | none => [".."]
    | some ".." => place ++ [".."]
    | some "/" | some "//" => place
    | some _ => place.dropLast
  else place ++ [part]

def longestPart : Nat := 255

def longestPath : Nat := 4095

def walk (t : Tree) : List String → List String → Except FileCause (List String)
  | place, [] => .ok place
  | place, part :: parts =>
    match t.node? place with
    | none => .error .notFound
    | some (.file _) => .error .notFolder
    | some .folder =>
      if longestPart < part.utf8ByteSize then .error .nameTooLong
      else t.walk (descend place part) parts

/-- The place that a path leads to. All folders on the way must be there, the place itself need
not. -/
def resolve (t : Tree) (p : Path) : Except FileError (List String) :=
  if p.hasNull then .error .nullByte
  else if longestPath < p.toText.utf8ByteSize then .error (.refused .nameTooLong p)
  else match t.walk p.start p.parts with
    | .error cause => .error (.refused cause p)
    | .ok place => .ok place

def read (t : Tree) (p : Path) : Except FileError (List UInt8) := do
  let place ← t.resolve p
  match t.node? place with
  | none => throw (.refused .notFound p)
  | some .folder => throw (.refused .isFolder p)
  | some (.file bytes) => return bytes

def isFile (t : Tree) (p : Path) : Bool := (t.read p).isOk

def orUnchanged (t : Tree) : Except FileError Tree → Tree × Option FileError
  | .ok t => (t, none)
  | .error e => (t, some e)

/-- Goes on from a folder through the parts of a path, making the folders that are missing. `taken`
is the path so far; a fault names the path up to the part that it met. -/
def makeAlong (t : Tree) (place : List String) (taken : Path) :
    List String → Tree × Option FileError
  | [] => (t, none)
  | part :: parts =>
    let taken := taken.child part
    if longestPart < part.utf8ByteSize then (t, some (.refused .nameTooLong taken))
    else
      let next := descend place part
      match t.node? next with
      | some (.file _) => (t, some (.refused .exists taken))
      | some .folder => t.makeAlong next taken parts
      | none => (t.put next .folder).makeAlong next taken parts

/-- Makes a folder and the folders above it that are missing. Folders that have been made stay if a
further one cannot be made; nothing is made if something else than a missing folder is in the
way. -/
def makeFolders (t : Tree) (p : Path) : Tree × Option FileError :=
  match t.resolve p with
  | .ok _ => t.makeAlong p.start ⟨p.root, []⟩ p.parts
  | .error e =>
    if e.isNotFound then t.makeAlong p.start ⟨p.root, []⟩ p.parts else (t, some e)

/-- The name under which a file is written before it takes its place. The letters stand for random
ones. -/
def draftPath (p : Path) : Path := p.sibling (p.stem ++ "-xxxxxxxx.tmp")

/-- Puts a file into its folder. It is written under another name first, so that one that cannot be
written leaves no trace. -/
def putFile (t : Tree) (p : Path) (bytes : List UInt8) : Except FileError Tree := do
  let _ ← t.resolve (draftPath p)
  let place ← t.resolve p
  match t.node? place with
  | some .folder => throw (.refused .isFolder p)
  | _ => return t.put place (.file bytes)

def write (t : Tree) (p : Path) (bytes : List UInt8) : Tree × Option FileError :=
  match t.makeFolders p.parent with
  | (t, none) => t.orUnchanged (t.putFile p bytes)
  | failed => failed

/-- Begins to write a file that is never finished: its folders are made. -/
def beginWrite (t : Tree) (p : Path) : Tree × Option FileError :=
  match t.makeFolders p.parent with
  | (t, none) =>
    match t.resolve (draftPath p) with
    | .ok _ => (t, none)
    | .error e => (t, some e)
  | failed => failed

def unlink (t : Tree) (p : Path) : Except FileError Tree :=
  match t.resolve p with
  | .error e => if e.isNotFound then .ok t else .error e
  | .ok place =>
    match t.node? place with
    | none => .ok t
    | some .folder => .error (.refused .isFolder p)
    | some (.file _) => .ok (t.remove place)

def files (t : Tree) : List String :=
  t.entries.filterMap fun e =>
    match e.place, e.node with
    | first :: rest, .file _ =>
      if first = "/" ∨ first = "//" ∨ first = ".." then none
      else some ("/".intercalate (first :: rest))
    | _, _ => none

end Tree

end TapeLab
