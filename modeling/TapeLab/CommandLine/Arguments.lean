/-!
Arguments of commands. An option is named by two dashes and a word, or by one dash and a letter;
its value is joined to the word by an equals sign, joined to the letter, or the next argument.
Letters of options without values can share one dash. After two dashes alone no argument is an
option.
-/

namespace TapeLab.CommandLine

/-- An option that a command knows. -/
structure Knob (κ : Type) where
  key : κ
  word : String
  letter : Option Char
  takesValue : Bool

structure Given (κ : Type) where
  key : κ
  value : String
  deriving DecidableEq, Repr

structure Arguments (κ : Type) where
  options : List (Given κ)
  others : List String
  deriving DecidableEq, Repr

structure Reading (κ : Type) where
  options : List (Given κ)
  waiting : Option κ

namespace Knob

variable {κ : Type}

def byWord? (knobs : List (Knob κ)) (word : String) : Option (Knob κ) :=
  knobs.find? fun k => k.word == word

def byLetter? (knobs : List (Knob κ)) (letter : Char) : Option (Knob κ) :=
  knobs.find? fun k => k.letter == some letter

end Knob

variable {κ : Type}

def splitValue : List Char → List Char × Option (List Char)
  | [] => ([], none)
  | '=' :: s => ([], some s)
  | c :: s => let (name, value) := splitValue s; (c :: name, value)

def readWord? (knobs : List (Knob κ)) (text : List Char) : Option (Reading κ) :=
  let (word, value) := splitValue text
  match Knob.byWord? knobs (String.ofList word), value with
  | none, _ => none
  | some k, none => some (if k.takesValue then ⟨[], some k.key⟩ else ⟨[⟨k.key, ""⟩], none⟩)
  | some k, some v => if k.takesValue then some ⟨[⟨k.key, String.ofList v⟩], none⟩ else none

/-- What a dash and letters give. The letters after one that takes a value are its value. -/
def readLetters? (knobs : List (Knob κ)) : List Char → Option (Reading κ)
  | [] => some ⟨[], none⟩
  | c :: s =>
    match Knob.byLetter? knobs c with
    | none => none
    | some k =>
      if k.takesValue then
        some (if s = [] then ⟨[], some k.key⟩ else ⟨[⟨k.key, String.ofList s⟩], none⟩)
      else (readLetters? knobs s).map fun r => { r with options := ⟨k.key, ""⟩ :: r.options }

inductive Argument
  | separator
  | word (text : List Char)
  | letters (text : List Char)
  | other

def Argument.ofText (s : String) : Argument :=
  match s.toList with
  | ['-', '-'] => separator
  | '-' :: '-' :: text => word text
  | '-' :: c :: text => letters (c :: text)
  | _ => other

namespace Arguments

def withOptions (options : List (Given κ)) (s : Arguments κ) : Arguments κ :=
  { s with options := options ++ s.options }

def withOther (argument : String) (s : Arguments κ) : Arguments κ :=
  { s with others := argument :: s.others }

/-- Sorts arguments, the first of which is the value of an option that waits for one. Options are
looked for behind other arguments only if those may be `mixed`. There is no result if an option is
not known, lacks its value, or has one that it does not take. -/
def readFrom (knobs : List (Knob κ)) (mixed : Bool) : Option κ → List String → Option (Arguments κ)
  | none, [] => some ⟨[], []⟩
  | some _, [] => none
  | some key, value :: rest => (readFrom knobs mixed none rest).map (withOptions [⟨key, value⟩])
  | none, a :: rest =>
    let go (r : Option (Reading κ)) : Option (Arguments κ) :=
      r.bind fun r => (readFrom knobs mixed r.waiting rest).map (withOptions r.options)
    match Argument.ofText a with
    | .separator => some ⟨[], rest⟩
    | .word text => go (readWord? knobs text)
    | .letters text => go (readLetters? knobs text)
    | .other =>
      if mixed then (readFrom knobs mixed none rest).map (withOther a) else some ⟨[], a :: rest⟩

def read? (knobs : List (Knob κ)) (mixed : Bool) (args : List String) : Option (Arguments κ) :=
  readFrom knobs mixed none args

variable [DecidableEq κ]

def has (s : Arguments κ) (key : κ) : Bool := s.options.any fun g => g.key = key

/-- The value of an option. Of several values the last one counts. -/
def value? (s : Arguments κ) (key : κ) : Option String :=
  (s.options.reverse.find? fun g => g.key = key).map Given.value

end Arguments

end TapeLab.CommandLine
