import TapeLab.Journal

/-!
Entries of a journal as plain text, markup included.
-/

namespace TapeLab

def Row.toText (r : Row) : String := "\t".intercalate r.cells

def Table.toText (t : Table) : String :=
  "\n".intercalate ("\t".intercalate t.columns :: t.rows.map Row.toText)

def Output.toText : Output → String
  | line markup => markup
  | table t => t.toText

def Log.toText (l : Log) : String := s!"{l.level.name} {l.message}"

def Entry.toText? : Entry → Option String
  | shown output => some output.toText
  | logged l => some l.toText
  | heard .. => none

end TapeLab
