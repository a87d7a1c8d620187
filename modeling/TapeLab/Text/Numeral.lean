import TapeLab.Text.Blank
import TapeLab.Text.DigitTable
import TapeLab.Text.Quoted

/-!
Reading whole numbers. A numeral may have white space around it, a sign, and single underscores
between its digits; the digits may be of any script. A numeral has at most `maxDigits` digits.
-/

namespace TapeLab.Text

/-- The largest number of digits, leading zeros included, that is still read or written. -/
def maxDigits : Nat := 4300

inductive NumeralError
  | malformed (text : String)
  | tooLong (digits : Nat)
  | unwritable
  deriving DecidableEq, Repr

namespace NumeralError

def shownLength : Nat := 200

def limitText : String :=
  s!"Exceeds the limit ({maxDigits} digits) for integer string conversion"

def adviceText : String := "; use sys.set_int_max_str_digits() to increase the limit"

def message : NumeralError → String
  | malformed text =>
    "invalid literal for int() with base 10: " ++
      String.ofList ((quoted text).toList.take shownLength)
  | tooLong digits => limitText ++ s!": value has {digits} digits" ++ adviceText
  | unwritable => limitText ++ adviceText

end NumeralError

def isWritable (n : Int) : Bool := n.natAbs < Nat.pow 10 maxDigits

/-- White space that may stand around a numeral: the four separators may not. -/
def isNumeralBlank (c : Char) : Bool :=
  isBlank c && !(0x1C ≤ c.toNat && c.toNat ≤ 0x1F)

/-- The digits at the start of a text as a number and their count, with single underscores between
them, and what follows. `none` if an underscore stands first, last or beside another. -/
def readDigits (value count : Nat) (afterDigit : Bool) :
    List Char → Option (Nat × Nat × List Char)
  | [] => if afterDigit || count == 0 then some (value, count, []) else none
  | c :: s =>
    match decimalValue? c with
    | some d => readDigits (10 * value + d) (count + 1) true s
    | none =>
      if c = '_' then
        if afterDigit then readDigits value count false s else none
      else if afterDigit || count == 0 then some (value, count, c :: s)
      else none

def readSign : List Char → Bool × List Char
  | '-' :: s => (true, s)
  | '+' :: s => (false, s)
  | s => (false, s)

def readInt (s : String) : Except NumeralError Int :=
  let (negative, rest) := readSign (s.toList.dropWhile isNumeralBlank)
  match readDigits 0 0 false rest with
  | none => .error (.malformed s)
  | some (value, count, rest) =>
    if count = 0 then .error (.malformed s)
    else if maxDigits < count then .error (.tooLong count)
    else if rest.all isNumeralBlank then
      .ok (if negative then -(value : Int) else value)
    else .error (.malformed s)

end TapeLab.Text
