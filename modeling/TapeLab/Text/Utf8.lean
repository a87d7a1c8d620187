import TapeLab.Text.Quoted

/-!
UTF-8. `decodeUtf8` reads the shortest forms of all characters and nothing else, and tells where and
why bytes are refused.
-/

namespace TapeLab.Text

inductive Utf8Fault
  | invalidStart
  | invalidContinuation
  | unexpectedEnd
  deriving DecidableEq, Repr

/-- The bytes from `start` up to, not including, `stop` are refused; `first` is the first of
them. -/
structure Utf8Error where
  start : Nat
  stop : Nat
  first : UInt8
  fault : Utf8Fault
  deriving DecidableEq, Repr

def Utf8Fault.message : Utf8Fault → String
  | .invalidStart => "invalid start byte"
  | .invalidContinuation => "invalid continuation byte"
  | .unexpectedEnd => "unexpected end of data"

def Utf8Error.message (e : Utf8Error) : String :=
  if e.stop = e.start + 1 then
    s!"'utf-8' codec can't decode byte 0x" ++ String.ofList (hexText 2 e.first.toNat) ++
      s!" in position {e.start}: " ++ e.fault.message
  else
    s!"'utf-8' codec can't decode bytes in position {e.start}-{e.stop - 1}: " ++ e.fault.message

def leadByte? (b : Nat) : Option (Nat × Nat) :=
  if b < 0x80 then some (0, b)
  else if 0xC2 ≤ b && b ≤ 0xDF then some (1, b - 0xC0)
  else if 0xE0 ≤ b && b ≤ 0xEF then some (2, b - 0xE0)
  else if 0xF0 ≤ b && b ≤ 0xF4 then some (3, b - 0xF0)
  else none

/-- Whether `b` may follow `lead` directly: it is a continuation byte, the form is a shortest one,
and the code point is neither a surrogate nor beyond the last one. -/
def secondByteFits (lead b : Nat) : Bool :=
  0x80 ≤ b && b ≤ 0xBF && !(lead == 0xE0 && b < 0xA0) && !(lead == 0xED && 0xA0 ≤ b) &&
    !(lead == 0xF0 && b < 0x90) && !(lead == 0xF4 && 0x90 ≤ b)

/-- A character of which `got` bytes have been read and `more` are due. -/
structure HalfRead where
  start : Nat
  lead : UInt8
  got : Nat
  more : Nat
  code : Nat

def HalfRead.takes (h : HalfRead) (b : UInt8) : Bool :=
  if h.got = 1 then secondByteFits h.lead.toNat b.toNat else 0x80 ≤ b.toNat && b.toNat ≤ 0xBF

/-- Decodes the bytes from position `pos` on, after a character that may be half read. -/
def decodeUtf8From : Nat → Option HalfRead → List UInt8 → Except Utf8Error (List Char)
  | _, none, [] => .ok []
  | pos, some h, [] => .error ⟨h.start, pos, h.lead, .unexpectedEnd⟩
  | pos, none, b :: s =>
    match leadByte? b.toNat with
    | none => .error ⟨pos, pos + 1, b, .invalidStart⟩
    | some (0, code) => (decodeUtf8From (pos + 1) none s).map (Char.ofNat code :: ·)
    | some (more, code) => decodeUtf8From (pos + 1) (some ⟨pos, b, 1, more, code⟩) s
  | pos, some h, b :: s =>
    let code := h.code * 64 + (b.toNat - 0x80)
    if !h.takes b then .error ⟨h.start, pos, h.lead, .invalidContinuation⟩
    else if h.more = 1 then (decodeUtf8From (pos + 1) none s).map (Char.ofNat code :: ·)
    else decodeUtf8From (pos + 1) (some ⟨h.start, h.lead, h.got + 1, h.more - 1, code⟩) s

def decodeUtf8 (s : List UInt8) : Except Utf8Error (List Char) := decodeUtf8From 0 none s

def encodeUtf8 (s : String) : List UInt8 := s.toList.flatMap String.utf8EncodeChar

end TapeLab.Text
