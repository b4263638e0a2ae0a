import SourceAudit.Text.Basic

/-!
# UTF-8

## Decoding with a reason for refusal

A character is a lead byte and up to three continuation bytes.  The lead byte tells how many are
owed and in which range the first of them lies; the narrow ranges shut out overlong forms, surrogates
and numbers that are too large.

A refusal names the bytes at fault: a byte that leads nothing, the bytes before one that does not
continue them, or the bytes of a sequence cut off by the end.
-/

namespace SourceAudit
namespace Text

inductive Utf8Reason where
  | badStart
  | badContinuation
  | truncated
  deriving DecidableEq, Repr

structure Utf8Fault where
  pos : Nat
  lead : UInt8
  count : Nat
  reason : Utf8Reason
  deriving DecidableEq, Repr

/-- What a lead byte announces. -/
structure Utf8Lead where
  owed : Nat
  low : UInt8
  high : UInt8
  bits : Nat

def utf8Lead? (b : UInt8) : Option Utf8Lead :=
  if b < 0x80 then some ⟨0, 0x80, 0xBF, b.toNat⟩
  else if b < 0xC2 then none
  else if b < 0xE0 then some ⟨1, 0x80, 0xBF, b.toNat - 0xC0⟩
  else if b == 0xE0 then some ⟨2, 0xA0, 0xBF, 0⟩
  else if b == 0xED then some ⟨2, 0x80, 0x9F, 13⟩
  else if b < 0xF0 then some ⟨2, 0x80, 0xBF, b.toNat - 0xE0⟩
  else if b == 0xF0 then some ⟨3, 0x90, 0xBF, 0⟩
  else if b < 0xF4 then some ⟨3, 0x80, 0xBF, b.toNat - 0xF0⟩
  else if b == 0xF4 then some ⟨3, 0x80, 0x8F, 4⟩
  else none

structure Utf8Open where
  pos : Nat
  lead : UInt8
  read : Nat
  owed : Nat
  low : UInt8
  high : UInt8
  bits : Nat

/-- Where a decoder stands between two bytes: the characters decoded so far, the last one first, the
number of bytes read, and the sequence that has begun, if any. -/
structure Utf8State where
  decoded : Text
  pos : Nat
  begun : Option Utf8Open

def Utf8State.step (s : Utf8State) (b : UInt8) : Except Utf8Fault Utf8State :=
  match s.begun with
  | none =>
      match utf8Lead? b with
      | none => .error ⟨s.pos, b, 1, .badStart⟩
      | some lead =>
          if lead.owed = 0 then .ok ⟨Char.ofNat lead.bits :: s.decoded, s.pos + 1, none⟩
          else
            .ok ⟨s.decoded, s.pos + 1,
              some ⟨s.pos, b, 1, lead.owed, lead.low, lead.high, lead.bits⟩⟩
  | some q =>
      if b < q.low || q.high < b then .error ⟨q.pos, q.lead, q.read, .badContinuation⟩
      else
        let bits := q.bits * 64 + (b.toNat - 0x80)
        if q.owed ≤ 1 then .ok ⟨Char.ofNat bits :: s.decoded, s.pos + 1, none⟩
        else
          .ok ⟨s.decoded, s.pos + 1,
            some ⟨q.pos, q.lead, q.read + 1, q.owed - 1, 0x80, 0xBF, bits⟩⟩

def decodeUtf8From (s : Utf8State) : List UInt8 → Except Utf8Fault Text
  | [] =>
      match s.begun with
      | none => .ok s.decoded.reverse
      | some q => .error ⟨q.pos, q.lead, q.read, .truncated⟩
  | b :: rest =>
      match s.step b with
      | .error fault => .error fault
      | .ok next => decodeUtf8From next rest

def decodeUtf8 (bytes : List UInt8) : Except Utf8Fault Text :=
  decodeUtf8From ⟨[], 0, none⟩ bytes

def hexDigits (width n : Nat) : Text :=
  let digits := Nat.toDigits 16 n
  List.replicate (width - digits.length) '0' ++ digits

namespace Utf8Reason

def message : Utf8Reason → String
  | badStart => "invalid start byte"
  | badContinuation => "invalid continuation byte"
  | truncated => "unexpected end of data"

end Utf8Reason

def Utf8Fault.message (f : Utf8Fault) : String :=
  if f.count ≤ 1 then
    "'utf-8' codec can't decode byte 0x" ++ String.ofList (hexDigits 2 f.lead.toNat) ++
      " in position " ++ Nat.repr f.pos ++ ": " ++ f.reason.message
  else
    "'utf-8' codec can't decode bytes in position " ++ Nat.repr f.pos ++ "-" ++
      Nat.repr (f.pos + f.count - 1) ++ ": " ++ f.reason.message

/-!
# Line breaks

A file may end its lines with a line feed, a carriage return or both.  Reading turns each of them
into a line feed.
-/

def unifyBreaksOnto (done : Text) : Text → Text
  | [] => done.reverse
  | '\r' :: '\n' :: rest => unifyBreaksOnto ('\n' :: done) rest
  | '\r' :: rest => unifyBreaksOnto ('\n' :: done) rest
  | c :: rest => unifyBreaksOnto (c :: done) rest

/-- Turns carriage returns, with the line feeds directly behind them, into line feeds. -/
def unifyBreaks (t : Text) : Text :=
  unifyBreaksOnto [] t

def isBreak (c : Char) : Bool :=
  ['\n', '\x0b', '\x0c', '\r', '\x1c', '\x1d', '\x1e', '\u0085', '\u2028', '\u2029'].contains c

/-- The lines of a text in the wide sense.  Nothing behind the last break makes no line. -/
def wideLines (t : Text) : List Text :=
  let pieces := cutWhere isBreak t
  if pieces.getLast? = some [] then pieces.dropLast else pieces

end Text
end SourceAudit
