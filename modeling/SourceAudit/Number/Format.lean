import SourceAudit.Number.Shortest

/-!
# Numbers as text

## Two forms

The full form of a double has the fewest digits that read back.  It is positional from 0.0001 up to
below 10¹⁶ and has a point with at least one digit behind it; beyond that it has an exponent with a
sign and at least two digits.

The short form is rounded to one place behind the point, a tie to the even digit.
-/

namespace SourceAudit
namespace Number

def digitsOf (n : Nat) : List Char :=
  Nat.toDigits 10 n

/-- The digits with a point behind the given number of them; zeros fill up on either side. -/
def positional (digits : List Char) (before : Int) : List Char :=
  match before with
  | .ofNat 0 => ['0', '.'] ++ digits
  | .ofNat k =>
      let whole := digits.take k ++ List.replicate (k - digits.length) '0'
      let fraction := digits.drop k
      whole ++ ['.'] ++ if fraction.isEmpty then ['0'] else fraction
  | .negSucc k => ['0', '.'] ++ List.replicate (k + 1) '0' ++ digits

def scientific (digits : List Char) (exponent : Int) : List Char :=
  let size := digitsOf exponent.natAbs
  let padded := if size.length < 2 then '0' :: size else size
  digits.take 1 ++ (if digits.length ≤ 1 then [] else '.' :: digits.drop 1) ++
    ['e', if exponent < 0 then '-' else '+'] ++ padded

def Decimal.digitText (d : Decimal) : List Char :=
  let all := digitsOf d.digits
  let trimmed := (all.reverse.dropWhile (· == '0')).reverse
  if trimmed.isEmpty then ['0'] else trimmed

def Decimal.leading (d : Decimal) : Int :=
  d.exponent + ((digitsOf d.digits).length : Int) - 1

def Decimal.text (d : Decimal) : List Char :=
  if -4 ≤ d.leading ∧ d.leading < 16 then positional d.digitText (d.leading + 1)
  else scientific d.digitText d.leading

def isInfinite (x : Float) : Bool :=
  match valueOf x with
  | .infinite _ => true
  | _ => false

def signText (x : Float) : String :=
  match valueOf x with
  | .undefined => ""
  | .infinite negative => if negative then "-" else ""
  | .finite value => if value.negative then "-" else ""

def fullText (x : Float) : String :=
  if isInfinite x then signText x ++ "Infinity"
  else
    match valueOf x with
    | .finite value => signText x ++ String.ofList value.shortest.text
    | _ => "NaN"

def shortText (x : Float) : String :=
  if isInfinite x then signText x ++ "inf"
  else
    match valueOf x with
    | .finite value =>
        let (num, den) := scaleTwo value.significand value.exponent
        let tenths := roundDiv (10 * num) den
        signText x ++ Nat.repr (tenths / 10) ++ "." ++ Nat.repr (tenths % 10)
    | _ => "nan"

end Number
end SourceAudit
