import SourceAudit.Number.Double

/-!
# Shortest decimals

## The fewest digits that read back

A double stands for all numbers that round to it.  Among the decimals in that interval this module
finds one with the fewest digits, and of those the nearest to the exact value.

The interval reaches half way to the neighbouring doubles.  Its ends belong to it when the
significand is even, since a tie is rounded to even.  All comparisons are made between fractions of
whole numbers.
-/

namespace SourceAudit
namespace Number

/-- A number written as digits and a power of ten: the digits, read as a whole number, times ten to
the exponent. -/
structure Decimal where
  digits : Nat
  exponent : Int
  deriving DecidableEq, Repr

def scaleTen (num den : Nat) (power : Int) : Nat × Nat :=
  match power with
  | .ofNat k => (num * Nat.pow 10 k, den)
  | .negSucc k => (num, den * Nat.pow 10 (k + 1))

def scaleTwo (n : Nat) (power : Int) : Nat × Nat :=
  match power with
  | .ofNat k => (n * Nat.pow 2 k, 1)
  | .negSucc k => (n, Nat.pow 2 (k + 1))

/-- Raises an exponent of ten while the power is not above the fraction. -/
def climb (num den : Nat) : Nat → Int → Int
  | 0, k => k
  | steps + 1, k =>
      let (a, b) := scaleTen 1 1 (k + 1)
      if a * den ≤ num * b then climb num den steps (k + 1) else k

def decade (num den : Nat) : Int :=
  let bits := (num.log2 : Int) - den.log2 - 1
  climb num den 8 (bits * 30103 / 100000 - 2)

/-- The numbers that round to a double, in units of a quarter of its last place. -/
structure Interval where
  low : Nat
  middle : Nat
  high : Nat
  unit : Int
  closed : Bool

def Binary.interval (x : Binary) : Interval :=
  { low := 4 * x.significand - (if x.closeBelow then 1 else 2)
    middle := 4 * x.significand
    high := 4 * x.significand + 2
    unit := x.exponent - 2
    closed := x.significand % 2 == 0 }

def Interval.holds (i : Interval) (d : Decimal) : Bool :=
  let (a, b) := scaleTen d.digits 1 d.exponent
  let (low, den) := scaleTwo i.low i.unit
  let (high, _) := scaleTwo i.high i.unit
  if i.closed then low * b ≤ a * den && a * den ≤ high * b
  else low * b < a * den && a * den < high * b

/-- The decimals with a last digit of the given exponent that are next to the middle of the
interval and lie in it, the nearer one, or on a tie the even one, first. -/
def Interval.candidates (i : Interval) (exponent : Int) : List Decimal :=
  let (num, den) := scaleTwo i.middle i.unit
  let (a, b) := scaleTen num den (-exponent)
  let below := a / b
  let nearest := roundDiv a b
  let other := if nearest = below then below + 1 else below
  [⟨nearest, exponent⟩, ⟨other, exponent⟩].filter i.holds

def Interval.shortestFrom (i : Interval) (top : Int) : Nat → Nat → Option Decimal
  | 0, _ => none
  | more + 1, digits =>
      match i.candidates (top - digits) with
      | found :: _ => some found
      | [] => i.shortestFrom top more (digits + 1)

/-- The shortest decimal that reads back as the size of a number, the nearest of those. -/
def Binary.shortest (x : Binary) : Decimal :=
  if x.significand = 0 then ⟨0, 0⟩
  else
    let (num, den) := scaleTwo x.significand x.exponent
    (x.interval.shortestFrom (decade num den) 17 0).getD ⟨0, 0⟩

end Number
end SourceAudit
