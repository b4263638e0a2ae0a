import SourceAudit.Number.Rounding

/-!
# Double precision numbers

## Whole numbers, logarithms and exact values

A whole number is converted to the nearest double, the even one of two, and only if it is not too
large.  The logarithm of a whole number is also defined where the number itself is too large for a
double: it is split into a significand in [1/2, 1) and a power of two.

The exact value of a finite double is a whole significand times a power of two.
-/

namespace SourceAudit
namespace Number

def precision : Nat := 53

/-- Rounds a whole number to a significand of at most 53 bits times a power of two. -/
def significand (n : Nat) : Nat × Nat :=
  if n < Nat.pow 2 precision then (n, 0)
  else
    let shift := n.log2 - 52
    (roundDiv n (Nat.pow 2 shift), shift)

/-- The double nearest to a whole number, unless that is too large. -/
def ofNat? (n : Nat) : Option Float :=
  let (m, shift) := significand n
  if 1024 ≤ m.log2 + shift then none else some (m.toUInt64.toFloat.scaleB shift)

def ofInt? : Int → Option Float
  | .ofNat n => ofNat? n
  | .negSucc n => (ofNat? (n + 1)).map fun x => -x

def logOfNat (n : Nat) : Float :=
  match ofNat? n with
  | some x => x.log
  | none =>
      let (m, shift) := significand n
      let bits := m.log2 + 1
      (m.toUInt64.toFloat.scaleB (-(bits : Int))).log
        + (2.0 : Float).log * (bits + shift).toUInt64.toFloat

/-- The natural logarithm of an integer, which only positive integers have. -/
def log? : Int → Option Float
  | .ofNat 0 => none
  | .ofNat (n + 1) => some (logOfNat (n + 1))
  | .negSucc _ => none

/-- A count as a double; counts are small enough to be represented exactly. -/
def ofCount (n : Nat) : Float :=
  n.toUInt64.toFloat

def ratio (num den : Nat) : Float :=
  ofCount num / ofCount den

theorem log?_isSome_iff (n : Int) : (log? n).isSome = true ↔ 0 < n := by
  cases n with
  | ofNat n =>
      cases n with
      | zero =>
          simp [log?]
      | succ n =>
          simp [log?]
  | negSucc n =>
      simp [log?]

/-!
# Exact values
-/

/-- The value of a finite double: a significand times a power of two. -/
structure Binary where
  /-- Whether the number is below zero, or is the negative zero. -/
  negative : Bool
  significand : Nat
  exponent : Int
  /-- Whether the next smaller double is only half as far away as the next greater one. -/
  closeBelow : Bool

inductive Value where
  | finite (value : Binary)
  | infinite (negative : Bool)
  | undefined

def valueOf (x : Float) : Value :=
  let bits := x.toBits.toNat
  let negative := bits / Nat.pow 2 63 == 1
  let field : Nat := bits / Nat.pow 2 52 % Nat.pow 2 11
  let fraction : Nat := bits % Nat.pow 2 52
  if field = 2047 then
    if fraction = 0 then .infinite negative else .undefined
  else if field = 0 then .finite ⟨negative, fraction, -1074, false⟩
  else .finite ⟨negative, fraction + Nat.pow 2 52, (field : Int) - 1075, fraction == 0 && 1 < field⟩

end Number
end SourceAudit
