/-!
# Rounding quotients

## Nearest whole numbers

A quotient is rounded to the nearest whole number; of two equally near ones the even one is taken.
-/

namespace SourceAudit
namespace Number

/-- The whole number nearest to a quotient, the even one of two. -/
def roundDiv (num den : Nat) : Nat :=
  let quotient := num / den
  let remainder := num % den
  if 2 * remainder < den then quotient
  else if den < 2 * remainder then quotient + 1
  else quotient + quotient % 2

def ceilDiv (num den : Nat) : Nat :=
  (num + (den - 1)) / den

end Number
end SourceAudit
