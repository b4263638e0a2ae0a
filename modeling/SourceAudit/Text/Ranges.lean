/-!
# Look-up in ascending ranges

## Halving

A character property is given by an ascending array of disjoint inclusive ranges of code points.
The look-up halves the part of the array that can still hold the code point.  Its step count is
bounded by the size of the array.
-/

namespace SourceAudit
namespace Text

/-- Whether a range among those from `low` up to but without `high` holds the code point. -/
def inRangesBetween (ranges : Array (Nat × Nat)) (point : Nat) : Nat → Nat → Nat → Bool
  | 0, _, _ => false
  | steps + 1, low, high =>
      if low < high then
        let middle := (low + high) / 2
        match ranges[middle]? with
        | none => false
        | some (first, last) =>
            if point < first then inRangesBetween ranges point steps low middle
            else if last < point then inRangesBetween ranges point steps (middle + 1) high
            else true
      else false

def inRanges (ranges : Array (Nat × Nat)) (point : Nat) : Bool :=
  inRangesBetween ranges point ranges.size 0 ranges.size

end Text
end SourceAudit
