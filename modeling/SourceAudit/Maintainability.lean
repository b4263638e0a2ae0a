import SourceAudit.Number.Double

/-!
# Maintainability index

## Size and decisions

The index falls with the logarithm of the text length, with the number of decisions and with the
logarithm of the number of lines.  It is scaled so that the greatest value of the classical formula
is 100, and is never below 0.

The terms are computed from left to right, which decides what is reported when several arguments
are out of range.
-/

namespace SourceAudit

inductive RangeFault where
  | logarithm
  | tooLarge
  deriving DecidableEq, Repr

namespace RangeFault

def message : RangeFault → String
  | logarithm => "math domain error"
  | tooLarge => "int too large to convert to float"

end RangeFault

def rawMaintainability (length decisions lineCount : Int) : Except RangeFault Float :=
  match Number.log? length with
  | none => .error .logarithm
  | some logLength =>
      match Number.ofInt? decisions with
      | none => .error .tooLarge
      | some decisionTerm =>
          match Number.log? lineCount with
          | none => .error .logarithm
          | some logLines =>
              .ok (171.0 - 5.2 * logLength - 0.23 * decisionTerm - 16.2 * logLines)

def scaleMaintainability (raw : Float) : Float :=
  let scaled := raw * 100.0 / 171.0
  if scaled > 0.0 then scaled else 0.0

/-- The maintainability index of a text of the given length, decisions and lines. -/
def maintainability (length decisions lineCount : Int) : Except RangeFault Float :=
  (rawMaintainability length decisions lineCount).map scaleMaintainability

end SourceAudit
