import SourceAudit.Maintainability
import SourceAudit.Pattern.Search

/-!
# Metrics of a text

## Counts and shares

Decisions are counted by their keywords, functions by `def` and a blank, comments by the mark that
begins them.  The shares are percentages of lines or of functions; a text without functions counts
as having one.  A comment share counts a line once, however many marks it holds.
-/

namespace SourceAudit

structure Metrics where
  complexity : Nat
  maintainability : Float
  lineCount : Nat
  functionCount : Nat
  functionLength : Float
  commentShare : Float
  testShare : Float
  securityScore : Int

namespace Metrics

open Pattern

def decisionWords : List String :=
  ["if", "elif", "for", "while", "and", "or", "except"]

def decision : Pattern :=
  seq wordBoundary (wholeWord decisionWords)

def functionStart : Pattern :=
  sequence [wordBoundary, literal "def", someBlanks]

def testStart : Pattern :=
  seq functionStart (literal "test_")

def comment : Pattern :=
  sequence [exactly '#', restOfLine, lineEnd]

def complexityOf (t : Text) : Nat :=
  decision.countIn t + 1

def securityPenalty : Int := 20

/-- A share in percent, in the kind of numbers to which `number` takes a count. -/
def share {α : Type} [Div α] [Mul α] (number : Nat → α) (part whole : Nat) : α :=
  number part / number whole * number 100

def ofText (t : Text) (securityFindings : Int) : Except RangeFault Metrics :=
  let lineCount := t.lines.length
  let complexity := complexityOf t
  let functionCount := functionStart.countIn t
  (SourceAudit.maintainability t.length complexity lineCount).map fun index =>
    { complexity
      maintainability := index
      lineCount
      functionCount
      functionLength := Number.ratio lineCount (max 1 functionCount)
      commentShare := share Number.ofCount (comment.countIn t) lineCount
      testShare := share Number.ofCount (testStart.countIn t) (max 1 functionCount)
      securityScore := 100 - securityFindings * securityPenalty }

def blank : Metrics :=
  { complexity := 0
    maintainability := 100.0
    lineCount := 0
    functionCount := 0
    functionLength := 0.0
    commentShare := 0.0
    testShare := 0.0
    securityScore := 100 }

end Metrics
end SourceAudit
