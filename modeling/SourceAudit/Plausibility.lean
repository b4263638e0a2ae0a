import SourceAudit.Brackets
import SourceAudit.Header

/-!
# Does a text look like a program?

## Superficial checks

No check parses the text.  A text is refused for the first flaw found: a line that ends in a colon
without a block keyword, a definition whose name starts with a digit, an odd number of quotes,
brackets that do not match, one of six common errors, or no sign of a program at all.

`plausibilityFlaw?` makes the last three checks, `flaw?` all of them.
-/

namespace SourceAudit

inductive Flaw where
  | blank
  | strayColon
  | functionHeader
  | classHeader
  | oddQuotes
  | unbalanced
  | commonError (number : Nat)
  | noConstruct
  deriving DecidableEq, Repr

namespace Plausibility

open Pattern

/-!
# Common errors and signs of a program
-/

/-- The characters before an equals sign that make it part of a comparison or of another sign. -/
def conditionSigns : List Char :=
  ['=', '!', '<', '>', ':']

/-- A condition with a single equals sign, on a line that ends in a colon. -/
def assignmentInCondition : Pattern :=
  sequence [lineStart, indentation, wholeWord ["if", "elif", "while"],
    ahead (sequence [few (· != '\n'), exactly ':', indentation, lineEnd]),
    few (· != '\n'), char (fun c => !(conditionSigns.contains c)), exactly '=',
    char (· != '=')]

def loneKeyword (keyword : String) : Pattern :=
  sequence [lineStart, indentation, literal keyword, indentation, exactly ':', indentation,
    lineEnd]

def commonErrors : List Pattern :=
  assignmentInCondition :: ["while", "if", "for", "def", "class"].map loneKeyword

def indentedLine : Pattern :=
  sequence [lineStart, either (literal "    ") (exactly '\t'), char (fun c => !Text.isBlank c)]

def compoundLine (keyword : String) : Pattern :=
  sequence [lineStart, indentation, literal keyword, char Text.isBlank, throughColon]

def constructs : List Pattern :=
  [indentedLine, seq wordBoundary (Header.function name),
    seq wordBoundary (Header.classOf name), compoundLine "if", compoundLine "for",
    compoundLine "while"]

/-!
# Checks of the whole text
-/

/-- Whether a line ends in a colon but begins with no block keyword, blanks at its ends apart. -/
def hasStrayColon (line : Text) : Bool :=
  let stripped := Text.strip line
  stripped.getLast? == some ':' && !Header.blockKeyword.beginsText stripped

/-- Whether a header of any name occurs that holds no header of a proper name. -/
def hasImproperName (header : Pattern → Pattern) (t : Text) : Bool :=
  ((header Header.word).matchesIn t).any fun found => !(header name).occursIn found

end Plausibility

open Plausibility in
/-- The first flaw among brackets, common errors and signs of a program. -/
def plausibilityFlaw? (t : Text) : Option Flaw :=
  if isBalanced t then
    match commonErrors.findIdx? (·.occursIn t) with
    | some number => some (.commonError number)
    | none => if constructs.any (·.occursIn t) then none else some .noConstruct
  else some .unbalanced

open Plausibility in
def flaw? (t : Text) : Option Flaw :=
  if t.isAllBlank then some .blank
  else if t.lines.any hasStrayColon then some .strayColon
  else if hasImproperName Header.function t then some .functionHeader
  else if hasImproperName Header.classOf t then some .classHeader
  else if t.countP Text.isQuote % 2 = 1 then some .oddQuotes
  else plausibilityFlaw? t

def isValid (t : Text) : Bool :=
  (flaw? t).isNone

end SourceAudit
