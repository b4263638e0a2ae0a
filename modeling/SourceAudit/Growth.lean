import SourceAudit.Header

/-!
# Growth of the running time

## A guess from loop headers

Two `for` headers close to each other suggest quadratic time, any loop header linear time.  Between
the two headers there may be blank lines and then one line of any kind.  The space guess is always
constant.
-/

namespace SourceAudit

inductive Growth where
  | constant
  | linear
  | quadratic
  deriving DecidableEq, Repr

namespace Growth

open Pattern

def label : Growth → String
  | constant => "O(1)"
  | linear => "O(n)"
  | quadratic => "O(n²)"

def rank : Growth → Nat
  | constant => 0
  | linear => 1
  | quadratic => 2

def blankLine : Pattern :=
  seq indentation (exactly '\n')

def anyLine : Pattern :=
  seq restOfLine (exactly '\n')

/-- The header of a loop, without the test that a line starts there. -/
def loopHeader (keywords : List String) : Pattern :=
  sequence [indentation, wholeWord keywords, throughColon]

/-- Two `for` headers with blank lines and at most one other line between them. -/
def nestedLoops : Pattern :=
  sequence [lineStart, loopHeader ["for"], anyLine, rounds blankLine, optional anyLine,
    loopHeader ["for"]]

def anyLoop : Pattern :=
  seq lineStart (loopHeader ["for", "while"])

def ofTime (t : Text) : Growth :=
  if nestedLoops.occursIn t then quadratic
  else if anyLoop.occursIn t then linear
  else constant

def ofSpace (_ : Text) : Growth :=
  constant

end Growth
end SourceAudit
