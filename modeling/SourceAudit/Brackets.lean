import SourceAudit.Text.Basic

/-!
# Bracket balance

## Three kinds of brackets

A text is balanced when every closing bracket closes the nearest opening one that is still open, and
none stays open.  All other characters are passed over.  The check keeps the brackets that are still
open, the innermost first.
-/

namespace SourceAudit

inductive Bracket where
  | round
  | square
  | curly
  deriving DecidableEq, Repr

namespace Bracket

def opening : Bracket → Char
  | round => '('
  | square => '['
  | curly => '\x7b'

def closing : Bracket → Char
  | round => ')'
  | square => ']'
  | curly => '\x7d'

def all : List Bracket :=
  [round, square, curly]

def ofOpening? (c : Char) : Option Bracket :=
  all.find? (·.opening == c)

def ofClosing? (c : Char) : Option Bracket :=
  all.find? (·.closing == c)

/-- Whether a text closes exactly the brackets that are open, the innermost first. -/
def closes : List Bracket → Text → Bool
  | opened, [] => opened.isEmpty
  | opened, c :: rest =>
      match ofOpening? c with
      | some bracket => closes (bracket :: opened) rest
      | none =>
          match ofClosing? c with
          | none => closes opened rest
          | some bracket =>
              match opened with
              | [] => false
              | innermost :: outer => if innermost = bracket then closes outer rest else false

end Bracket

def isBalanced (t : Text) : Bool :=
  Bracket.closes [] t

end SourceAudit
