import SourceAudit.Pattern.Search

/-!
# Functions in a text

## Headers and bodies

A function is found by its header: `def`, a word, a parenthesised parameter text, and all up to the
next colon on the line where the parentheses close.  Its body runs from that colon to the first line
feed that is followed by a character other than a blank, or to the end of the text.  The next
function is looked for behind the body, so functions inside a body belong to it.
-/

namespace SourceAudit

structure FunctionText where
  parameters : Text
  bodyPos : Nat
  body : Text
  deriving DecidableEq, Repr

namespace FunctionText

open Pattern

def headerStart : Pattern :=
  sequence [literal "def", someBlanks, several Text.isWord, blanks, exactly '(']

def parameterText : Pattern :=
  whole (· != ')')

def headerEnd : Pattern :=
  seq (exactly ')') throughColon

/-- Whether a body may end at a place: at the end, or before a line that is not indented. -/
def atBodyEnd (c : Cursor) : Bool :=
  match c.rest with
  | [] => true
  | '\n' :: x :: _ => !Text.isBlank x
  | _ => false

/-- The characters of a body, as few as can be. -/
def bodyText : Pattern :=
  seq (few fun _ => true) (check atBodyEnd)

def read : Reader FunctionText := fun c =>
  headerStart.run c fun opened =>
    parameterText.run opened fun closed =>
      headerEnd.run closed fun bodyStart =>
        bodyText.run bodyStart fun bodyEnd =>
          some (bodyEnd,
            { parameters := opened.upTo closed
              bodyPos := bodyStart.pos
              body := bodyStart.upTo bodyEnd })

end FunctionText

def functionsIn (t : Text) : List FunctionText :=
  FunctionText.read.scan t

end SourceAudit
