import SourceAudit.Names.AllowList
import SourceAudit.Pattern.Search

/-!
# Names that a function introduces

## Parameters, assignments and other targets

A function introduces the names of its parameters and the names directly before an assignment sign
in its body.  With the extended list it also introduces the targets of `for … in` and `as`.
-/

namespace SourceAudit
namespace Names

open Pattern

/-!
# Parameters
-/

/-- What may stand before the name of a parameter: blanks, asterisks and blanks. -/
def parameterStart : Pattern :=
  sequence [blanks, whole (· == '*'), blanks]

def parameterName? (parameter : Text) : Option Text :=
  parameterStart.run (Cursor.start parameter) fun c =>
    name.run c fun d => some (c.upTo d)

def parameterNames (parameters : Text) : List Text :=
  (parameters.cutAt ',').filterMap parameterName?

/-!
# Assignments
-/

def operator : Pattern :=
  oneOf [literal "//", literal "**", literal ">>", literal "<<",
    char fun c => ['-', '+', '*', '/', '%', '&', '|', '^', '@'].contains c]

/-- What follows the name in an assignment, up to an equals sign that no other follows. -/
def assignmentSign : Pattern :=
  sequence [indentation, optional operator, exactly '=', check fun c => c.rest.head? != some '=']

/-- Reads an assignment up to its equals sign; its value is the name before it. -/
def readAssignment : Reader Text := fun c =>
  wordBoundary.run c fun c =>
    name.run c fun d =>
      assignmentSign.run d fun e => some (e, c.upTo d)

def assignedNames (body : Text) : List Text :=
  readAssignment.scan body

/-!
# Targets of loops and aliases
-/

/-- The targets between `for` and `in`, as few characters as can be. -/
def loopTargets : Pattern :=
  seq (char Text.isNameStart) (few fun c => Text.isWord c || Text.isBlank c || c == ',')

def loopStart : Pattern :=
  seq (literal "for") someBlanks

def loopEnd : Pattern :=
  sequence [someBlanks, literal "in", wordBoundary]

def splitTargets (targets : Text) : List Text :=
  ((targets.cutAt ',').map Text.strip).filter fun part => !part.isEmpty

/-- Reads `for … in`; its value is the list of the targets. -/
def readLoop : Reader (List Text) := fun c =>
  loopStart.run c fun first =>
    loopTargets.run first fun last =>
      loopEnd.run last fun e => some (e, splitTargets (first.upTo last))

def aliasStart : Pattern :=
  seq (literal "as") someBlanks

def readAlias : Reader (List Text) := fun c =>
  aliasStart.run c fun first =>
    name.run first fun last => some (last, [first.upTo last])

/-- Reads a loop or an alias that begins at a word boundary. -/
def readBinding : Reader (List Text) := fun c =>
  wordBoundary.run c fun c => readLoop c <|> readAlias c

def boundNames (body : Text) : List Text :=
  (readBinding.scan body).flatten

/-!
# All names of a function
-/

/-- The names that a function introduces, given its parameter text and its body. -/
def localNames (allowList : AllowList) (parameters body : Text) : List Text :=
  parameterNames parameters ++ assignedNames body ++
    match allowList with
    | .compat => []
    | .extended => boundNames body

theorem mem_localNames_extended {parameters body name : Text}
    (h : name ∈ localNames .compat parameters body) :
    name ∈ localNames .extended parameters body := by
  unfold localNames at h ⊢
  rw [List.append_nil] at h
  exact List.mem_append_left _ h

end Names
end SourceAudit
