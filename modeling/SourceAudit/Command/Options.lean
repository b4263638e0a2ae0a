import SourceAudit.Pattern.Search
import SourceAudit.Text.Digit

/-!
# Options on a command line

## What an argument is

An argument is an option if it begins with a hyphen, unless it is a single hyphen, looks like a
negative number, or holds a space without beginning like an option.  Options may be shortened as
long as only one name fits, and may carry a value behind an equals sign.  Behind a bare `--` nothing
is an option.
-/

namespace SourceAudit
namespace Command

structure Spelling (ι : Type) where
  spelling : String
  option : ι

inductive Argument (ι : Type) where
  | plain (given : String)
  | divider
  | unknown (given : String)
  | option (which : ι) (short : Bool) (value : Option String)

structure Ambiguity where
  given : String
  fitting : List String
  deriving DecidableEq, Repr

open Pattern in
def negativeNumber : Pattern :=
  sequence [exactly '-',
    either (several Text.isDigit)
      (sequence [whole Text.isDigit, exactly '.', several Text.isDigit]),
    check Cursor.atClosingLineEnd]

def looksNegative (given : String) : Bool :=
  negativeNumber.beginsText given.toList

def splitValue (given : String) : String × Option String :=
  let behind := given.toList.dropWhile (· != '=')
  match behind with
  | [] => (given, none)
  | _ :: value => (String.ofList (given.toList.takeWhile (· != '=')), some (String.ofList value))

def beginsLike (whole start : String) : Bool :=
  start.toList.isPrefixOf whole.toList

structure Reading (ι : Type) where
  spelling : String
  option : ι
  value : Option String

/-- The readings of an argument as a shortened long option, or as a short option with its value
directly behind it. -/
def readings (table : List (Spelling ι)) (given : String) : List (Reading ι) :=
  if beginsLike given "--" then
    let (label, value) := splitValue given
    (table.filter fun entry => beginsLike entry.spelling label).map fun entry =>
      ⟨entry.spelling, entry.option, value⟩
  else
    table.filterMap fun entry =>
      if entry.spelling.toList = given.toList.take 2 then
        some ⟨entry.spelling, entry.option, some (String.ofList (given.toList.drop 2))⟩
      else if beginsLike entry.spelling given then some ⟨entry.spelling, entry.option, none⟩
      else none

def isShort (spelling : String) : Bool :=
  !beginsLike spelling "--"

/-- Reads an argument before any divider. -/
def classify (table : List (Spelling ι)) (given : String) : Except Ambiguity (Argument ι) :=
  if !beginsLike given "-" then .ok (.plain given)
  else
    match table.find? fun entry => entry.spelling = given with
    | some entry => .ok (.option entry.option (isShort entry.spelling) none)
    | none =>
        if given = "-" then .ok (.plain given)
        else
          let (label, value) := splitValue given
          let exact :=
            if value.isSome then table.find? fun entry => entry.spelling = label else none
          match exact with
          | some entry => .ok (.option entry.option (isShort entry.spelling) value)
          | none =>
              match readings table given with
              | [only] => .ok (.option only.option (isShort only.spelling) only.value)
              | [] =>
                  if looksNegative given || given.toList.contains ' ' then .ok (.plain given)
                  else .ok (.unknown given)
              | several => .error ⟨given, several.map (·.spelling)⟩

def classifyAll (table : List (Spelling ι)) :
    List String → Except Ambiguity (List (String × Argument ι))
  | [] => .ok []
  | given :: rest =>
      if given = "--" then
        .ok ((given, .divider) :: rest.map fun later => (later, .plain later))
      else
        match classify table given with
        | .error ambiguity => .error ambiguity
        | .ok argument => (classifyAll table rest).map ((given, argument) :: ·)

end Command
end SourceAudit
