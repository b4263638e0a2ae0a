import SourceAudit.Finding
import SourceAudit.Header

/-!
# Habits to avoid

## Shared defaults and bare handlers

Each rule is a pattern, and makes at most one finding however often it occurs.
-/

namespace SourceAudit
namespace Practice

open Pattern

/-- A function header up to a closing parenthesis, with an empty list as a default value. -/
def sharedDefault : Pattern :=
  sequence [literal "def", someBlanks, Header.word, blanks, exactly '(', few (· != ')'),
    exactly '=', blanks, exactly '[', blanks, exactly ']', whole (· != ')'), exactly ')']

def bareHandler : Pattern :=
  sequence [wordBoundary, literal "except", blanks, exactly ':']

def rules : List (Pattern × Finding) :=
  [(sharedDefault, .sharedDefault), (bareHandler, .bareHandler)]

end Practice

def ruleFindings (rules : List (Pattern × Finding)) (t : Text) : List Finding :=
  (rules.filter fun rule => rule.1.occursIn t).map (·.2)

def practiceFindings (t : Text) : List Finding :=
  ruleFindings Practice.rules t

end SourceAudit
