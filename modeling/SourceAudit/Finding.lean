import SourceAudit.Text.Basic

/-!
# Findings

## What an audit can report

A finding is one problem that a rule has noticed in a text.  Its kind, severity and wording follow
from the finding itself, so a report stores findings and derives all else.

Severities are ordered from `low` to `critical`.
-/

namespace SourceAudit

inductive Severity where
  | low
  | medium
  | high
  | critical
  deriving DecidableEq, Repr

namespace Severity

def rank : Severity → Nat
  | low => 0
  | medium => 1
  | high => 2
  | critical => 3

def all : List Severity :=
  [low, medium, high, critical]

def label : Severity → String
  | low => "low"
  | medium => "medium"
  | high => "high"
  | critical => "critical"

def ofLabel? (label : String) : Option Severity :=
  all.find? (·.label == label)

end Severity

inductive Kind where
  | form
  | meaning
  | practice
  | security
  deriving DecidableEq, Repr

namespace Kind

def label : Kind → String
  | form => "syntax"
  | meaning => "semantic"
  | practice => "best_practice"
  | security => "security"

def heading : Kind → String
  | form => "Syntax"
  | meaning => "Semantic"
  | practice => "Best Practices"
  | security => "Security"

end Kind

inductive Finding where
  | malformed
  | unknownName (name : Text)
  | sharedDefault
  | bareHandler
  | dynamicEvaluation
  | writtenSecret
  deriving DecidableEq, Repr

namespace Finding

def kind : Finding → Kind
  | malformed => .form
  | unknownName _ => .meaning
  | sharedDefault => .practice
  | bareHandler => .practice
  | dynamicEvaluation => .security
  | writtenSecret => .security

def severity : Finding → Severity
  | malformed => .critical
  | unknownName _ => .medium
  | sharedDefault => .medium
  | bareHandler => .low
  | dynamicEvaluation => .critical
  | writtenSecret => .high

def message : Finding → String
  | malformed => "Invalid Python syntax detected"
  | unknownName name => "Variable '" ++ String.ofList name ++ "' might need to be defined"
  | sharedDefault => "Mutable default argument used"
  | bareHandler => "Bare except clause used"
  | dynamicEvaluation => "Use of eval() detected: dynamic evaluation of code"
  | writtenSecret => "Hardcoded credentials detected"

def fix : Finding → String
  | malformed => "Review and correct syntax errors"
  | unknownName _ =>
      "Ensure the variable is defined before use or imported if it comes from a module"
  | sharedDefault => "Use None as default and initialize mutable object inside function"
  | bareHandler => "Specify exception types to catch"
  | dynamicEvaluation => "Avoid using eval() and use safer alternatives such as ast.literal_eval"
  | writtenSecret => "Use environment variables or secure credential management"

def impact : Finding → String
  | malformed => "Code will not execute"
  | unknownName _ => "Potential runtime error if variable is undefined"
  | sharedDefault => "Potential unexpected behavior with shared mutable state"
  | bareHandler => "May hide errors or catch unexpected exceptions"
  | dynamicEvaluation => "Critical security vulnerability - arbitrary code execution"
  | writtenSecret => "Security risk - exposed sensitive information"

end Finding
end SourceAudit
