import SourceAudit.Practice

/-!
# Unsafe constructs

## Evaluated texts and written secrets

A call of `eval` or `exec` makes one finding.  Each of three names to which a quoted text is
assigned makes one of its own.  A quoted text is not empty and may span lines.
-/

namespace SourceAudit
namespace Security

open Pattern

def dynamicEvaluation : Pattern :=
  sequence [wordBoundary, oneOf [literal "eval", literal "exec"], blanks, exactly '(']

def quotedAssignment (label : String) : Pattern :=
  sequence [literal label, blanks, exactly '=', blanks, char Text.isQuote,
    several (fun c => !Text.isQuote c), char Text.isQuote]

def rules : List (Pattern × Finding) :=
  (dynamicEvaluation, .dynamicEvaluation) ::
    ["password", "api_key", "secret"].map fun label => (quotedAssignment label, .writtenSecret)

end Security

def securityFindings (t : Text) : List Finding :=
  ruleFindings Security.rules t

end SourceAudit
