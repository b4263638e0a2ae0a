import SourceAudit.Growth
import SourceAudit.Metrics
import SourceAudit.Names.Unknown
import SourceAudit.Plausibility
import SourceAudit.Security

/-!
# Audit reports

## All passes over one text

A report lists the findings of all passes in a fixed order: the form of the text, unknown names,
habits, security.  The flags and the confidence are computed from the findings: the confidence is
100, less 10 for each finding, but not below 0.  A text of blanks is valid and has no findings; its
report is given as a whole.
-/

namespace SourceAudit

/-- The result of an audit of one text.  The verdict on the form of the text is told twice. -/
structure Report where
  valid : Bool
  hasBug : Bool
  confidence : Int
  findings : List Finding
  metrics : Metrics
  time : Growth
  space : Growth
  formValid : Bool
  namesValid : Bool

namespace Report

def reaches (threshold : Severity) (r : Report) : Bool :=
  r.findings.any fun finding => threshold.rank ≤ finding.severity.rank

def blank : Report :=
  { valid := true
    hasBug := false
    confidence := 100
    findings := []
    metrics := .blank
    time := .constant
    space := .constant
    formValid := true
    namesValid := true }

def confidencePenalty : Int := 10

def confidenceOf (count : Nat) : Int :=
  max 0 (min 100 (100 - confidencePenalty * count))

end Report

def formFindings (valid : Bool) : List Finding :=
  if valid then [] else [.malformed]

def audit (allowList : AllowList) (t : Text) : Except RangeFault Report :=
  if t.isAllBlank then .ok .blank
  else
    let valid := isValid t
    let names := nameFindings allowList t
    let practice := practiceFindings t
    let security := securityFindings t
    let findings := formFindings valid ++ names ++ practice ++ security
    (Metrics.ofText t security.length).map fun metrics =>
      { valid
        hasBug := !valid || !findings.isEmpty
        confidence := Report.confidenceOf findings.length
        findings
        metrics
        time := Growth.ofTime t
        space := Growth.ofSpace t
        formValid := valid
        namesValid := names.isEmpty }

end SourceAudit
