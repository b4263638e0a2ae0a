import SourceAudit.Files.Reading
import SourceAudit.Output.Json
import SourceAudit.Report

/-!
# Reports as JSON

## Members

A document holds the reports, each under its label, and the messages about files that could not be
read.  A finding has no line of its own, so its line is always null.
-/

namespace SourceAudit

def Finding.json (f : Finding) : Json :=
  .record
    [("type", .string f.kind.label), ("severity", .string f.severity.label),
      ("message", .string f.message), ("fix", .string f.fix), ("impact", .string f.impact),
      ("category", .string f.kind.heading), ("line", .null)]

def Metrics.json (m : Metrics) : Json :=
  .record
    [("cyclomatic_complexity", .int m.complexity),
      ("maintainability_index", .float m.maintainability),
      ("lines_of_code", .int m.lineCount),
      ("number_of_functions", .int m.functionCount),
      ("average_function_length", .float m.functionLength),
      ("comment_coverage", .float m.commentShare),
      ("duplicate_code", .float 0.0),
      ("unused_code", .float 0.0),
      ("test_coverage", .float m.testShare),
      ("security_score", .int m.securityScore)]

def Report.json (r : Report) : Json :=
  .record
    [("is_valid", .bool r.valid), ("has_bug", .bool r.hasBug), ("confidence", .int r.confidence),
      ("suggestions", .array (r.findings.map Finding.json)), ("metrics", r.metrics.json),
      ("time_complexity", .string r.time.label), ("space_complexity", .string r.space.label),
      ("syntax_validity", .bool r.formValid), ("semantic_validity", .bool r.namesValid)]

structure LabelledReport where
  label : Text
  report : Report

def documentOf (reports : List LabelledReport) (errors : List String) : Json :=
  .record
    [("reports", .array (reports.map fun r =>
        .record [("source", .string (String.ofList r.label)), ("result", r.report.json)])),
      ("errors", .array (errors.map .string))]

end SourceAudit
