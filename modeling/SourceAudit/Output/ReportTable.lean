import SourceAudit.Number.Format
import SourceAudit.Output.ReportJson
import SourceAudit.Output.Table

/-!
# Reports on a terminal

## Title, verdict and tables

A report is drawn over the whole width of a terminal: a rule with the label of the source, the
verdict, a table of metrics, and a table of the findings if there are any.
-/

namespace SourceAudit

/-!
# The title
-/

def isHiddenControl (c : Char) : Bool :=
  ['\x07', '\x08', '\x0b', '\x0c', '\r'].contains c

def tabWidth : Nat := 8

/-- The piece of a text before a tab, filled up with spaces to the next tab stop.  There is at least
one space. -/
def fillToStop (piece : Text) : Text :=
  let begun := piece ++ [' ']
  begun ++ Text.spaces ((tabWidth - Text.width begun % tabWidth) % tabWidth)

def joinAtStops : List Text → Text
  | [] => []
  | [last] => last
  | piece :: rest => fillToStop piece ++ joinAtStops rest

def expandTabs (t : Text) : Text :=
  joinAtStops (t.cutAt '\t')

/-- A label as it stands in a title, on one line and cut with an ellipsis if it is too wide. -/
def titleOf (width : Nat) (label : Text) : Text :=
  let line := (label.filter fun c => !isHiddenControl c).map fun c => if c = '\n' then ' ' else c
  let expanded := expandTabs line
  if Text.width expanded ≤ width - 4 then expanded
  else Text.cropTo (width - 5) expanded ++ ['…']

def ruleStyle : Style := some "36"

def dashes (n : Nat) : Text :=
  List.replicate n '-'

/-- A title between dashes, as wide as the terminal; without a title, dashes alone. -/
def drawTitle (width : Nat) (label : Text) : Text :=
  let title := titleOf width label
  if title.isEmpty then styled ruleStyle (dashes width) ++ ['\n']
  else
    let used := Text.width title
    let side := (width - used) / 2
    let left := dashes (side - 1)
    let right := dashes (min (side + 1) (width - left.length - used))
    let shown := Text.cropTo (width - left.length - 1 - used) (' ' :: right)
    styled ruleStyle (left ++ [' ']) ++ title ++ styled ruleStyle shown ++ ['\n']

/-!
# The metrics
-/

def Report.summary (r : Report) : List (String × String) :=
  [("issues_found", toString r.findings.length),
    ("confidence", toString r.confidence ++ ".0%"),
    ("time_complexity", r.time.label),
    ("space_complexity", r.space.label),
    ("cyclomatic_complexity", toString r.metrics.complexity),
    ("maintainability_index", Number.shortText r.metrics.maintainability),
    ("lines_of_code", toString r.metrics.lineCount),
    ("number_of_functions", toString r.metrics.functionCount),
    ("average_function_length", Number.shortText r.metrics.functionLength ++ " lines"),
    ("comment_coverage", Number.shortText r.metrics.commentShare ++ "%"),
    ("test_coverage", Number.shortText r.metrics.testShare ++ "%"),
    ("security_score", toString r.metrics.securityScore)]

def neededWidth (texts : List String) : Nat :=
  (texts.map String.length).foldl max 0 + 2

def lineCell (cells : Nat) (fitted : Nat → Text) : Table.Cell :=
  { cells, lines := [fitted cells] }

def summaryWidths (width : Nat) (lines : List (String × String)) : List Nat :=
  let all := ("metric", "value") :: lines
  let needed := [neededWidth (all.map (·.1)), neededWidth (all.map (·.2))]
  (Table.widen (Table.inside width needed.length) needed).map (· - 2)

def summaryCells (widths : List Nat) (line : String × String) : List Table.Cell :=
  List.zipWith lineCell widths
    [fun cells => Text.fit cells line.1.toList, fun cells => Text.fitRight cells line.2.toList]

def drawSummary (width : Nat) (lines : List (String × String)) : Text :=
  let widths := summaryWidths width lines
  Table.draw widths (summaryCells widths ("metric", "value")) false
    (lines.map fun line => ⟨none, summaryCells widths line⟩)

/-!
# The findings
-/

def Severity.style : Severity → Style
  | critical => some "1;31"
  | high => some "38;5;208"
  | medium => some "33"
  | low => some "34"

def findingColumns : List (String × Nat) :=
  [("type", 1), ("severity", 1), ("message", 3), ("impact", 3), ("fix", 3)]

def findingWidths (width : Nat) : List Nat :=
  let cells := Table.inside width findingColumns.length
  (Table.distribute 3 cells (findingColumns.map (·.2))).map (· - 2)

def findingCells (width : Nat) (texts : List String) : List Table.Cell :=
  List.zipWith (fun cells text => Table.wrapped cells text.toList) (findingWidths width) texts

def Finding.texts (f : Finding) : List String :=
  [f.kind.label, f.severity.label, f.message, f.impact, f.fix]

def Finding.row (width : Nat) (f : Finding) : Table.Row :=
  { style := f.severity.style, cells := findingCells width f.texts }

def drawFindings (width : Nat) (found : List Finding) : Text :=
  Table.draw (findingWidths width) (findingCells width (findingColumns.map (·.1))) true
    (found.map (Finding.row width))

/-!
# The whole report
-/

def drawVerdict (valid : Bool) : Text :=
  (if valid then styled (some "32") "Valid Python code".toList
    else styled (some "31") "Invalid Python code".toList) ++ ['\n']

def LabelledReport.draw (width : Nat) (r : LabelledReport) : Text :=
  drawTitle width r.label ++ drawVerdict r.report.valid ++ drawSummary width r.report.summary ++
    if r.report.findings.isEmpty then [] else drawFindings width r.report.findings

end SourceAudit
