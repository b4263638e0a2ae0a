import SourceAudit.Command.Loading
import SourceAudit.Command.Usage
import SourceAudit.Files.Writing
import SourceAudit.Output.ReportTable
import SourceAudit.Output.Terminal

/-!
# Running the command

## From arguments to an outcome

A run is a function of a disk, the arguments and the text on standard input.  The exit code is 0, or
1 if a finding reaches the threshold, or 2 if the run fails.
-/

namespace SourceAudit
namespace Command

def auditAll (allowList : AllowList) : List Source → Except RangeFault (List LabelledReport)
  | [] => .ok []
  | source :: rest =>
      match audit allowList source.text with
      | .error fault => .error fault
      | .ok report => (auditAll allowList rest).map (⟨source.label, report⟩ :: ·)

def reachesThreshold (threshold : Option Severity) (reports : List LabelledReport) : Bool :=
  match threshold with
  | none => false
  | some severity => reports.any fun r => r.report.reaches severity

def exitCode (threshold : Option Severity) (reports : List LabelledReport) : Nat :=
  if reachesThreshold threshold reports then 1 else 0

def findingCount (reports : List LabelledReport) : Nat :=
  reports.foldr (fun r count => r.report.findings.length + count) 0

def auditEntry (reports : List LabelledReport) (errors : List String) : LogEntry :=
  { level := .info
    message := "Analysis completed (sources=" ++ toString reports.length ++ " issues=" ++
      toString (findingCount reports) ++ " errors=" ++
      toString errors.length ++ ")" }

def errorLines (errors : List String) : Text :=
  errors.flatMap fun error => ("read_error: " ++ error ++ "\n").toList

def asciiBytes (t : Text) : List UInt8 :=
  t.map fun c => c.toNat.toUInt8

def shownDocument (terminal : Terminal) (reports : List LabelledReport) (errors : List String) :
    Text :=
  Emoji.render terminal.pictures (documentOf reports errors).text ++ ['\n']

def unwritten (begun : Outcome) (given : String) (disk : Disk) (fault : Disk.PathFault) : Outcome :=
  { begun with
    exit := 2
    stderr := begun.stderr ++ ("Failed to write JSON output file: " ++ given ++ "\n").toList
    disk
    logs := begun.logs ++
      [{ level := .warning
         message := "Failed to write JSON output file (output_path=" ++ given ++ " error=" ++
           fault.1.message fault.2 ++ ")" }] }

def writeDocument (begun done : Outcome) (given : String) (document : Text) :
    Except Escape Outcome :=
  match begun.disk.publish (Path.ofText given.toList) (asciiBytes document) with
  | (disk, none) => .ok { done with disk }
  | (_, some (.nullCharacter, _)) => .error .nullCharacter
  | (disk, some fault) => .ok (unwritten begun given disk fault)

/-- The outcome of a run whose reports are made.  `begun` is the outcome so far. -/
def publish (terminal : Terminal) (settings : Settings) (reports : List LabelledReport)
    (errors : List String) (begun : Outcome) : Except Escape Outcome :=
  let done := { begun with exit := exitCode settings.failOn reports }
  match settings.format with
  | .table => .ok { done with stdout := reports.flatMap (LabelledReport.draw terminal.width) }
  | .json =>
      match settings.outputFile with
      | none => .ok { done with stdout := shownDocument terminal reports errors }
      | some given => writeDocument begun done given (documentOf reports errors).text

def analyze (d : Disk) (stdin : Text) (settings : Settings) (terminal : Terminal) :
    Except Escape Outcome :=
  let start := Outcome.start d settings.verbose
  match load d stdin settings.source with
  | .escaped escape => .error escape
  | .failed failure =>
      .ok { start with exit := 2, stderr := failure.told.toList, logs := failure.logs }
  | .loaded found =>
      match settings.allowList with
      | none => .error .noAllowList
      | some allowList =>
          match auditAll allowList found.sources with
          | .error fault => .error (.range fault)
          | .ok reports =>
              publish terminal settings reports found.errors
                { start with
                  stderr := errorLines found.errors
                  logs := found.logs ++ [auditEntry reports found.errors] }

def stop (d : Disk) (arguments : List String) (stopped : Stopped) : Outcome :=
  let told := { Outcome.start d false with
    exit := 2
    logs := [{ level := .warning
               message := "Argument parsing failed (argv=" ++ quotedList arguments ++ ")" }] }
  match stopped with
  | .help scope => { told with usageOut := scope.help }
  | .fault scope fault => { told with usageErr := faultText scope fault }

def run (d : Disk) (arguments : List String) (stdin : Text) (terminal : Terminal := {}) :
    Except Escape Outcome :=
  match settingsOf arguments with
  | .error stopped => .ok (stop d arguments stopped)
  | .ok settings => analyze d stdin settings terminal

end Command
end SourceAudit
