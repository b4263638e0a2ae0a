import SourceAudit.Files.Disk
import SourceAudit.Ignore.Rule
import SourceAudit.Maintainability

/-!
# Outcomes of a run

## Streams, log and exit code

A run ends with an exit code, with what it has written to its two streams, with a log, and with the
disk as it is afterwards.  A few causes leave a run without any of these.
-/

namespace SourceAudit
namespace Command

inductive Level where
  | info
  | warning
  deriving DecidableEq, Repr

def Level.label : Level → String
  | info => "INFO"
  | warning => "WARNING"

structure LogEntry where
  level : Level
  message : String
  deriving DecidableEq, Repr

structure Outcome where
  exit : Nat
  stdout : Text
  stderr : Text
  /-- The help text, if it is asked for. -/
  usageOut : String
  usageErr : String
  verbose : Bool
  logs : List LogEntry
  disk : Disk

/-- Why a run has no outcome. -/
inductive Escape where
  | badRange (fault : RuleFault)
  | nullCharacter
  | noPath
  | noAllowList
  | range (fault : RangeFault)

namespace Escape

def message : Escape → String
  | badRange fault => fault.message
  | nullCharacter => "embedded null byte"
  | noPath => "expected str, bytes or os.PathLike object, not list"
  | noAllowList => "Unsupported allow_list mode: []"
  | range fault => fault.message

end Escape

def Outcome.start (d : Disk) (verbose : Bool) : Outcome :=
  { exit := 0
    stdout := []
    stderr := []
    usageOut := ""
    usageErr := ""
    verbose
    logs := []
    disk := d }

end Command
end SourceAudit
