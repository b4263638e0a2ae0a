import SourceAudit.Command.Outcome
import SourceAudit.Command.Settings
import SourceAudit.Discovery

/-!
# Loading the sources of a run

## Example, standard input, file or folder

A single file that cannot be read fails the run.  In a folder such a file is reported and left out,
and the others are loaded all the same.
-/

namespace SourceAudit
namespace Command

def sampleText : Text :=
  ("def calculate_factorial(n):\n" ++
    "    if n < 0:\n" ++
    "        return None\n" ++
    "    if n == 0 or n == 1:\n" ++
    "        return 1\n" ++
    "    return n * calculate_factorial(n - 1)\n" ++
    "\n" ++
    "# Test the function\n" ++
    "result = calculate_factorial(5)\n" ++
    "print(f\"Factorial of 5 is: \x7bresult\x7d\")").toList

/-- The sources of a run, the messages about files that cannot be read, and what was logged. -/
structure Loaded where
  sources : List Source
  errors : List String
  logs : List LogEntry

structure LoadFailure where
  told : String
  logs : List LogEntry

inductive Loading where
  | loaded (found : Loaded)
  | failed (failure : LoadFailure)
  | escaped (escape : Escape)

def readWarning (p : Path) (fault : ReadFault) : LogEntry :=
  { level := .warning
    message := "Failed reading source (path=" ++ String.ofList p.text ++ " error=" ++
      fault.message ++ ")" }

def readError (p : Path) (fault : ReadFault) : String :=
  String.ofList p.text ++ ": " ++ fault.message

def readAll (d : Disk) (root : Path) : List (List Text) → Loaded
  | [] => { sources := [], errors := [], logs := [] }
  | names :: rest =>
      let p := root.below names
      let others := readAll d root rest
      match d.readSource p (some (Path.joinNames names)) with
      | .ok source => { others with sources := source :: others.sources }
      | .error fault =>
          { others with
            errors := readError p fault :: others.errors
            logs := readWarning p fault :: others.logs }

def discoveryEntry (root : Path) (found : Survey) : LogEntry :=
  { level := .info
    message := "Source discovery completed (root=" ++ String.ofList root.text ++ " files=" ++
      toString found.files.length ++ " ignored=" ++ toString found.ignored ++ ")" }

/-- A failure to load the sources at a path, which is shown as given. -/
def loadFailure (given message : String) : Loading :=
  .failed
    { told := message ++ "\n"
      logs := [{ level := .warning
                 message := "Failed to load sources (path=" ++ given ++ " error=" ++ message ++
                   ")" }] }

def loadFolder (d : Disk) (given : String) (root : Path) : Loading :=
  match IgnoreRules.load d root with
  | .error (.badRule (.badRange range)) => .escaped (.badRange (.badRange range))
  | .error fault => loadFailure given fault.message
  | .ok rules =>
      match discover d rules root with
      | .error fault => loadFailure given (fault.message root)
      | .ok found =>
          let loaded := readAll d root found.files
          .loaded { loaded with logs := discoveryEntry root found :: loaded.logs }

def loadFile (d : Disk) (p : Path) : Loading :=
  match d.readSource p none with
  | .ok source => .loaded { sources := [source], errors := [], logs := [] }
  | .error fault =>
      .failed
        { told := "Failed to read source: " ++ readError p fault ++ "\n"
          logs := [readWarning p fault] }

def loadPath (d : Disk) (given : String) : Loading :=
  let p := Path.ofText given.toList
  match d.exists? p with
  | .error fault => loadFailure given (fault.message p)
  | .ok false => loadFailure given ("Path does not exist: " ++ String.ofList p.text)
  | .ok true =>
      match d.folder? p with
      | .ok (some _) => loadFolder d given p
      | _ => loadFile d p

def load (d : Disk) (stdin : Text) : SourceChoice → Loading
  | .sample => .loaded { sources := [⟨"<example>".toList, sampleText⟩], errors := [], logs := [] }
  | .stdin => .loaded { sources := [⟨"<stdin>".toList, stdin⟩], errors := [], logs := [] }
  | .path none => .escaped .noPath
  | .path (some given) => loadPath d given

end Command
end SourceAudit
