import SourceAudit.Command.Options
import SourceAudit.Finding
import SourceAudit.Names.AllowList
import SourceAudit.Text.Quoted

/-!
# Settings from a command line

## The main command and its one subcommand

The main command takes options and then the name of a subcommand, to which all later arguments
belong.  The subcommand needs exactly one source: a path, standard input or an example.  An option
that is given again replaces its earlier value.

A value is the argument that follows its option, or stands behind an equals sign.  A bare `--`
behind an equals sign is taken away and leaves no value at all.
-/

namespace SourceAudit
namespace Command

inductive Scope where
  | main
  | analyze
  deriving DecidableEq, Repr

inductive MainOption where
  | help
  | verbose
  deriving DecidableEq, Repr

inductive AnalyzeOption where
  | help
  | path
  | stdin
  | sample
  | format
  | output
  | allowList
  | failOn
  deriving DecidableEq, Repr

def mainSpellings : List (Spelling MainOption) :=
  [⟨"-h", .help⟩, ⟨"--help", .help⟩, ⟨"--verbose", .verbose⟩]

def analyzeSpellings : List (Spelling AnalyzeOption) :=
  [⟨"-h", .help⟩, ⟨"--help", .help⟩, ⟨"--path", .path⟩, ⟨"--stdin", .stdin⟩,
    ⟨"--example", .sample⟩, ⟨"--format", .format⟩, ⟨"--output", .output⟩,
    ⟨"--allow-list", .allowList⟩, ⟨"--fail-on", .failOn⟩]

def shownName [BEq ι] (table : List (Spelling ι)) (which : ι) : String :=
  String.intercalate "/" ((table.filter fun entry => entry.option == which).map (·.spelling))

def analyzeName : String := "analyze"

/-!
# Faults
-/

inductive UsageFault where
  | ambiguous (ambiguity : Ambiguity)
  | valueMissing (option : String)
  | valueUnused (option value : String)
  | badChoice (option value : String) (choices : List String)
  | conflict (option other : String)
  | sourceMissing
  | commandMissing
  | unrecognized (arguments : List String)
  deriving DecidableEq, Repr

namespace UsageFault

def message : UsageFault → String
  | ambiguous ambiguity =>
      "ambiguous option: " ++ ambiguity.given ++ " could match " ++
        String.intercalate ", " ambiguity.fitting
  | valueMissing option => "argument " ++ option ++ ": expected one argument"
  | valueUnused option value =>
      "argument " ++ option ++ ": ignored explicit argument " ++ quoted value
  | badChoice option value choices =>
      "argument " ++ option ++ ": invalid choice: " ++ quoted value ++ " (choose from " ++
        String.intercalate ", " (choices.map quoted) ++ ")"
  | conflict option other =>
      "argument " ++ option ++ ": not allowed with argument " ++ other
  | sourceMissing => "one of the arguments --path --stdin --example is required"
  | commandMissing => "the following arguments are required: command"
  | unrecognized arguments => "unrecognized arguments: " ++ String.intercalate " " arguments

end UsageFault

/-- Why no audit is started: help is asked for, or the arguments are at fault. -/
inductive Stopped where
  | help (scope : Scope)
  | fault (scope : Scope) (fault : UsageFault)
  deriving DecidableEq, Repr

/-!
# Settings
-/

inductive SourceChoice where
  /-- A file or a folder.  The path is missing if its value was taken away. -/
  | path (given : Option String)
  | stdin
  | sample
  deriving DecidableEq, Repr

def SourceChoice.option : SourceChoice → AnalyzeOption
  | path _ => .path
  | stdin => .stdin
  | sample => .sample

inductive Format where
  | table
  | json
  deriving DecidableEq, Repr

namespace Format

def all : List Format :=
  [table, json]

def label : Format → String
  | table => "table"
  | json => "json"

def ofLabel? (label : String) : Option Format :=
  all.find? (·.label == label)

end Format

structure Settings where
  verbose : Bool
  source : SourceChoice
  format : Format
  output : Option String
  allowList : Option AllowList
  failOn : Option Severity
  deriving DecidableEq, Repr

/-- The file for the document, unless its path is empty. -/
def Settings.outputFile (settings : Settings) : Option String :=
  settings.output.filter fun given => !given.isEmpty

/-- The settings of the subcommand read so far, and the arguments without meaning, the last one
first. -/
structure Draft where
  source : Option SourceChoice
  format : Format
  output : Option String
  allowList : Option AllowList
  failOn : Option Severity
  extras : List String
  deriving DecidableEq, Repr

def Draft.start : Draft :=
  { source := none
    format := .table
    output := none
    allowList := some .compat
    failOn := none
    extras := [] }

def choose (which : AnalyzeOption) (labels : List String) (given : String) (found : Option α) :
    Except UsageFault α :=
  match found with
  | some value => .ok value
  | none => .error (.badChoice (shownName analyzeSpellings which) given labels)

/-- Chooses a source, unless another option has chosen one before. -/
def Draft.choose (d : Draft) (choice : SourceChoice) : Except UsageFault Draft :=
  match d.source with
  | none => .ok { d with source := some choice }
  | some earlier =>
      if earlier.option = choice.option then .ok { d with source := some choice }
      else
        .error (.conflict (shownName analyzeSpellings choice.option)
          (shownName analyzeSpellings earlier.option))

/-- Takes an option that needs a value, which is missing if it was taken away. -/
def Draft.takeValue (d : Draft) (which : AnalyzeOption) (value : Option String) :
    Except UsageFault Draft :=
  match which, value with
  | .path, _ => d.choose (.path value)
  | .format, none => .ok { d with format := .table }
  | .format, some given =>
      (Command.choose which (Format.all.map Format.label) given (Format.ofLabel? given)).map
        fun format => { d with format }
  | .output, _ => .ok { d with output := value }
  | .allowList, none => .ok { d with allowList := none }
  | .allowList, some given =>
      (Command.choose which (AllowList.all.map AllowList.label) given (AllowList.ofLabel? given)).map
        fun found => { d with allowList := some found }
  | .failOn, none => .ok { d with failOn := none }
  | .failOn, some given =>
      (Command.choose which (Severity.all.map Severity.label) given (Severity.ofLabel? given)).map
        fun found => { d with failOn := some found }
  | _, _ => .ok d

def AnalyzeOption.needsValue : AnalyzeOption → Bool
  | help => false
  | stdin => false
  | sample => false
  | path => true
  | format => true
  | output => true
  | allowList => true
  | failOn => true

/-- The value behind an equals sign, which is taken away if it is a bare double hyphen. -/
def attached (value : String) : Option String :=
  if value = "--" then none else some value

/-!
# Reading arguments
-/

/-- The outcome of a help option.  What stands directly behind a short `-h` may ask for help again;
any other value is a fault. -/
def helpWith (scope : Scope) (option : String) (short : Bool) (value : Option String) : Stopped :=
  match value with
  | none => .help scope
  | some given =>
      let behind := given.toList.dropWhile (· == 'h')
      if short && !given.isEmpty then
        if behind.isEmpty then .help scope
        else .fault scope (.valueUnused option (String.ofList behind))
      else .fault scope (.valueUnused option given)

def Draft.takeFlag (d : Draft) (which : AnalyzeOption) : Except UsageFault Draft :=
  match which with
  | .stdin => d.choose .stdin
  | .sample => d.choose .sample
  | _ => .ok d

/-- Reads one argument of the subcommand.  `waiting` is the option before it that still needs a
value; so is the option returned with the draft. -/
def readArgument (d : Draft) (waiting : Option AnalyzeOption) (given : String)
    (argument : Argument AnalyzeOption) : Except Stopped (Draft × Option AnalyzeOption) :=
  match waiting, argument with
  | some which, .plain value =>
      match d.takeValue which (some value) with
      | .error fault => .error (.fault .analyze fault)
      | .ok next => .ok (next, none)
  | some which, _ =>
      .error (.fault .analyze (.valueMissing (shownName analyzeSpellings which)))
  | none, .option which short value =>
      let shown := shownName analyzeSpellings which
      if which = .help then .error (helpWith .analyze shown short value)
      else if which.needsValue then
        match value with
        | none => .ok (d, some which)
        | some value =>
            match d.takeValue which (attached value) with
            | .error fault => .error (.fault .analyze fault)
            | .ok next => .ok (next, none)
      else
        match value with
        | some value => .error (.fault .analyze (.valueUnused shown value))
        | none =>
            match d.takeFlag which with
            | .error fault => .error (.fault .analyze fault)
            | .ok next => .ok (next, none)
  | none, _ => .ok ({ d with extras := given :: d.extras }, none)

def readAnalyze (d : Draft) (waiting : Option AnalyzeOption) :
    List (String × Argument AnalyzeOption) → Except Stopped Draft
  | [] =>
      match waiting with
      | none => .ok d
      | some which =>
          .error (.fault .analyze (.valueMissing (shownName analyzeSpellings which)))
  | (given, argument) :: rest =>
      match readArgument d waiting given argument with
      | .error stopped => .error stopped
      | .ok (next, waiting) => readAnalyze next waiting rest

/-- Reads the arguments behind the name of the subcommand.  The arguments without meaning are
returned in order. -/
def readSubcommand (verbose : Bool) (given : List String) :
    Except Stopped (Settings × List String) :=
  match classifyAll analyzeSpellings given with
  | .error ambiguity => .error (.fault .analyze (.ambiguous ambiguity))
  | .ok arguments =>
      match readAnalyze .start none arguments with
      | .error stopped => .error stopped
      | .ok d =>
          match d.source with
          | none => .error (.fault .analyze .sourceMissing)
          | some source =>
              .ok ({ verbose, source, format := d.format, output := d.output,
                     allowList := d.allowList, failOn := d.failOn }, d.extras.reverse)

def readMain (verbose : Bool) (extras : List String) :
    List (String × Argument MainOption) → Except Stopped (Settings × List String)
  | [] => .error (.fault .main .commandMissing)
  | (given, .unknown _) :: rest => readMain verbose (given :: extras) rest
  | (_, .option .help short value) :: _ =>
      .error (helpWith .main (shownName mainSpellings .help) short value)
  | (_, .option .verbose _ value) :: rest =>
      match value with
      | some given =>
          .error (.fault .main (.valueUnused (shownName mainSpellings .verbose) given))
      | none => readMain true extras rest
  | (_, .divider) :: rest =>
      if rest.isEmpty then .error (.fault .main .commandMissing)
      else .error (.fault .main (.badChoice "command" "--" [analyzeName]))
  | (given, .plain _) :: rest =>
      if given = analyzeName then
        (readSubcommand verbose (rest.map (·.1))).map fun found =>
          (found.1, extras.reverse ++ found.2)
      else .error (.fault .main (.badChoice "command" given [analyzeName]))

def settingsOf (given : List String) : Except Stopped Settings :=
  match classifyAll mainSpellings given with
  | .error ambiguity => .error (.fault .main (.ambiguous ambiguity))
  | .ok arguments =>
      match readMain false [] arguments with
      | .error stopped => .error stopped
      | .ok (settings, extras) =>
          if extras.isEmpty then .ok settings
          else .error (.fault .main (.unrecognized extras))

end Command
end SourceAudit
