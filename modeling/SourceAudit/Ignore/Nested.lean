import SourceAudit.Files.Reading
import SourceAudit.Ignore.Rules
import SourceAudit.Ignore.Scope

/-!
# Ignore files of a folder and below

## Collecting rules

Every folder below a root may hold an ignore file.  The files are read in the order of their paths,
and each line is scoped to the folder of its file.  Folders behind links are not entered, but an
ignore file may itself be a link to something that exists.
-/

namespace SourceAudit

inductive LoadFault where
  | unreadable (fault : ReadFault)
  | badRule (fault : RuleFault)
  deriving DecidableEq

namespace LoadFault

def message : LoadFault → String
  | unreadable fault => fault.message
  | badRule fault => fault.message

end LoadFault

namespace IgnoreRules

def fileName : Text := ['.', 'g', 'i', 't', 'i', 'g', 'n', 'o', 'r', 'e']

def leadsSomewhere (links : Nat) (place : Place) (target : Text) : Bool :=
  match links with
  | 0 => false
  | links + 1 =>
      match (place.startOf target).resolve links (target.cutAt '/') with
      | .ok (.file _ _ _, _) => true
      | .ok (.folder _, _) => true
      | _ => false

def filesBelow (links : Nat) (place : Place) (names : List Text) : Folder → List (List Text)
  | .empty => []
  | .file name _ later =>
      (if name = fileName then [names ++ [name]] else []) ++ filesBelow links place names later
  | .folder name inside later =>
      (if name = fileName then [names ++ [name]] else []) ++
        filesBelow links (place.enter name inside) (names ++ [name]) inside ++
        filesBelow links place names later
  | .link name target later =>
      (if name = fileName ∧ leadsSomewhere links place target then [names ++ [name]] else []) ++
        filesBelow links place names later

def scopedLines (d : Disk) (root : Path) (names : List Text) : Except ReadFault (List Text) :=
  (d.readText (root.below names)).map fun t =>
    t.wideLines.map (scopedLine (Path.joinNames names.dropLast))

def collectLines (d : Disk) (root : Path) : List (List Text) → Except ReadFault (List Text)
  | [] => .ok []
  | names :: others => do
      let first ← scopedLines d root names
      let rest ← collectLines d root others
      return first ++ rest

/-- The paths of the ignore files below a root, in their order.  A root that is no folder has
none. -/
def filesOf (d : Disk) (root : Path) : Except ReadFault (List (List Text)) :=
  match d.folder? root with
  | .error fault => .error (.file fault root)
  | .ok none => .ok []
  | .ok (some (place, links)) => .ok (Path.sortNames (filesBelow links place [] place.current))

def load (d : Disk) (root : Path) : Except LoadFault IgnoreRules :=
  match filesOf d root with
  | .error fault => .error (.unreadable fault)
  | .ok files =>
      match collectLines d root files with
      | .error fault => .error (.unreadable fault)
      | .ok lines =>
          match ofLines lines with
          | .error fault => .error (.badRule fault)
          | .ok rules => .ok rules

end IgnoreRules
end SourceAudit
