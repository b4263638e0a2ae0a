import SourceAudit.Files.Folder
import SourceAudit.Files.Path
import SourceAudit.Text.Quoted

/-!
# Looking up paths

## From a path to an entry

A disk is a tree of folders together with a working directory.  A path is followed name by name.
Two dots lead to the enclosing folder, and a link is replaced by the path that it holds.  A single
look-up follows at most forty links.

A look-up ends at a folder, at a file, or at a name that is missing from an existing folder.

A path that is given can be too long.  The paths below a folder that is audited are assumed to be
short enough, and a run is assumed to be allowed to list all folders and to read and write all
files.
-/

namespace SourceAudit

/-- A tree of folders and a working directory in it. -/
structure Disk where
  root : Folder
  here : List Text

inductive FileFault where
  | missing
  | taken
  | notFolder
  | isFolder
  | nameTooLong
  | linkLoop
  | nullCharacter
  deriving DecidableEq, Repr

namespace FileFault

def words? : FileFault → Option (Nat × String)
  | missing => some (2, "No such file or directory")
  | taken => some (17, "File exists")
  | notFolder => some (20, "Not a directory")
  | isFolder => some (21, "Is a directory")
  | nameTooLong => some (36, "File name too long")
  | linkLoop => some (40, "Too many levels of symbolic links")
  | nullCharacter => none

def message (fault : FileFault) (p : Path) : String :=
  match fault.words? with
  | some (number, words) =>
      "[Errno " ++ Nat.repr number ++ "] " ++ words ++ ": " ++ String.ofList (Text.quoted p.text)
  | none => "embedded null byte"

/-- Whether a fault only means that nothing is there. -/
def meansAbsent : FileFault → Bool
  | missing => true
  | notFolder => true
  | linkLoop => true
  | nullCharacter => true
  | taken => false
  | isFolder => false
  | nameTooLong => false

end FileFault

/-- A folder in a tree, with the folders around it. -/
structure Place where
  root : Folder
  /-- The names and contents of the folders that lead here, the innermost first. -/
  trail : List (Text × Folder)

namespace Place

def current (p : Place) : Folder :=
  match p.trail with
  | [] => p.root
  | (_, inside) :: _ => inside

def enter (p : Place) (name : Text) (inside : Folder) : Place :=
  { p with trail := (name, inside) :: p.trail }

/-- The enclosing place; the top encloses itself. -/
def parent (p : Place) : Place :=
  { p with trail := p.trail.drop 1 }

def top (p : Place) : Place :=
  { p with trail := [] }

def names (p : Place) : List Text :=
  (p.trail.map (·.1)).reverse

end Place

inductive Found where
  | folder (place : Place)
  | file (place : Place) (name : Text) (bytes : List UInt8)
  /-- An existing folder lacks the last name. -/
  | absent (place : Place) (name : Text)

/-- Where the names of a path lead before a link has to be followed. -/
inductive Stop where
  | found (what : Found)
  | atLink (place : Place) (target : Text) (later : List Text)

namespace Place

def nameLimit : Nat := 255

def byteSize (name : Text) : Nat :=
  name.foldr (fun c bytes => c.utf8Size + bytes) 0

def follow (p : Place) : List Text → Except FileFault Stop
  | [] => .ok (.found (.folder p))
  | name :: later =>
      if name = [] ∨ name = ['.'] then p.follow later
      else if name = ['.', '.'] then p.parent.follow later
      else if nameLimit < byteSize name then .error .nameTooLong
      else
        match p.current.find? name with
        | some (.folder inside) => (p.enter name inside).follow later
        | some (.file bytes) =>
            if later.isEmpty then .ok (.found (.file p name bytes)) else .error .notFolder
        | some (.link target) => .ok (.atLink p target later)
        | none => if later.isEmpty then .ok (.found (.absent p name)) else .error .missing

/-- Where a path that a link holds begins. -/
def startOf (p : Place) (target : Text) : Place :=
  if target.head? = some '/' then p.top else p

/-- Follows names and at most the given number of links.  The number of links that are left is
returned with what is found. -/
def resolve : Nat → Place → List Text → Except FileFault (Found × Nat)
  | links, p, names =>
      match p.follow names with
      | .error fault => .error fault
      | .ok (.found what) => .ok (what, links)
      | .ok (.atLink q target later) =>
          match links with
          | 0 => .error .linkLoop
          | links + 1 => resolve links (q.startOf target) (target.cutAt '/' ++ later)

end Place

namespace Disk

def linkLimit : Nat := 40

/-- The greatest number of bytes in a path that is given. -/
def pathLimit : Nat := 4095

def top (d : Disk) : Place :=
  { root := d.root, trail := [] }

/-- Follows the names of a path from the place where it begins. -/
def find (d : Disk) (p : Path) : Except FileFault (Found × Nat) :=
  if p.names.any (·.contains '\x00') then .error .nullCharacter
  else if p.top.isEmpty then d.top.resolve linkLimit (d.here ++ p.names)
  else d.top.resolve linkLimit p.names

/-- Looks up a path that is given, which may be too long. -/
def resolve (d : Disk) (p : Path) : Except FileFault (Found × Nat) :=
  if p.names.any (·.contains '\x00') then .error .nullCharacter
  else if pathLimit < Place.byteSize p.text then .error .nameTooLong
  else d.find p

/-- Whether a path leads to a file or a folder.  A name that is too long is a fault. -/
def exists? (d : Disk) (p : Path) : Except FileFault Bool :=
  match d.resolve p with
  | .ok (.absent _ _, _) => .ok false
  | .ok _ => .ok true
  | .error fault => if fault.meansAbsent then .ok false else .error fault

def folder? (d : Disk) (p : Path) : Except FileFault (Option (Place × Nat)) :=
  match d.resolve p with
  | .ok (.folder place, links) => .ok (some (place, links))
  | .ok _ => .ok none
  | .error fault => if fault.meansAbsent then .ok none else .error fault

def read (d : Disk) (p : Path) : Except FileFault (List UInt8) :=
  match d.find p with
  | .ok (.file _ _ bytes, _) => .ok bytes
  | .ok (.folder _, _) => .error .isFolder
  | .ok (.absent _ _, _) => .error .missing
  | .error fault => .error fault

def list (d : Disk) (p : Path) : Except FileFault (Place × Nat) :=
  match d.resolve p with
  | .ok (.folder place, links) => .ok (place, links)
  | .ok (.file _ _ _, _) => .error .notFolder
  | .ok (.absent _ _, _) => .error .missing
  | .error fault => .error fault

end Disk
end SourceAudit
