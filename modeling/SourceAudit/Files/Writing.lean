import SourceAudit.Files.Disk

/-!
# Writing files

## Folders on the way

A file is written to the place that its path leads to, through links, and replaces what was there.
Before that the folders that lead to it are created, outermost first; one that exists already is no
fault.

A fault arises when the path is looked up.  Behind that a file is assumed to take all its bytes: a
disk that is full, which would leave a part of them, is not modelled.
-/

namespace SourceAudit
namespace Disk

def putAt (d : Disk) (place : Place) (name : Text) (entry : Entry) : Disk :=
  { d with root := d.root.putAt name entry place.names }

def makeFolder (d : Disk) (p : Path) : Except FileFault Disk :=
  match p.names.getLast? with
  | none => .error .taken
  | some name =>
      if p.names.any (·.contains '\x00') then .error .nullCharacter
      else
        match d.list p.parent with
        | .error fault => .error fault
        | .ok (place, _) =>
            if name = ['.', '.'] then .error .taken
            else if Place.nameLimit < Place.byteSize name then .error .nameTooLong
            else
              match place.current.find? name with
              | some _ => .error .taken
              | none => .ok (d.putAt place name (.folder .empty))

def isFolder (d : Disk) (p : Path) : Bool :=
  match d.folder? p with
  | .ok (some _) => true
  | _ => false

abbrev PathFault := FileFault × Path

/-- Creates the folder that some names lead to, the last name first, and the folders around it.  The
disk is returned with the folders that were created, and with the fault if one was not. -/
def ensureFoldersTo (d : Disk) (top : Text) (names : List Text) : Disk × Option PathFault :=
  let p : Path := ⟨top, names.reverse⟩
  match d.makeFolder p, names with
  | .ok changed, _ => (changed, none)
  | .error .missing, _ :: around =>
      match d.ensureFoldersTo top around with
      | (prepared, some fault) => (prepared, some fault)
      | (prepared, none) =>
          match prepared.makeFolder p with
          | .ok changed => (changed, none)
          | .error fault =>
              (prepared, if prepared.isFolder p then none else some (fault, p))
  | .error fault, _ => (d, if d.isFolder p then none else some (fault, p))

def ensureFolders (d : Disk) (p : Path) : Disk × Option PathFault :=
  d.ensureFoldersTo p.top p.names.reverse

def write (d : Disk) (p : Path) (bytes : List UInt8) : Except FileFault Disk :=
  match d.resolve p with
  | .ok (.file place name _, _) => .ok (d.putAt place name (.file bytes))
  | .ok (.absent place name, _) => .ok (d.putAt place name (.file bytes))
  | .ok (.folder _, _) => .error .isFolder
  | .error fault => .error fault

/-- Creates the folders that lead to a file and writes it.  Folders that were created stay, even if
the file cannot be written. -/
def publish (d : Disk) (p : Path) (bytes : List UInt8) : Disk × Option PathFault :=
  match d.ensureFolders p.parent with
  | (prepared, some fault) => (prepared, some fault)
  | (prepared, none) =>
      match prepared.write p bytes with
      | .error fault => (prepared, some (fault, p))
      | .ok written => (written, none)

/-!
# What has changed
-/

def filesBelow (d : Disk) (place : Place) (names : List Text) :
    Folder → List (List Text × List UInt8)
  | .empty => []
  | .file name bytes later => (names ++ [name], bytes) :: d.filesBelow place names later
  | .folder name inside later =>
      d.filesBelow (place.enter name inside) (names ++ [name]) inside ++
        d.filesBelow place names later
  | .link name target later =>
      (match (place.startOf target).resolve linkLimit (target.cutAt '/') with
        | .ok (.file _ _ bytes, _) => [(names ++ [name], bytes)]
        | _ => []) ++ d.filesBelow place names later

def files (d : Disk) : List (List Text × List UInt8) :=
  match d.list ⟨[], []⟩ with
  | .ok (place, _) => d.filesBelow place [] place.current
  | .error _ => []

def changes (before after : Disk) : List (List Text × List UInt8) :=
  let known := before.files
  after.files.filter fun file => !known.contains file

def foldersBelow (names : List Text) : Folder → List (List Text)
  | .empty => []
  | .file _ _ later => foldersBelow names later
  | .folder name inside later =>
      (names ++ [name]) :: (foldersBelow (names ++ [name]) inside ++ foldersBelow names later)
  | .link _ _ later => foldersBelow names later

def newFolders (before after : Disk) : List (List Text) :=
  let known := foldersBelow [] before.root
  (foldersBelow [] after.root).filter fun folder => !known.contains folder

end Disk
end SourceAudit
