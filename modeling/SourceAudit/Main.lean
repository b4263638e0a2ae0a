import SourceAudit.Command.Run

/-!
# The program

## A run on the real file system

The library works on a picture of the file system.  The program takes that picture of the paths
named on the command line: the folders that lead to them and all that lies below.  It then runs the
command, prints its log and its streams, and makes the folders and writes the files that the run has
made or changed.

A folder that may not be listed stops the program, and so does a file that the run might read and
may not.
-/

namespace SourceAudit
namespace Program

/-- A picture in progress: the tree, and the folders that are already in it. -/
structure Picture where
  root : Folder
  seen : List String

def namesOf (path : String) : List Text :=
  (Path.ofText path.toList).names

def putEntry (root : Folder) (path : String) (entry : Entry) : Folder :=
  let names := namesOf path
  match names.reverse with
  | [] => root
  | name :: around =>
      let disk : Disk := { root, here := [] }
      (disk.ensureFoldersTo ['/'] around).1.root.putAt name entry around.reverse

def putFolder (root : Folder) (path : String) : Folder :=
  let disk : Disk := { root, here := [] }
  (disk.ensureFoldersTo ['/'] (namesOf path).reverse).1.root

def child (around name : String) : String :=
  if around == "/" then "/" ++ name else around ++ "/" ++ name

def mayBeRead (name : String) : Bool :=
  name.toList == IgnoreRules.fileName || Path.hasEnding Survey.sourceEnding name.toList

/-- Takes the picture of what lies at an absolute path without links, and below.  The bytes of a
file that is not needed are left out if they cannot be had. -/
partial def record (picture : Picture) (path : String) (needed : Bool) : IO Picture := do
  if picture.seen.contains path then
    return picture
  let place ← IO.FS.realPath path
  if ← place.isDir then
    let entries ← place.readDir
    let mut next : Picture :=
      { root := putFolder picture.root path, seen := path :: picture.seen }
    for entry in entries do
      let shown := child path entry.fileName
      let actual ← (IO.FS.realPath entry.path).toBaseIO
      match actual with
      | .error _ =>
          next := { next with root := putEntry next.root shown (.link entry.fileName.toList) }
      | .ok found =>
          if found.toString == shown then
            next ← record next shown (mayBeRead entry.fileName)
          else
            next :=
              { next with root := putEntry next.root shown (.link found.toString.toList) }
            next ← record next found.toString (mayBeRead entry.fileName)
    return next
  else
    let bytes ← (IO.FS.readBinFile place).toBaseIO
    match bytes with
    | .ok content =>
        return { picture with root := putEntry picture.root path (.file content.toList) }
    | .error fault =>
        if needed then throw fault
        return { picture with root := putEntry picture.root path (.file []) }

/-- Takes the picture of the folders that lead to a path, and of what lies there. -/
def recordNamed (picture : Picture) (here given : String) (deep : Bool) : IO Picture := do
  let p := Path.ofText given.toList
  let mut around := if p.top.isEmpty then here else "/"
  let mut next := picture
  for name in p.names do
    let shown := child around (String.ofList name)
    let actual ← (IO.FS.realPath shown).toBaseIO
    match actual with
    | .error _ => return next
    | .ok found =>
        if name != ['.', '.'] && found.toString != shown then
          next :=
            { next with root := putEntry next.root shown (.link found.toString.toList) }
        if ← found.isDir then
          next := { next with root := putFolder next.root found.toString }
        around := found.toString
  if deep then record next around true else return next

def pictureFor (here : String) (arguments : List String) : IO Disk := do
  let start : Picture := { root := putFolder .empty here, seen := [] }
  let picture ←
    match Command.settingsOf arguments with
    | .error _ => pure start
    | .ok settings => do
        let sourced ←
          match settings.source with
          | .path (some given) => recordNamed start here given true
          | _ => pure start
        match settings.output with
        | some given => recordNamed sourced here given false
        | none => pure sourced
  return { root := picture.root, here := namesOf here }

def inputFor (arguments : List String) : IO Text := do
  match Command.settingsOf arguments with
  | .ok settings =>
      if settings.source == .stdin then
        let content ← (← IO.getStdin).readToEnd
        return content.toList
      else return []
  | .error _ => return []

def writeChanges (before after : Disk) : IO Unit := do
  for folder in Disk.newFolders before after do
    IO.FS.createDir ("/" ++ String.ofList (Path.joinNames folder))
  for file in Disk.changes { before with here := [] } { after with here := [] } do
    IO.FS.writeBinFile ("/" ++ String.ofList (Path.joinNames file.1)) (ByteArray.mk file.2.toArray)

def execute (arguments : List String) : IO UInt32 := do
  let here ← IO.currentDir
  let disk ← pictureFor here.toString arguments
  let input ← inputFor arguments
  match Command.run disk arguments input with
  | .error escape =>
      IO.eprintln escape.message
      return 1
  | .ok outcome =>
      IO.print outcome.usageOut
      IO.eprint outcome.usageErr
      for entry in outcome.logs do
        IO.println (entry.level.label ++ " " ++ entry.message)
      IO.print (String.ofList outcome.stdout)
      IO.eprint (String.ofList outcome.stderr)
      writeChanges disk outcome.disk
      return outcome.exit.toUInt32

end Program
end SourceAudit

def main (arguments : List String) : IO UInt32 :=
  SourceAudit.Program.execute arguments
