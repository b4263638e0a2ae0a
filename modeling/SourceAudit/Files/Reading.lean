import SourceAudit.Files.Disk
import SourceAudit.Text.Utf8

/-!
# Reading texts from files

## Decoding and line breaks

A text file is decoded as UTF-8, and all its line breaks become line feeds.  A fault is either one
of the file or one of its bytes.
-/

namespace SourceAudit

inductive ReadFault where
  | file (fault : FileFault) (path : Path)
  | bytes (fault : Text.Utf8Fault)
  deriving DecidableEq

namespace ReadFault

def message : ReadFault → String
  | file fault path => fault.message path
  | bytes fault => fault.message

end ReadFault

def textOfBytes (bytes : List UInt8) : Except ReadFault Text :=
  match Text.decodeUtf8 bytes with
  | .error fault => .error (.bytes fault)
  | .ok t => .ok t.unifyBreaks

def Disk.readText (d : Disk) (p : Path) : Except ReadFault Text :=
  match d.read p with
  | .error fault => .error (.file fault p)
  | .ok bytes => textOfBytes bytes

structure Source where
  label : Text
  text : Text
  deriving DecidableEq

/-- Reads a source from a file.  Without a label, or with an empty one, the path is its label. -/
def Disk.readSource (d : Disk) (p : Path) (label : Option Text) : Except ReadFault Source :=
  match d.readText p with
  | .error fault => .error fault
  | .ok t =>
      match label with
      | some (c :: rest) => .ok ⟨c :: rest, t⟩
      | _ => .ok ⟨p.text, t⟩

end SourceAudit
