import SourceAudit.Text.Basic

/-!
# Folders

## Contents of a directory

A folder is a list of named entries in the order in which a listing shows them: files with their
bytes, folders, and links that hold a path.  A folder is written as one entry followed by the folder
of the later entries.
-/

namespace SourceAudit

inductive Folder where
  | empty
  | file (name : Text) (bytes : List UInt8) (later : Folder)
  | folder (name : Text) (inside : Folder) (later : Folder)
  | link (name : Text) (target : Text) (later : Folder)
  deriving DecidableEq

inductive Entry where
  | file (bytes : List UInt8)
  | folder (inside : Folder)
  | link (target : Text)
  deriving DecidableEq

namespace Folder

def cons (name : Text) : Entry → Folder → Folder
  | .file bytes, later => .file name bytes later
  | .folder inside, later => .folder name inside later
  | .link target, later => .link name target later

def find? (name : Text) : Folder → Option Entry
  | empty => none
  | file other bytes later => if other = name then some (.file bytes) else later.find? name
  | folder other inside later => if other = name then some (.folder inside) else later.find? name
  | link other target later => if other = name then some (.link target) else later.find? name

/-- Changes the first entry of a name, or adds one at the end. -/
def put (name : Text) (entry : Entry) : Folder → Folder
  | empty => cons name entry empty
  | file other bytes later =>
      if other = name then cons name entry later else file other bytes (later.put name entry)
  | folder other inside later =>
      if other = name then cons name entry later else folder other inside (later.put name entry)
  | link other target later =>
      if other = name then cons name entry later else link other target (later.put name entry)

/-- Puts an entry into the folder that the given names lead to.  Nothing changes if there is no such
folder. -/
def putAt (name : Text) (entry : Entry) : List Text → Folder → Folder
  | [], f => f.put name entry
  | step :: steps, f =>
      match f.find? step with
      | some (.folder inside) => f.put step (.folder (putAt name entry steps inside))
      | _ => f

theorem find?_put_self (name : Text) (entry : Entry) (f : Folder) :
    (f.put name entry).find? name = some entry := by
  induction f with
  | empty =>
      cases entry <;> simp [put, cons, find?]
  | file other bytes later ih =>
      by_cases h : other = name
      · cases entry <;> simp [put, cons, find?, h]
      · simp [put, find?, h, ih]
  | folder other inside later _ ih =>
      by_cases h : other = name
      · cases entry <;> simp [put, cons, find?, h]
      · simp [put, find?, h, ih]
  | link other target later ih =>
      by_cases h : other = name
      · cases entry <;> simp [put, cons, find?, h]
      · simp [put, find?, h, ih]

end Folder
end SourceAudit
