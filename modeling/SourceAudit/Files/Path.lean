import SourceAudit.Text.Basic

/-!
# Paths

## Names between slashes

A path is relative, or starts at the top of the file system.  Empty names and single dots are
dropped when it is read; two dots are kept, because what they mean depends on links.  The relative
path without names is written as a single dot.
-/

namespace SourceAudit

/-- A path: what stands before its first name, and its names. -/
structure Path where
  /-- Nothing for a relative path, else one slash or two. -/
  top : Text
  names : List Text
  deriving DecidableEq, Repr

namespace Path

/-- The slashes that begin a path: none, one, or exactly two. -/
def topOf (t : Text) : Text :=
  match t.takeWhile (· == '/') with
  | [] => []
  | [_, _] => ['/', '/']
  | _ => ['/']

def ofText (t : Text) : Path :=
  { top := topOf t
    names := (t.cutAt '/').filter fun name => name ≠ [] ∧ name ≠ ['.'] }

def joinNames (names : List Text) : Text :=
  Text.join ['/'] names

def text (p : Path) : Text :=
  if p.top.isEmpty && p.names.isEmpty then ['.'] else p.top ++ joinNames p.names

def below (p : Path) (names : List Text) : Path :=
  { p with names := p.names ++ names }

def parent (p : Path) : Path :=
  { p with names := p.names.dropLast }

/-- Whether a name is that of a file with an ending: a dot that is neither first nor last, with the
ending behind it and no further dot. -/
def hasEnding (ending name : Text) : Bool :=
  let behind := (name.reverse.takeWhile (· != '.')).reverse
  let before := (name.reverse.dropWhile (· != '.')).drop 1
  behind == ending && !behind.isEmpty && !before.isEmpty

/-!
# The order of paths

Paths are ordered name by name, and names character by character.
-/

def nameBefore (a b : Text) : Bool :=
  List.lex a b fun x y => x.toNat < y.toNat

def namesBefore (a b : List Text) : Bool :=
  List.lex a b nameBefore

def sortNames (paths : List (List Text)) : List (List Text) :=
  paths.mergeSort fun a b => !namesBefore b a

end Path
end SourceAudit
