import SourceAudit.Ignore.Nested

/-!
# Finding the sources in a folder

## A walk that prunes

The walk lists a folder and enters its folders, also through links.  It leaves out what the rules
ignore and every folder named `.git`, and does not enter what it leaves out.  What is neither a
folder nor ignored is a source if its name ends in `.py`.

A chain of links into enclosing folders ends when a look-up would follow too many links: such a link
counts as a file.
-/

namespace SourceAudit

structure Survey where
  files : List (List Text)
  ignored : Nat
  deriving DecidableEq, Repr

namespace Survey

def none : Survey :=
  { files := [], ignored := 0 }

def and (a b : Survey) : Survey :=
  { files := a.files ++ b.files, ignored := a.ignored + b.ignored }

def controlFolder : Text := ['.', 'g', 'i', 't']

def sourceEnding : Text := ['p', 'y']

def ofFile (rules : IgnoreRules) (names : List Text) (name : Text) : Survey :=
  let path := names ++ [name]
  if rules.isIgnored (Path.joinNames path) false then { files := [], ignored := 1 }
  else if Path.hasEnding sourceEnding name then { files := [path], ignored := 0 }
  else none

/-- What is met at a folder.  What is met inside is only asked for when the folder is entered. -/
def ofFolder (rules : IgnoreRules) (names : List Text) (name : Text) (inside : Unit → Survey) :
    Survey :=
  if name = controlFolder then none
  else if rules.isIgnored (Path.joinNames (names ++ [name])) true then { files := [], ignored := 1 }
  else inside ()

/-- Walks through a folder.  `atLink` tells what is met at a link. -/
def walk (rules : IgnoreRules) (atLink : Place → List Text → Text → Text → Survey)
    (place : Place) (names : List Text) : Folder → Survey
  | .empty => none
  | .file name _ later => (ofFile rules names name).and (walk rules atLink place names later)
  | .folder name inside later =>
      (ofFolder rules names name fun _ =>
        walk rules atLink (place.enter name inside) (names ++ [name]) inside).and
          (walk rules atLink place names later)
  | .link name target later =>
      (atLink place names name target).and (walk rules atLink place names later)

/-- What is met at a link, if at most `depth` further links are followed on one path, of the given
number of links that a look-up may still follow. -/
def atLink (rules : IgnoreRules) : Nat → Nat → Place → List Text → Text → Text → Survey
  | depth + 1, links + 1, place, names, name, target =>
      match (place.startOf target).resolve links (target.cutAt '/') with
      | .ok (.folder inner, left) =>
          ofFolder rules names name fun _ =>
            walk rules (atLink rules depth left) inner (names ++ [name]) inner.current
      | _ => ofFile rules names name
  | _, _, _, names, name, _ => ofFile rules names name

/-- Walks through the folder at a place from which a look-up may still follow some links. -/
def ofPlace (rules : IgnoreRules) (place : Place) (links : Nat) : Survey :=
  let met := walk rules (atLink rules Disk.linkLimit links) place [] place.current
  { met with files := Path.sortNames met.files }

end Survey

/-- The sources below a root and the number of ignored entries. -/
def discover (d : Disk) (rules : IgnoreRules) (root : Path) : Except FileFault Survey :=
  (d.list root).map fun found => Survey.ofPlace rules found.1 found.2

end SourceAudit
