import SourceAudit.Ignore.Rule

/-!
# Rule sets

## The decision about a path

All rules that hit a path are considered, the last one first.  A direct hit outweighs one through a
directory; among hits of the same kind the later rule wins.  A path that no rule hits is kept.

A directory is ignored if its path is, or its path with a slash at the end.
-/

namespace SourceAudit

structure IgnoreRules where
  rules : List IgnoreRule

namespace IgnoreRules

def ofLines : List Text → Except RuleFault IgnoreRules
  | [] => .ok ⟨[]⟩
  | line :: rest => do
      let first ← if line.isEmpty then pure none else IgnoreRule.ofLine? line
      let others ← ofLines rest
      return ⟨first.toList ++ others.rules⟩

def outweighs : Hit → Option (Bool × Hit) → Bool
  | _, none => true
  | .direct, some (_, .folder) => true
  | _, _ => false

/-- The deciding hit, going through the rules in the given order. -/
def decisiveHit (path : Text) (best : Option (Bool × Hit)) :
    List IgnoreRule → Option (Bool × Hit)
  | [] => best
  | rule :: others =>
      match rule.hit? path with
      | none => decisiveHit path best others
      | some hit =>
          if outweighs hit best then decisiveHit path (some (rule.ignores, hit)) others
          else decisiveHit path best others

/-- A path without one slash, or one `./`, at its start. -/
def relative (path : Text) : Text :=
  match path with
  | '/' :: rest => rest
  | '.' :: '/' :: rest => rest
  | _ => path

/-- Whether the rules ignore a path, which ends in a slash if it is meant as a directory. -/
def ignoresPath (rules : IgnoreRules) (path : Text) : Bool :=
  match decisiveHit (relative path) none rules.rules.reverse with
  | none => false
  | some (ignores, _) => ignores

def trimSlashes (path : Text) : Text :=
  Text.dropEndWhile (· == '/') (path.dropWhile (· == '/'))

def isIgnored (rules : IgnoreRules) (path : Text) (isFolder : Bool) : Bool :=
  let path := trimSlashes path
  if path.isEmpty then false
  else rules.ignoresPath path || (isFolder && rules.ignoresPath (path ++ ['/']))

end IgnoreRules
end SourceAudit
