import SourceAudit.Text.Blank

/-!
# Lines of nested ignore files

## Scopes

A line of an ignore file in a directory applies below that directory.  It is given a form that
applies from the root: with a slash at its start or inside, the directory is put in front; without
one, the directory and `**`, so that it still applies at any depth below.  Blank lines and comments
stay as they are.
-/

namespace SourceAudit

def splitNegation (line : Text) : Text × Text :=
  match line with
  | '!' :: rest => (['!'], rest)
  | _ => ([], line)

/-- Whether a pattern holds a slash that others than slashes follow. -/
def hasInnerSlash (pattern : Text) : Bool :=
  (pattern.dropEndWhile (· == '/')).contains '/'

def scopedPattern (scope pattern : Text) : Text :=
  if pattern.head? = some '/' then scope ++ pattern
  else if hasInnerSlash pattern then scope ++ ['/'] ++ pattern
  else scope ++ ['/', '*', '*', '/'] ++ pattern

/-- A line of the ignore file in a directory, in a form that applies from the root. -/
def scopedLine (scope line : Text) : Text :=
  if scope.isEmpty || line.isAllBlank || line.head? == some '#' then line
  else
    let (negation, pattern) := splitNegation line
    negation ++ scopedPattern scope pattern

end SourceAudit
