import SourceAudit.Pattern.Basic

/-!
# Wildcards in one path segment

## Parts of a segment

A segment of an ignore line is a row of parts: literal characters, `*` for any number of characters,
`?` for one, and sets in square brackets.  A backslash makes the next character literal.  None of
the wildcards stands for a slash, but a set may.

A set begins with `!` or `^` if it is negated.  Its first member may be a closing bracket; the next
closing bracket ends the set.  A hyphen between two members makes a range.
-/

namespace SourceAudit

inductive GlobPart where
  | literal (c : Char)
  | anyRun
  | anyOne
  | set (negated : Bool) (members : Text)
  deriving DecidableEq, Repr

inductive GlobFault where
  | danglingEscape
  | openSet
  deriving DecidableEq, Repr

namespace Glob

inductive State where
  | plain
  | escaped
  | setOpen
  | setNegated
  /-- Inside a set, with the members read so far, the last one first. -/
  | inSet (negated : Bool) (members : Text)

def partsFrom : State → Text → Except GlobFault (List GlobPart)
  | .plain, [] => .ok []
  | .escaped, [] => .error .danglingEscape
  | _, [] => .error .openSet
  | .plain, c :: rest =>
      if c = '\\' then partsFrom .escaped rest
      else if c = '*' then (partsFrom .plain rest).map (.anyRun :: ·)
      else if c = '?' then (partsFrom .plain rest).map (.anyOne :: ·)
      else if c = '[' then partsFrom .setOpen rest
      else (partsFrom .plain rest).map (.literal c :: ·)
  | .escaped, c :: rest => (partsFrom .plain rest).map (.literal c :: ·)
  | .setOpen, c :: rest =>
      if c = '!' ∨ c = '^' then partsFrom .setNegated rest
      else partsFrom (.inSet false [c]) rest
  | .setNegated, c :: rest => partsFrom (.inSet true [c]) rest
  | .inSet negated members, c :: rest =>
      if c = ']' then (partsFrom .plain rest).map (.set negated members.reverse :: ·)
      else partsFrom (.inSet negated (c :: members)) rest

def parts (segment : Text) : Except GlobFault (List GlobPart) :=
  partsFrom .plain segment

structure BadRange where
  first : Char
  last : Char
  deriving DecidableEq, Repr

/-- The inclusive ranges of the members of a set.  A hyphen at the end stands for itself. -/
def ranges : Text → Except BadRange (List (Char × Char))
  | [] => .ok []
  | [c, '-'] => .ok [(c, c), ('-', '-')]
  | first :: '-' :: last :: rest =>
      if last.toNat < first.toNat then .error ⟨first, last⟩
      else (ranges rest).map ((first, last) :: ·)
  | c :: rest => (ranges rest).map ((c, c) :: ·)

def inSet (members : List (Char × Char)) (c : Char) : Bool :=
  members.any fun range => range.1.toNat ≤ c.toNat && c.toNat ≤ range.2.toNat

def partPattern : GlobPart → Except BadRange Pattern
  | .literal c => .ok (.exactly c)
  | .anyRun => .ok (.many (· != '/'))
  | .anyOne => .ok (.char (· != '/'))
  | .set negated members =>
      (ranges members).map fun found => .char fun c => inSet found c != negated

def pattern : List GlobPart → Except BadRange Pattern
  | [] => .ok .nothing
  | part :: rest => do
      let first ← partPattern part
      let others ← pattern rest
      return .seq first others

end Glob
end SourceAudit
