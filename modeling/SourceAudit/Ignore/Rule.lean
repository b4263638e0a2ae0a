import SourceAudit.Ignore.Glob
import SourceAudit.Text.Quoted

/-!
# Rules of an ignore file

## From a line to a rule

A line is a path pattern of segments between slashes.  A pattern of one segment applies at any
depth; any other is anchored at the root.  A slash at the end restricts it to directories.  The
segment `**` stands for any number of directories.  An exclamation mark in front re-includes what
the pattern matches.

A rule hits a path directly, or through a directory: when the match ends at a slash that follows the
pattern, so that the path is that directory or lies below it.
-/

namespace SourceAudit

inductive Hit where
  | folder
  | direct
  deriving DecidableEq, Repr

inductive Ending where
  | anywhere
  | slash
  /-- With a slash, or else at the end of the path or before a line feed that ends it. -/
  | slashOrEnd
  deriving DecidableEq, Repr

def Ending.hit? (ending : Ending) (c : Cursor) : Option Hit :=
  match ending with
  | anywhere => some .direct
  | slash => if c.rest.head? = some '/' then some .folder else none
  | slashOrEnd =>
      if c.rest.head? = some '/' then some .folder
      else if c.atClosingLineEnd then some .direct
      else none

structure IgnoreRule where
  ignores : Bool
  body : Pattern
  ending : Ending

/-- The hit of the leftmost match of a rule in a path. -/
def IgnoreRule.hit? (rule : IgnoreRule) (path : Text) : Option Hit :=
  (Cursor.all path).findSome? fun c => rule.body.run c rule.ending.hit?

inductive RuleFault where
  | invalid (line : Text)
  | badRange (range : Glob.BadRange)
  deriving DecidableEq, Repr

namespace RuleFault

def member (c : Char) : Text :=
  if c = '\\' then ['\\', '\\'] else [c]

def message : RuleFault → String
  | invalid line => "Invalid git pattern: " ++ String.ofList (Text.quoted line)
  | badRange range =>
      "bad character range " ++ String.ofList (member range.first ++ ['-'] ++ member range.last)

end RuleFault

namespace IgnoreRule

/-!
# Segments
-/

/-- The segment that stands for any number of directories. -/
def anyDepth : Text := ['*', '*']

def collapse : List Text → List Text
  | first :: second :: rest =>
      if first = anyDepth ∧ second = anyDepth then collapse (second :: rest)
      else first :: collapse (second :: rest)
  | segments => segments

/-- Makes the depth of a pattern explicit: a leading slash is dropped, and a pattern of one segment
gets a leading `**`. -/
def anchor (segments : List Text) : List Text :=
  match segments with
  | [] :: rest => rest
  | [only] => if only = anyDepth then segments else anyDepth :: segments
  | [only, []] => if only = anyDepth then segments else anyDepth :: segments
  | _ => segments

/-- Replaces an empty last segment by `**`. -/
def openEnd (segments : List Text) : List Text :=
  if segments.getLast? = some [] then segments.dropLast ++ [anyDepth] else segments

def segmentsOf (pattern : Text) : List Text :=
  collapse (openEnd (anchor (pattern.cutAt '/')))

def isForFolders (pattern : Text) : Bool :=
  (pattern.cutAt '/').getLast? == some []

/-!
# Patterns of segments
-/

/-- A part of the pattern of a rule, not yet checked for its sets. -/
inductive Piece where
  | leadingDepth
  | innerDepth
  | pathStart
  | separator
  | anyName
  | named (parts : List GlobPart)
  | anyChar

def inLine (c : Char) : Bool :=
  c != '\n'

def anyPart : Pattern :=
  .seq (.char inLine) (.many inLine)

def Piece.pattern : Piece → Except Glob.BadRange Pattern
  | leadingDepth =>
      .ok (.seq (.check Cursor.atStart) (.optional (.seq anyPart (.exactly '/'))))
  | innerDepth => .ok (.optional (.seq (.exactly '/') anyPart))
  | pathStart => .ok (.check Cursor.atStart)
  | separator => .ok (.exactly '/')
  | anyName => .ok (.several (· != '/'))
  | named parts => Glob.pattern parts
  | anyChar => .ok (.char inLine)

def patternOf : List Piece → Except Glob.BadRange Pattern
  | [] => .ok .nothing
  | piece :: rest => do
      let first ← piece.pattern
      let others ← patternOf rest
      return .seq first others

def namePiece (segment : Text) : Except GlobFault Piece :=
  if segment = ['*'] then .ok .anyName else (Glob.parts segment).map .named

def depthEnd (forFolders : Bool) : List Piece × Ending :=
  if forFolders then ([], .slash) else ([.separator], .anywhere)

/-- The pieces and the ending of some segments that follow others.  `separated` tells whether a name
has come before, so that a slash is needed. -/
def piecesFrom (forFolders separated : Bool) : List Text → Except GlobFault (List Piece × Ending)
  | [] => .ok ([], .anywhere)
  | [last] =>
      if last = anyDepth then .ok (depthEnd forFolders)
      else do
        let piece ← namePiece last
        return ((if separated then [.separator] else []) ++ [piece], .slashOrEnd)
  | segment :: rest =>
      if segment = anyDepth then do
        let (pieces, ending) ← piecesFrom forFolders true rest
        return (.innerDepth :: pieces, ending)
      else do
        let piece ← namePiece segment
        let (pieces, ending) ← piecesFrom forFolders true rest
        return ((if separated then [.separator] else []) ++ piece :: pieces, ending)

def pieces (forFolders : Bool) (segments : List Text) : Except GlobFault (List Piece × Ending) :=
  if segments = [anyDepth] then
    .ok (if forFolders then ([], .slash) else ([.anyChar], .anywhere))
  else if segments = [anyDepth, ['*']] then .ok ([.anyChar], .anywhere)
  else if segments = [anyDepth, ['*'], anyDepth] then .ok (depthEnd forFolders)
  else
    match segments with
    | first :: rest =>
        if first = anyDepth then do
          let (pieces, ending) ← piecesFrom forFolders false rest
          return (.leadingDepth :: pieces, ending)
        else do
          let (pieces, ending) ← piecesFrom forFolders false segments
          return (.pathStart :: pieces, ending)
    | [] => .ok ([], .anywhere)

/-!
# Lines
-/

/-- A line without the blanks at its end, unless the last one is escaped. -/
def trimmed (line : Text) : Text :=
  if [' ', '\\'].isPrefixOf line.reverse then line else line.stripRight

def isVoid (line : Text) : Bool :=
  line.isEmpty || line.head? == some '#' || line == ['/']

def splitSign (line : Text) : Bool × Text :=
  match line with
  | '!' :: rest => (false, rest)
  | _ => (true, line)

/-- The rule of a line, or nothing for a line without a pattern and for a set that is not closed. -/
def ofLine? (line : Text) : Except RuleFault (Option IgnoreRule) :=
  if isVoid (trimmed line) then .ok none
  else
    let (ignores, pattern) := splitSign (trimmed line)
    let segments := segmentsOf pattern
    if segments.isEmpty then .error (.invalid line)
    else
      match pieces (isForFolders pattern) segments with
      | .error .openSet => .ok none
      | .error .danglingEscape => .error (.invalid line)
      | .ok (found, ending) =>
          match patternOf found with
          | .error range => .error (.badRange range)
          | .ok body => .ok (some { ignores, body, ending })

end IgnoreRule
end SourceAudit
