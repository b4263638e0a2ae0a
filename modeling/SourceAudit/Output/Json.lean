import SourceAudit.Number.Format
import SourceAudit.Text.Utf8

/-!
# JSON documents

## Values and their text

A document is written over several lines: every element of a non-empty array or object stands on a
line of its own, indented by two spaces more than its container.  The members of an object are
ordered by their names.  All characters beyond ASCII are escaped, those beyond the first plane as a
pair of surrogates.
-/

namespace SourceAudit

inductive Json where
  | null
  | bool (b : Bool)
  | int (n : Int)
  | float (x : Float)
  | string (s : String)
  | array (items : List Json)
  | object (members : List (String × Json))

namespace Json

def unicodeEscape (n : Nat) : Text :=
  ['\\', 'u'] ++ Text.hexDigits 4 n

def escapedChar (c : Char) : Text :=
  if c == '\x22' then ['\\', '\x22']
  else if c == '\\' then ['\\', '\\']
  else if c == '\n' then ['\\', 'n']
  else if c == '\r' then ['\\', 'r']
  else if c == '\t' then ['\\', 't']
  else if c == '\x08' then ['\\', 'b']
  else if c == '\x0c' then ['\\', 'f']
  else if 32 ≤ c.toNat && c.toNat < 127 then [c]
  else if c.toNat < 0x10000 then unicodeEscape c.toNat
  else
    let above := c.toNat - 0x10000
    unicodeEscape (0xD800 + above / 0x400) ++ unicodeEscape (0xDC00 + above % 0x400)

def stringText (s : String) : Text :=
  ['\x22'] ++ s.toList.flatMap escapedChar ++ ['\x22']

def newLine (level : Nat) : Text :=
  '\n' :: List.replicate (2 * level) ' '

def block (level : Nat) (opening closing : Char) (items : List Text) : Text :=
  if items.isEmpty then [opening, closing]
  else
    [opening] ++ Text.join [','] (items.map (newLine (level + 1) ++ ·)) ++ newLine level ++
      [closing]

mutual

/-- The text of a value whose container is at a level of indentation. -/
def textAt (level : Nat) : Json → Text
  | null => "null".toList
  | bool true => "true".toList
  | bool false => "false".toList
  | int n => (toString n).toList
  | float x => (Number.fullText x).toList
  | string s => stringText s
  | array items => block level '[' ']' (itemTexts (level + 1) items)
  | object members => block level '\x7b' '\x7d' (memberTexts (level + 1) members)

def itemTexts (level : Nat) : List Json → List Text
  | [] => []
  | item :: rest => textAt level item :: itemTexts level rest

def memberTexts (level : Nat) : List (String × Json) → List Text
  | [] => []
  | (label, value) :: rest =>
      (stringText label ++ [':', ' '] ++ textAt level value) :: memberTexts level rest

end

def text (v : Json) : Text :=
  v.textAt 0

/-- An object whose members are ordered by their names. -/
def record (members : List (String × Json)) : Json :=
  .object (members.mergeSort fun a b => !(b.1 < a.1))

end Json
end SourceAudit
