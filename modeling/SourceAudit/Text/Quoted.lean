import SourceAudit.Text.Ranges
import SourceAudit.Text.PrintableTable
import SourceAudit.Text.Utf8

/-!
# Quoted texts

## Texts inside messages

A text is quoted with single quotes, or with double quotes if it holds a single but no double one.
The quote itself and the backslash get a backslash in front.  Line feed, carriage return and tab
have a letter of their own; other characters that cannot be printed are written by their number.
-/

namespace SourceAudit
namespace Text

def isPrintable (c : Char) : Bool :=
  if c.toNat < 128 then 32 ≤ c.toNat && c.toNat < 127 else inRanges printableRanges c.toNat

def numbered (c : Char) : Text :=
  if c.toNat ≤ 0xFF then ['\\', 'x'] ++ hexDigits 2 c.toNat
  else if c.toNat ≤ 0xFFFF then ['\\', 'u'] ++ hexDigits 4 c.toNat
  else ['\\', 'U'] ++ hexDigits 8 c.toNat

def quotedChar (quote c : Char) : Text :=
  if c == quote || c == '\\' then ['\\', c]
  else if c == '\n' then ['\\', 'n']
  else if c == '\r' then ['\\', 'r']
  else if c == '\t' then ['\\', 't']
  else if isPrintable c then [c]
  else numbered c

def quoteFor (t : Text) : Char :=
  if t.contains '\x27' && !t.contains '\x22' then '\x22' else '\x27'

def quoted (t : Text) : Text :=
  let quote := quoteFor t
  [quote] ++ t.flatMap (quotedChar quote) ++ [quote]

end Text

def quoted (s : String) : String :=
  String.ofList (Text.quoted s.toList)

def quotedList (items : List String) : String :=
  "[" ++ String.intercalate ", " (items.map quoted) ++ "]"

end SourceAudit
