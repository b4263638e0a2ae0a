import SourceAudit.Text.Basic
import SourceAudit.Text.Ranges
import SourceAudit.Text.WidthTable

/-!
# Widths on a terminal

## Cells

A terminal draws a character in one cell, in two or in none.  Control characters take no cell.

Two characters change how others are drawn.  A joiner draws the character behind it into the place
of those before it, so that character takes no cell of its own.  A selector asks for the pictorial
form of the character drawn last, which takes one more cell if that character is narrow.
-/

namespace SourceAudit
namespace Text

/-- The number of cells of a character that stands alone. -/
def charWidth (c : Char) : Nat :=
  let point := c.toNat
  if point < 32 then 0
  else if point < 127 then 1
  else if point < 160 then 0
  else if inRanges zeroWidthRanges point then 0
  else if inRanges wideRanges point then 2
  else 1

def joiner : Char := '\u200d'

def selector : Char := '\ufe0f'

/-- The cells that a selector adds.  `drawn` is the character drawn last, unless its form has been
chosen already. -/
def selectorWidth (drawn : Option Char) : Nat :=
  if drawn.any fun c => inRanges pictorialRanges c.toNat then 1 else 0

/-- The number of cells of a text behind a character drawn before, if any. -/
def widthFrom (drawn : Option Char) : Text → Nat
  | [] => 0
  | c :: rest =>
      if c = joiner then
        match rest with
        | [] => 0
        | _ :: later => widthFrom drawn later
      else if c = selector then selectorWidth drawn + widthFrom none rest
      else if charWidth c = 0 then widthFrom drawn rest
      else charWidth c + widthFrom (some c) rest

def width (t : Text) : Nat :=
  widthFrom none t

def spaces (n : Nat) : Text :=
  List.replicate n ' '

end Text
end SourceAudit
