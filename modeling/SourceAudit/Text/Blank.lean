import SourceAudit.Text.Basic

/-!
# Blank characters

## Blanks

The blank characters are the white space and separator characters of Unicode together with the four
information separators.  Zero-width characters such as the zero-width space are not blank.

Stripping a text removes blanks at its ends, never inside.
-/

namespace SourceAudit
namespace Text

def wideBlankRanges : List (Nat × Nat) :=
  [(0x85, 0x85), (0xA0, 0xA0), (0x1680, 0x1680), (0x2000, 0x200A), (0x2028, 0x2029),
    (0x202F, 0x202F), (0x205F, 0x205F), (0x3000, 0x3000)]

/-- Whether a character is white space or a separator. -/
def isBlank (c : Char) : Bool :=
  if c.toNat < 128 then
    (0x09 ≤ c.toNat && c.toNat ≤ 0x0D) || (0x1C ≤ c.toNat && c.toNat ≤ 0x20)
  else wideBlankRanges.any fun range => range.1 ≤ c.toNat && c.toNat ≤ range.2

/-- Whether a character is a space or a tab, the blanks that indent a line. -/
def isIndent (c : Char) : Bool :=
  c == ' ' || c == '\t'

def stripLeft (t : Text) : Text :=
  t.dropWhile isBlank

def stripRight (t : Text) : Text :=
  t.dropEndWhile isBlank

def strip (t : Text) : Text :=
  stripRight (stripLeft t)

def isAllBlank (t : Text) : Bool :=
  t.all isBlank

theorem isBlank_of_isIndent {c : Char} (h : isIndent c = true) : isBlank c = true := by
  unfold isIndent at h
  rcases Bool.or_eq_true_iff.mp h with h | h
  · rw [beq_iff_eq.mp h]
    decide
  · rw [beq_iff_eq.mp h]
    decide

end Text
end SourceAudit
