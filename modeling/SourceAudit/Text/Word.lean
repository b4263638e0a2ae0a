import SourceAudit.Text.Basic
import SourceAudit.Text.Ranges
import SourceAudit.Text.WordTable

/-!
# Word characters

## Words

Letters, digits, other numeric characters and the underscore make words.  The test is direct for
ASCII and looks all other characters up in the table of word characters.

A name is a word that starts with an ASCII letter or an underscore.
-/

namespace SourceAudit
namespace Text

def isWord (c : Char) : Bool :=
  if c.toNat < 128 then c.isAlphanum || c == '_' else inRanges wordRanges c.toNat

def isNameStart (c : Char) : Bool :=
  c.isAlpha || c == '_'

theorem isWord_of_isNameStart {c : Char} (h : isNameStart c = true) : isWord c = true := by
  unfold isNameStart at h
  unfold isWord
  have hsmall : c.toNat < 128 := by
    rcases Bool.or_eq_true_iff.mp h with h | h
    · unfold Char.isAlpha Char.isUpper Char.isLower at h
      simp only [Bool.or_eq_true, Bool.and_eq_true, decide_eq_true_eq, ge_iff_le,
        UInt32.le_iff_toNat_le] at h
      have hz : 'Z'.val.toNat = 90 := rfl
      have hlow : 'z'.val.toNat = 122 := rfl
      show c.val.toNat < 128
      rcases h with h | h
      · have := h.2
        change c.val.toNat ≤ 90 at this
        omega
      · have := h.2
        change c.val.toNat ≤ 122 at this
        omega
    · rw [beq_iff_eq.mp h]
      decide
  rw [if_pos hsmall]
  rcases Bool.or_eq_true_iff.mp h with h | h
  · simp [Char.isAlphanum, h]
  · simp [h]

end Text
end SourceAudit
