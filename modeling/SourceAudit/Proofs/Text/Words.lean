import SourceAudit.Text.Blank
import SourceAudit.Text.Word

/-!
# Words and blanks

## Two classes of characters

No blank is a character of a word.  So a run of word characters ends where blanks begin, and a run
of blanks ends where a word begins.
-/

namespace SourceAudit
namespace Text

theorem isWord_of_small_blank :
    ∀ n < 128, isBlank (Char.ofNat n) = true → isWord (Char.ofNat n) = false := by
  decide +kernel

theorem inRanges_of_wide_blank :
    ∀ range ∈ wideBlankRanges, ∀ k < range.2 + 1 - range.1,
      inRanges wordRanges (range.1 + k) = false := by
  decide +kernel

theorem isWord_eq_false_of_isBlank {c : Char} (h : isBlank c = true) : isWord c = false := by
  by_cases hsmall : c.toNat < 128
  · have hword := isWord_of_small_blank c.toNat hsmall
    rw [Char.ofNat_toNat] at hword
    exact hword h
  · unfold isBlank at h
    unfold isWord
    rw [if_neg hsmall] at h ⊢
    rcases List.any_eq_true.mp h with ⟨range, hrange, hwithin⟩
    rw [Bool.and_eq_true, decide_eq_true_eq, decide_eq_true_eq] at hwithin
    have hpoint := inRanges_of_wide_blank range hrange (c.toNat - range.1) (by omega)
    rw [Nat.add_sub_cancel' hwithin.1] at hpoint
    exact hpoint

theorem isBlank_eq_false_of_isWord {c : Char} (h : isWord c = true) : isBlank c = false := by
  cases hblank : isBlank c with
  | false =>
      rfl
  | true =>
      rw [isWord_eq_false_of_isBlank hblank] at h
      cases h

theorem toNat_bounds_of_isAlphanum {c : Char} (h : c.isAlphanum = true) :
    48 ≤ c.toNat ∧ c.toNat ≤ 122 := by
  unfold Char.isAlphanum Char.isAlpha Char.isUpper Char.isLower Char.isDigit at h
  simp only [Bool.or_eq_true, Bool.and_eq_true, decide_eq_true_eq, ge_iff_le,
    UInt32.le_iff_toNat_le] at h
  show 48 ≤ c.val.toNat ∧ c.val.toNat ≤ 122
  rcases h with (⟨hlow, hhigh⟩ | ⟨hlow, hhigh⟩) | ⟨hlow, hhigh⟩
  · exact ⟨Nat.le_trans (by decide) hlow, Nat.le_trans hhigh (by decide)⟩
  · exact ⟨Nat.le_trans (by decide) hlow, Nat.le_trans hhigh (by decide)⟩
  · exact ⟨Nat.le_trans (by decide) hlow, Nat.le_trans hhigh (by decide)⟩

theorem toNat_lt_of_isAlphanum {c : Char} (h : c.isAlphanum = true) : c.toNat < 128 :=
  Nat.lt_of_le_of_lt (toNat_bounds_of_isAlphanum h).2 (by decide)

theorem isBlank_eq_false_of_isAlphanum {c : Char} (h : c.isAlphanum = true) :
    isBlank c = false := by
  apply isBlank_eq_false_of_isWord
  unfold isWord
  rw [if_pos (toNat_lt_of_isAlphanum h), h]
  rfl

theorem isWord_eq_false_of_isIndent {c : Char} (h : isIndent c = true) : isWord c = false :=
  isWord_eq_false_of_isBlank (isBlank_of_isIndent h)

theorem isIndent_eq_false_of_isWord {c : Char} (h : isWord c = true) : isIndent c = false := by
  cases hindent : isIndent c with
  | false =>
      rfl
  | true =>
      rw [isWord_eq_false_of_isBlank (isBlank_of_isIndent hindent)] at h
      cases h

end Text
end SourceAudit
