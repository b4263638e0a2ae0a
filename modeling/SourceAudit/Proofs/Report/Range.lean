import Mathlib.Algebra.Group.Nat.Defs
import SourceAudit.Proofs.Outcome
import SourceAudit.Report

/-!
# The range of the metrics

## When a report can be made

The length and the number of lines of a text that is not blank are positive, so their logarithms
exist.  Only the number of decisions can be out of range, namely when the double nearest to it would
be 2 to the power of 1024.
-/

namespace SourceAudit
namespace Number

/-!
# Whole numbers without a double
-/

theorem log2_eq_of_bounds {n k : Nat} (hlow : 2 ^ k ≤ n) (hhigh : n < 2 ^ (k + 1)) :
    n.log2 = k := by
  have hne : n ≠ 0 := by
    intro hzero
    rw [hzero] at hlow
    exact absurd hlow (Nat.not_le_of_lt (Nat.two_pow_pos k))
  exact (Nat.log2_eq_iff hne).mpr ⟨hlow, hhigh⟩

theorem two_pow_add_lt {a b c : Nat} (hab : a < b) (hbc : b < c) : 2 ^ a + 2 ^ b < 2 ^ c := by
  have hfirst : 2 ^ a < 2 ^ b := Nat.pow_lt_pow_right (by decide) hab
  have hnext : 2 ^ (b + 1) ≤ 2 ^ c := Nat.pow_le_pow_right (by decide) hbc
  rw [Nat.two_pow_succ] at hnext
  omega

theorem roundDiv_eq_two_pow_iff {n half : Nat} (hhalf : 0 < half)
    (hn : n < 2 ^ 53 * (2 * half)) :
    roundDiv n (2 * half) = 2 ^ 53 ↔ 2 ^ 53 * (2 * half) ≤ n + half := by
  have hsplit : 2 * half * (n / (2 * half)) + n % (2 * half) = n := Nat.div_add_mod n (2 * half)
  have hrest : n % (2 * half) < 2 * half := Nat.mod_lt n (by omega)
  have hquotient : n / (2 * half) < 2 ^ 53 := (Nat.div_lt_iff_lt_mul (by omega)).mpr hn
  unfold roundDiv
  generalize n / (2 * half) = q at hsplit hquotient ⊢
  generalize n % (2 * half) = r at hsplit hrest ⊢
  by_cases hlast : q = 2 ^ 53 - 1
  · subst hlast
    dsimp only
    split
    · omega
    · split <;> omega
  · have hbelow : q + 2 ≤ 2 ^ 53 := by
      omega
    have hproduct : (q + 2) * (2 * half) ≤ 2 ^ 53 * (2 * half) :=
      Nat.mul_le_mul_right (2 * half) hbelow
    have hexpand : (q + 2) * (2 * half) = 2 * half * q + 4 * half := by
      rw [Nat.mul_comm, Nat.mul_add]
      omega
    dsimp only
    split
    · omega
    · split <;> omega

theorem roundDiv_bounds (n unit : Nat) :
    n / unit ≤ roundDiv n unit ∧ roundDiv n unit ≤ n / unit + 1 := by
  unfold roundDiv
  dsimp only
  split
  · omega
  · split <;> omega

theorem log2_significand {n k : Nat} (hk : 53 ≤ k) (hlow : 2 ^ k ≤ n) (hhigh : n < 2 ^ (k + 1)) :
    (significand n).1.log2 + (significand n).2 =
      if 2 ^ (k + 1) ≤ n + 2 ^ (k - 53) then k + 1 else k := by
  have hlarge : ¬n < Nat.pow 2 precision := by
    have hpower : 2 ^ 53 ≤ 2 ^ k := Nat.pow_le_pow_right (by decide) hk
    exact Nat.not_lt_of_le (Nat.le_trans hpower hlow)
  have hunit : Nat.pow 2 (n.log2 - 52) = 2 * 2 ^ (k - 53) := by
    rw [log2_eq_of_bounds hlow hhigh, show k - 52 = k - 53 + 1 by omega]
    exact Nat.pow_succ'
  have hnext : 2 ^ (k + 1) = 2 ^ 53 * (2 * 2 ^ (k - 53)) := by
    rw [← Nat.pow_succ', ← Nat.pow_add]
    congr 1
    omega
  have hthis : 2 ^ k = 2 ^ 52 * (2 * 2 ^ (k - 53)) := by
    rw [← Nat.pow_succ', ← Nat.pow_add]
    congr 1
    omega
  have hpositive : 0 < 2 ^ (k - 53) := Nat.two_pow_pos (k - 53)
  unfold significand
  rw [if_neg hlarge]
  dsimp only
  rw [hunit, log2_eq_of_bounds hlow hhigh, hnext]
  rw [hnext] at hhigh
  rw [hthis] at hlow
  have hquotientLow : 2 ^ 52 ≤ n / (2 * 2 ^ (k - 53)) :=
    (Nat.le_div_iff_mul_le (by omega)).mpr hlow
  have hquotientHigh : n / (2 * 2 ^ (k - 53)) < 2 ^ 53 :=
    (Nat.div_lt_iff_lt_mul (by omega)).mpr hhigh
  have hbounds := roundDiv_bounds n (2 * 2 ^ (k - 53))
  by_cases hup : 2 ^ 53 * (2 * 2 ^ (k - 53)) ≤ n + 2 ^ (k - 53)
  · rw [if_pos hup, (roundDiv_eq_two_pow_iff hpositive hhigh).mpr hup, Nat.log2_two_pow]
    omega
  · have hne : roundDiv n (2 * 2 ^ (k - 53)) ≠ 2 ^ 53 :=
      fun heq => hup ((roundDiv_eq_two_pow_iff hpositive hhigh).mp heq)
    rw [if_neg hup, log2_eq_of_bounds (k := 52) (by omega) (by omega)]
    omega

theorem ofNat?_eq_none_iff_log2 {n : Nat} :
    ofNat? n = none ↔ 1024 ≤ (significand n).1.log2 + (significand n).2 := by
  unfold ofNat?
  dsimp only
  split
  · rename_i hlarge
    exact ⟨fun _ => hlarge, fun _ => rfl⟩
  · rename_i hsmall
    constructor
    · intro h
      cases h
    · intro h
      exact absurd h hsmall

/-- Whether the double nearest to a whole number would be 2 to the power of 1024, or greater. -/
def IsTooLarge (n : Nat) : Prop :=
  2 ^ 1024 ≤ n + 2 ^ 970

theorem ofNat?_eq_none_iff {n : Nat} : ofNat? n = none ↔ IsTooLarge n := by
  rw [ofNat?_eq_none_iff_log2, IsTooLarge]
  by_cases hsmall : n < 2 ^ 53
  · have hsum := two_pow_add_lt (a := 53) (b := 970) (c := 1024) (by decide) (by decide)
    have hlog : n.log2 < 1024 := by
      rcases Nat.eq_zero_or_pos n with rfl | hpos
      · decide
      · apply (Nat.log2_lt (Nat.ne_of_gt hpos)).mpr
        omega
    unfold significand
    rw [if_pos (show n < Nat.pow 2 precision from hsmall)]
    dsimp only
    omega
  · have hne : n ≠ 0 := by
      omega
    have hlow := Nat.log2_self_le hne
    have hhigh := Nat.lt_log2_self (n := n)
    have hk : 53 ≤ n.log2 := (Nat.le_log2 hne).mpr (Nat.le_of_not_lt hsmall)
    rw [log2_significand hk hlow hhigh]
    generalize n.log2 = k at hlow hhigh hk
    rcases Nat.lt_trichotomy k 1023 with hless | rfl | hmore
    · have hpower := Nat.pow_le_pow_right (show 0 < 2 by decide) (show k + 1 ≤ 1023 by omega)
      have hsum := two_pow_add_lt (a := 970) (b := 1023) (c := 1024) (by decide) (by decide)
      split <;> omega
    · split <;> omega
    · have hpower := Nat.pow_le_pow_right (show 0 < 2 by decide) (show 1024 ≤ k from hmore)
      split <;> omega

end Number

/-!
# Texts without a report
-/

open Number in
theorem maintainability_eq_error_iff {length decisions lineCount : Nat} (hlength : 0 < length)
    (hlines : 0 < lineCount) {fault : RangeFault} :
    maintainability length decisions lineCount = .error fault ↔
      fault = .tooLarge ∧ IsTooLarge decisions := by
  rcases Option.isSome_iff_exists.mp
    ((log?_isSome_iff length).mpr (Int.natCast_pos.mpr hlength)) with ⟨logLength, hlogLength⟩
  rcases Option.isSome_iff_exists.mp
    ((log?_isSome_iff lineCount).mpr (Int.natCast_pos.mpr hlines)) with ⟨logLines, hlogLines⟩
  have hdecisions : ofInt? decisions = ofNat? decisions := rfl
  unfold maintainability rawMaintainability
  rw [hlogLength, hlogLines, hdecisions, ← ofNat?_eq_none_iff]
  cases ofNat? decisions with
  | none =>
      constructor
      · intro h
        cases h
        exact ⟨rfl, rfl⟩
      · intro h
        rw [h.1]
        rfl
  | some decisionTerm =>
      constructor
      · intro h
        cases h
      · intro h
        cases h.2

theorem Metrics.ofText_eq_error_iff {t : Text} (ht : t ≠ []) {found : Int} {fault : RangeFault} :
    ofText t found = .error fault ↔
      fault = .tooLarge ∧ Number.IsTooLarge (complexityOf t) := by
  have hlength : 0 < t.length := List.length_pos_iff.mpr ht
  have hlines : 0 < t.lines.length := List.length_pos_iff.mpr (Text.cutWhere_ne_nil _ t)
  rw [← maintainability_eq_error_iff hlength hlines]
  exact map_eq_error_iff

/-- Whether the decisions of a text are too many for its metrics. -/
def HasTooManyDecisions (t : Text) : Prop :=
  t.isAllBlank = false ∧ Number.IsTooLarge (Metrics.complexityOf t)

/-- A report can be made of every text without too many decisions. -/
theorem audit_eq_error_iff {allowList : AllowList} {t : Text} {fault : RangeFault} :
    audit allowList t = .error fault ↔ fault = .tooLarge ∧ HasTooManyDecisions t := by
  unfold audit HasTooManyDecisions
  cases hblank : t.isAllBlank with
  | true =>
      simp
  | false =>
      have ht : t ≠ [] := by
        intro hnil
        rw [hnil] at hblank
        cases hblank
      rw [if_neg Bool.false_ne_true, map_eq_error_iff, Metrics.ofText_eq_error_iff ht]
      simp

end SourceAudit
