import SourceAudit.Proofs.Pattern.Counting
import SourceAudit.Proofs.Report.Leniency

/-!
# Every text has a report

## Arguments in range

Each decision takes a word of the text, so a text has no more decisions than characters.  A text
that fits into a memory therefore has far fewer decisions than the greatest double.  A text that is
not blank has a length and lines, whose logarithms exist, and no quotient is taken by zero.  Only
the empty text, of which no metrics are taken in an audit, would have an argument out of range.
-/

namespace SourceAudit
namespace Metrics

open Pattern

/-!
# Decisions
-/

theorem areWords_decisionWords : AreWords decisionWords := by
  simp [AreWords, decisionWords, Text.isWord]

theorem ne_nil_of_spans_decision {before piece after : Text}
    (h : decision.Spans before piece after) : piece ≠ [] := by
  rcases spans_seq.mp h with ⟨u, v, rfl, _, hword⟩
  rcases (spans_wholeWord areWords_decisionWords).mp hword with ⟨⟨word, hmem, rfl⟩, _⟩
  simp [(areWords_decisionWords word hmem).1]

theorem complexityOf_le (t : Text) : complexityOf t ≤ t.length + 1 :=
  Nat.succ_le_succ (countIn_le_length ne_nil_of_spans_decision t)

theorem not_hasTooManyDecisions {t : Text} (h : t.length < 2 ^ 63) : ¬HasTooManyDecisions t := by
  intro hmany
  have htooLarge : 2 ^ 1024 ≤ complexityOf t + 2 ^ 970 := hmany.2
  have hle := complexityOf_le t
  have hsum := Number.two_pow_add_lt (a := 63) (b := 970) (c := 1024) (by decide) (by decide)
  omega

/-!
# Metrics of a text
-/

/-- Whether metrics are those of a text, computed from arguments in range: the length, the lines and
the decisions that go into the index are positive, the decisions are bounded by the length, and the
quotients are taken by positive numbers. -/
structure AreInRange (metrics : Metrics) (t : Text) : Prop where
  index : SourceAudit.maintainability t.length (complexityOf t) t.lines.length =
    .ok metrics.maintainability
  length_pos : 1 ≤ t.length
  lineCount_pos : 1 ≤ t.lines.length
  complexity_pos : 1 ≤ complexityOf t
  complexity_le : complexityOf t ≤ t.length + 1
  commentShare : metrics.commentShare = share Number.ofCount (comment.countIn t) t.lines.length
  functions : ∃ functions, 1 ≤ functions ∧
    metrics.functionLength = Number.ratio t.lines.length functions ∧
    metrics.testShare = share Number.ofCount (testStart.countIn t) functions

theorem areInRange_of_ofText {t : Text} (ht : t ≠ []) {found : Int} {metrics : Metrics}
    (h : ofText t found = .ok metrics) : metrics.AreInRange t := by
  rcases exists_of_map_eq_ok h with ⟨index, hindex, rfl⟩
  exact {
    index := hindex
    length_pos := List.length_pos_iff.mpr ht
    lineCount_pos := List.length_pos_iff.mpr (Text.cutWhere_ne_nil _ t)
    complexity_pos := Nat.le_add_left 1 _
    complexity_le := complexityOf_le t
    commentShare := rfl
    functions := ⟨max 1 (functionStart.countIn t), Nat.le_max_left 1 _, rfl, rfl⟩ }

end Metrics

/-!
# Reports
-/

/-- Every text of fewer than 2⁶³ characters has a report with either list.  Unless the text is
blank, its metrics are computed from arguments in range.  The metrics of the empty text on their own
have no logarithm of the length. -/
theorem exists_audit_of_length_lt {t : Text} (ht : t.length < 2 ^ 63) (allowList : AllowList) :
    (∃ report, audit allowList t = .ok report ∧
      (t.isAllBlank = false → report.metrics.AreInRange t)) ∧
    ∀ found, Metrics.ofText [] found = .error .logarithm := by
  refine ⟨?_, fun _ => rfl⟩
  cases haudit : audit allowList t with
  | error fault =>
      exact absurd (audit_eq_error_iff.mp haudit).2 (Metrics.not_hasTooManyDecisions ht)
  | ok report =>
      refine ⟨report, rfl, ?_⟩
      intro hblank
      have hne : t ≠ [] := by
        intro hnil
        rw [hnil] at hblank
        cases hblank
      rw [audit_eq_map hblank] at haudit
      rcases exists_of_map_eq_ok haudit with ⟨metrics, hmetrics, rfl⟩
      exact Metrics.areInRange_of_ofText hne hmetrics

/-- The line `x = 1` has a report with either list. -/
theorem exists_audit_of_assignment :
    ("x = 1".toList).length < 2 ^ 63 ∧
    ∀ allowList, ∃ report, audit allowList "x = 1".toList = .ok report ∧
      report.metrics.AreInRange "x = 1".toList := by
  have hlength : ("x = 1".toList).length < 2 ^ 63 := by
    decide
  refine ⟨hlength, ?_⟩
  intro allowList
  rcases (exists_audit_of_length_lt hlength allowList).1 with ⟨report, haudit, hrange⟩
  exact ⟨report, haudit, hrange (by decide)⟩

end SourceAudit
