import SourceAudit.Proofs.Pattern.Keywords
import SourceAudit.Proofs.Report.Totality

/-!
# Decisions, lines and comments

## Exact and additive

A decision is a whole word: a keyword within a longer word is none, and no keyword is met twice.  A
comment reaches to the end of its line.  Neither reaches over a line feed, so what is counted in two
texts adds up when the texts are joined by one.
-/

namespace SourceAudit
namespace Metrics

open Pattern

variable {before piece after : Text}

/-!
# Decisions
-/

theorem isLineBound_decision : decision.IsLineBound :=
  isLineBound_words areWords_decisionWords

theorem isWordwise_decision :
    decision.IsWordwise fun run => decide (run.1 ∈ decisionWords.map String.toList) :=
  isWordwise_words areWords_decisionWords

/-!
# Comments
-/

theorem spans_comment :
    comment.Spans before piece after ↔
      ∃ body, piece = '#' :: body ∧ '\n' ∉ body ∧ ∀ x ∈ after.head?, x = '\n' := by
  unfold comment
  simp only [spans_sequence_cons_cons, spans_sequence_singleton, spans_exactly, spans_restOfLine,
    spans_lineEnd]
  constructor
  · intro h
    rcases h with ⟨_, _, rfl, rfl, body, _, rfl, ⟨hbody, _⟩, rfl, hafter⟩
    exact ⟨body, by simp, hbody, hafter⟩
  · intro h
    rcases h with ⟨body, rfl, hbody, hafter⟩
    exact ⟨['#'], body, rfl, rfl, body, [], (List.append_nil body).symm, ⟨hbody, hafter⟩, rfl,
      hafter⟩

theorem ne_nil_of_spans_comment (h : comment.Spans before piece after) : piece ≠ [] := by
  rcases spans_comment.mp h with ⟨body, rfl, _⟩
  exact List.cons_ne_nil '#' body

theorem isLineBound_comment : comment.IsLineBound where
  unique := by
    intro before piece piece' after after' h h' hsplit
    rcases spans_comment.mp h with ⟨body, rfl, hbody, hafter⟩
    rcases spans_comment.mp h' with ⟨body', rfl, hbody', hafter'⟩
    have hbodies := isUnique_whole _ before body body' after after'
      (spans_restOfLine.mpr ⟨hbody, hafter⟩) (spans_restOfLine.mpr ⟨hbody', hafter'⟩)
      (List.cons.inj hsplit).2
    rw [hbodies]
  not_mem h := by
    rcases spans_comment.mp h with ⟨body, rfl, hbody, _⟩
    intro hfeed
    rcases List.mem_cons.mp hfeed with hmark | hfeed
    · revert hmark
      decide
    · exact hbody hfeed
  spans_before_line {before piece after below} := by
    rw [spans_comment, spans_comment, Cursor.head?_before_line]
    cases after.head? with
    | none =>
        simp
    | some x =>
        simp
  spans_behind_line := by
    intro above before piece after
    rw [spans_comment, spans_comment]

/-!
# Joined texts
-/

theorem complexityOf_append_feed (a b : Text) :
    complexityOf (a ++ '\n' :: b) = complexityOf a + complexityOf b - 1 := by
  unfold complexityOf
  rw [isLineBound_decision.countIn_append_feed]
  omega

theorem length_lines_append_feed (a b : Text) :
    (Text.lines (a ++ '\n' :: b)).length = a.lines.length + b.lines.length := by
  rw [Text.lines_append_feed, List.length_append]

/-- The complexity is one more than the number of words that make a decision.  In two texts joined
by a line feed the decisions, the lines and the comments of both are counted. -/
theorem counts_append_feed (t a b : Text) :
    complexityOf t =
      1 + t.wordRuns.countP (fun run => decide (run.1 ∈ decisionWords.map String.toList)) ∧
    complexityOf (a ++ '\n' :: b) = complexityOf a + complexityOf b - 1 ∧
    (Text.lines (a ++ '\n' :: b)).length = a.lines.length + b.lines.length ∧
    comment.countIn (a ++ '\n' :: b) = comment.countIn a + comment.countIn b ∧
    ∀ (found found' found'' : Int) (whole front back : Metrics),
      ofText (a ++ '\n' :: b) found = .ok whole → ofText a found' = .ok front →
      ofText b found'' = .ok back →
        whole.complexity = front.complexity + back.complexity - 1 ∧
          whole.lineCount = front.lineCount + back.lineCount := by
  refine ⟨?_, complexityOf_append_feed a b, length_lines_append_feed a b,
    isLineBound_comment.countIn_append_feed a b, ?_⟩
  · unfold complexityOf
    rw [isWordwise_decision.countIn_eq_countP_wordRuns, Nat.add_comm]
  · intro found found' found'' whole front back hwhole hfront hback
    rcases exists_of_map_eq_ok hwhole with ⟨_, _, rfl⟩
    rcases exists_of_map_eq_ok hfront with ⟨_, _, rfl⟩
    rcases exists_of_map_eq_ok hback with ⟨_, _, rfl⟩
    exact ⟨complexityOf_append_feed a b, length_lines_append_feed a b⟩

/-- A header with two decisions and a line with one, in a comment. -/
theorem counts_of_conditional :
    ∃ whole front back : Metrics,
      ofText ("if x or y:".toList ++ '\n' :: "    z()  # or z".toList) 0 = .ok whole ∧
      ofText "if x or y:".toList 0 = .ok front ∧ ofText "    z()  # or z".toList 0 = .ok back ∧
      front.complexity = 3 ∧ back.complexity = 2 ∧
      whole.complexity = front.complexity + back.complexity - 1 ∧
      whole.lineCount = front.lineCount + back.lineCount := by
  have hcounts :=
    counts_append_feed "if x or y:".toList "if x or y:".toList "    z()  # or z".toList
  refine ⟨_, _, _, rfl, rfl, rfl, by decide +kernel, by decide +kernel, ?_⟩
  exact hcounts.2.2.2.2 0 0 0 _ _ _ rfl rfl rfl

end Metrics
end SourceAudit
