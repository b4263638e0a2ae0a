import Mathlib.Algebra.Order.Field.Basic
import Mathlib.Algebra.Order.Ring.Rat
import Mathlib.Tactic.Linarith
import SourceAudit.Proofs.Metrics.Counts

/-!
# Shares in percent

## Parts of a whole

A comment begins at the first mark of its line and ends with the line, so a text has as many of them
as lines with a mark.  Every header of a test is the header of a function, and begins at the same
place.  Therefore neither share is more than the whole, whatever the text.
-/

namespace SourceAudit
namespace Pattern

variable {p : Pattern} {t : Text}

theorem countIn_eq_one_of_reaches_end
    (hne : ∀ {before piece after : Text}, p.Spans before piece after → piece ≠ [])
    (hend : ∀ {before piece after : Text}, t = before ++ (piece ++ after) →
      p.Spans before piece after → after = [])
    (hoccurs : p.occursIn t = true) : p.countIn t = 1 := by
  rcases occursIn_iff_spans.mp hoccurs with ⟨before, piece, after, ht, hspans⟩
  have hbegins : (p.reader (Cursor.between before (piece ++ after))).isSome = true := by
    unfold reader
    rw [Option.isSome_map]
    exact beginsAt_between.mpr ⟨piece, after, rfl, hspans⟩
  have hplace : Cursor.between before (piece ++ after) ∈ Cursor.all t :=
    Cursor.mem_all.mpr ⟨before, piece ++ after, ht, rfl⟩
  have hscan : p.reader.ScansFrom (Cursor.all t) 0 (p.matchesIn t) :=
    Reader.scansFrom_scan (isForward_reader_of_ne_nil hne t)
  unfold countIn
  generalize p.matchesIn t = found at hscan
  cases hscan with
  | done hnone =>
      rw [hnone _ hplace (Nat.zero_le _)] at hbegins
      cases hbegins
  | @next _ c d value later hc _ _ hread hlater =>
      rcases exists_spans_of_reader hc hread with ⟨front, first, rest, hfront, _, rfl, hfirst⟩
      have hrest := hend hfront hfirst
      cases hlater with
      | done _ =>
          rfl
      | @next _ e _ _ _ he hle _ hother _ =>
          rcases exists_spans_of_reader he hother with
            ⟨front', second, rest', hfront', rfl, _, hsecond⟩
          have hpos := List.length_pos_iff.mpr (hne hsecond)
          have hlength := congrArg List.length (hfront.symm.trans hfront')
          rw [hrest] at hlength
          simp only [Cursor.between_pos, List.length_append, List.length_nil] at hle hlength
          omega

end Pattern

namespace Metrics

open Pattern

variable {before piece after : Text}

/-!
# Comments and lines
-/

theorem occursIn_comment_iff {line : Text} (h : '\n' ∉ line) :
    comment.occursIn line = true ↔ '#' ∈ line := by
  rw [occursIn_iff_spans]
  constructor
  · intro hoccurs
    rcases hoccurs with ⟨before, piece, after, rfl, hspans⟩
    rcases spans_comment.mp hspans with ⟨body, rfl, _⟩
    simp
  · intro hmark
    rcases List.append_of_mem hmark with ⟨before, body, rfl⟩
    refine ⟨before, '#' :: body, [], by simp, spans_comment.mpr ⟨body, rfl, ?_, by simp⟩⟩
    intro hfeed
    exact h (List.mem_append_right before (List.mem_cons_of_mem '#' hfeed))

theorem countIn_comment_line {line : Text} (h : '\n' ∉ line) :
    comment.countIn line = if line.contains '#' then 1 else 0 := by
  by_cases hmark : '#' ∈ line
  · rw [if_pos (List.contains_iff_mem.mpr hmark)]
    apply countIn_eq_one_of_reaches_end ne_nil_of_spans_comment
    · intro before piece after hline hspans
      rcases spans_comment.mp hspans with ⟨body, _, _, hafter⟩
      cases after with
      | nil =>
          rfl
      | cons x rest =>
          rw [hline, hafter x rfl] at h
          exact absurd (by simp) h
    · exact (occursIn_comment_iff h).mpr hmark
  · rw [if_neg (fun hcontains => hmark (List.contains_iff_mem.mp hcontains))]
    have hnone : ¬0 < comment.countIn line := by
      rw [countIn_pos_iff, occursIn_comment_iff h]
      exact hmark
    exact Nat.eq_zero_of_not_pos hnone

/-- A text has as many comments as lines with a mark. -/
theorem countIn_comment (t : Text) :
    comment.countIn t = t.lines.countP fun line => line.contains '#' := by
  have hlines : ∀ rows : List Text, (∀ row ∈ rows, '\n' ∉ row) →
      (rows.map comment.countIn).sum = rows.countP fun line => line.contains '#' := by
    intro rows hrows
    induction rows with
    | nil =>
        rfl
    | cons row others ih =>
        rcases List.forall_mem_cons.mp hrows with ⟨hrow, hothers⟩
        rw [List.map_cons, List.sum_cons, List.countP_cons, ih hothers, countIn_comment_line hrow,
          Nat.add_comm]
  rw [isLineBound_comment.countIn_eq_sum, hlines]
  exact fun row hrow => Text.not_mem_of_mem_lines hrow

/-!
# Functions and tests
-/

theorem spans_functionStart :
    functionStart.Spans before piece after ↔
      ∃ gap, piece = "def".toList ++ gap ∧ gap ≠ [] ∧ (∀ x ∈ gap, Text.isBlank x = true) ∧
        (∀ x ∈ after.head?, Text.isBlank x = false) ∧
        ∀ x ∈ before.getLast?, Text.isWord x = false := by
  unfold functionStart someBlanks wordBoundary
  simp only [spans_sequence_cons_cons, spans_sequence_singleton, spans_check, spans_literal,
    spans_several]
  constructor
  · intro h
    rcases h with ⟨_, _, rfl, ⟨rfl, hboundary⟩, _, gap, rfl, rfl, hne, hgap, hafter⟩
    exact ⟨gap, rfl, hne, hgap, hafter,
      (Cursor.atWordBoundary_before rfl (by decide)).mp hboundary⟩
  · intro h
    rcases h with ⟨gap, rfl, hne, hgap, hafter, hbefore⟩
    exact ⟨[], _, rfl, ⟨rfl, (Cursor.atWordBoundary_before rfl (by decide)).mpr hbefore⟩,
      "def".toList, gap, rfl, rfl, hne, hgap, hafter⟩

theorem isWordwise_functionStart :
    functionStart.IsWordwise fun run =>
      run.1 == "def".toList && run.2.head?.any Text.isBlank where
  exists_isWordRun {before piece after} h := by
    rcases spans_functionStart.mp h with ⟨gap, rfl, hne, hgap, _, hbefore⟩
    rcases List.exists_cons_of_ne_nil hne with ⟨x, more, rfl⟩
    have hx := hgap x List.mem_cons_self
    have hword : ∀ y ∈ "def".toList, Text.isWord y = true := by
      simp [Text.isWord]
    refine ⟨"def".toList, x :: more, rfl, ?_, ⟨List.cons_ne_nil _ _, hword, hbefore, ?_⟩, ?_⟩
    · exact fun y hy => Text.isWord_eq_false_of_isBlank (hgap y hy)
    · intro y hy
      cases hy
      exact Text.isWord_eq_false_of_isBlank hx
    · rw [Bool.and_eq_true]
      exact ⟨rfl, hx⟩
  exists_spans {before word behind} hrun hholds := by
    rw [Bool.and_eq_true, beq_iff_eq, Option.any_eq_true] at hholds
    rcases hholds with ⟨rfl, x, hhead, hx⟩
    refine ⟨behind.takeWhile Text.isBlank, behind.dropWhile Text.isBlank,
      List.takeWhile_append_dropWhile.symm, ?_⟩
    apply spans_functionStart.mpr
    refine ⟨behind.takeWhile Text.isBlank, rfl, ?_, List.all_eq_true.mp List.all_takeWhile,
      Text.forall_mem_head?_dropWhile Text.isBlank behind, hrun.before⟩
    cases behind with
    | nil =>
        cases hhead
    | cons y rest =>
        cases hhead
        rw [List.takeWhile_cons, if_pos hx]
        exact List.cons_ne_nil _ _

theorem beginsAt_functionStart (c : Cursor) (h : testStart.beginsAt c = true) :
    functionStart.beginsAt c = true := by
  rcases (beginsAt_iff testStart c).mp h with ⟨d, hd⟩
  rcases mem_ends_seq.mp hd with ⟨e, he, _⟩
  exact (beginsAt_iff functionStart c).mpr ⟨e, he⟩

theorem countIn_testStart_le (t : Text) : testStart.countIn t ≤ functionStart.countIn t :=
  isWordwise_functionStart.countIn_le beginsAt_functionStart t

/-!
# Shares
-/

/-- A part has a share between 0 and 100 in exact numbers. -/
theorem share_mem_Icc {part whole : Nat} (h : part ≤ whole) :
    (share Nat.cast part whole : ℚ) ∈ Set.Icc 0 100 := by
  have hratio : (part : ℚ) / whole ≤ 1 :=
    div_le_one_of_le₀ (Nat.cast_le.mpr h) (Nat.cast_nonneg whole)
  have hpositive : (0 : ℚ) ≤ part / whole :=
    div_nonneg (Nat.cast_nonneg part) (Nat.cast_nonneg whole)
  unfold share
  push_cast
  constructor
  · linarith
  · linarith

/-- Comments are counted once a line and functions once a word, no test is counted that is not
counted as a function, and so both shares lie between 0 and 100 before they are rounded. -/
theorem shares_mem_Icc (t : Text) :
    comment.countIn t = t.lines.countP (fun line => line.contains '#') ∧
    comment.countIn t ≤ t.lines.length ∧
    functionStart.countIn t =
      t.wordRuns.countP (fun run => run.1 == "def".toList && run.2.head?.any Text.isBlank) ∧
    testStart.countIn t ≤ functionStart.countIn t ∧
    (functionStart.countIn t = 0 → testStart.countIn t = 0) ∧
    (share Nat.cast (comment.countIn t) t.lines.length : ℚ) ∈ Set.Icc 0 100 ∧
    (share Nat.cast (testStart.countIn t) (max 1 (functionStart.countIn t)) : ℚ) ∈
      Set.Icc 0 100 ∧
    ∀ (found : Int) (metrics : Metrics), ofText t found = .ok metrics →
      metrics.lineCount = t.lines.length ∧
      metrics.functionCount = functionStart.countIn t ∧
      metrics.commentShare = share Number.ofCount (comment.countIn t) metrics.lineCount ∧
      metrics.testShare = share Number.ofCount (testStart.countIn t) (max 1 metrics.functionCount) := by
  have hcomments : comment.countIn t ≤ t.lines.length := by
    rw [countIn_comment]
    exact List.countP_le_length
  have htests := countIn_testStart_le t
  refine ⟨countIn_comment t, hcomments, isWordwise_functionStart.countIn_eq_countP_wordRuns t,
    htests, ?_, share_mem_Icc hcomments,
    share_mem_Icc (Nat.le_trans htests (Nat.le_max_right 1 _)), ?_⟩
  · intro hzero
    rw [hzero] at htests
    exact Nat.le_zero.mp htests
  · intro found metrics h
    rcases exists_of_map_eq_ok h with ⟨_, _, rfl⟩
    exact ⟨rfl, rfl, rfl, rfl⟩

/-- A line without a function, and a test with a comment on one of its two lines. -/
theorem shares_of_test :
    functionStart.countIn "define = 1".toList = 0 ∧ testStart.countIn "define = 1".toList = 0 ∧
    ∃ metrics : Metrics, ofText "def test_a():\n    pass  # done".toList 0 = .ok metrics ∧
      metrics.lineCount = 2 ∧ metrics.functionCount = 1 ∧
      metrics.commentShare = share Number.ofCount 1 metrics.lineCount ∧
      metrics.testShare = share Number.ofCount 1 (max 1 metrics.functionCount) := by
  have hnone : functionStart.countIn "define = 1".toList = 0 := by
    decide +kernel
  have hcomment : comment.countIn "def test_a():\n    pass  # done".toList = 1 := by
    decide +kernel
  have hfunction : functionStart.countIn "def test_a():\n    pass  # done".toList = 1 := by
    decide +kernel
  have htest : testStart.countIn "def test_a():\n    pass  # done".toList = 1 := by
    decide +kernel
  have hshares := (shares_mem_Icc "def test_a():\n    pass  # done".toList).2.2.2.2.2.2.2 0 _ rfl
  rw [hcomment, hfunction, htest] at hshares
  exact ⟨hnone, (shares_mem_Icc "define = 1".toList).2.2.2.2.1 hnone, _, rfl, hshares⟩

end Metrics
end SourceAudit
