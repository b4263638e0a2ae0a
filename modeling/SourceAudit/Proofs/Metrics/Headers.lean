import SourceAudit.Proofs.Growth.Loops
import SourceAudit.Proofs.Metrics.Counts
import SourceAudit.Proofs.Report.Consistency

/-!
# Headers and handlers among the decisions

## What several passes see

The words of the loops and the word of a handler are decisions.  So each line that opens a loop has
a decision of its own, and a handler that names no exception has one that no such line has.  The
guess for the running time rests on lines that open a loop, on one for linear and on two for
quadratic growth.
-/

namespace SourceAudit

open Pattern

/-!
# Lines that open a loop
-/

namespace Growth

theorem IsHeader.occursIn_words {keywords : List String} (hkeywords : AreWords keywords)
    {line : Text} (h : IsHeader keywords line) :
    (seq wordBoundary (wholeWord keywords)).occursIn line = true := by
  rcases h with ⟨indent, keyword, hkeyword, behind, rfl, hindent, hbehind, _⟩
  apply (occursIn_words_iff hkeywords).mpr
  refine ⟨indent, keyword, hkeyword, behind, rfl, ?_, hbehind⟩
  intro x hx
  exact Text.isWord_eq_false_of_isIndent (hindent x (List.mem_of_mem_getLast? hx))

theorem countP_isHeader_le {keywords : List String} (hkeywords : AreWords keywords) (t : Text) :
    t.lines.countP (fun line => decide (IsHeader keywords line)) ≤
      (seq wordBoundary (wholeWord keywords)).countIn t := by
  apply (isLineBound_words hkeywords).countP_lines_le
  intro line _ hheader
  exact (of_decide_eq_true hheader).occursIn_words hkeywords

theorem countP_isHeader_of_linear {t : Text} (h : ofTime t = linear) :
    1 ≤ t.lines.countP fun line => decide (IsHeader ["for", "while"] line) := by
  have hoccurs : anyLoop.occursIn t = true := by
    unfold ofTime at h
    revert h
    cases nestedLoops.occursIn t <;> cases anyLoop.occursIn t <;> simp
  rcases (occursIn_loopHeader_iff areWords_for_while).mp hoccurs with ⟨line, hline, hheader⟩
  exact List.countP_pos_iff.mpr ⟨line, hline, decide_eq_true hheader⟩

theorem countP_isHeader_of_quadratic {t : Text} (h : ofTime t = quadratic) :
    2 ≤ t.lines.countP fun line => decide (IsHeader ["for", "while"] line) := by
  rcases ofTime_eq_quadratic_iff.mp h with
    ⟨front, first, blanks, other, second, back, hlines, hfirst, _, _, hsecond⟩
  have hheader : ∀ {line : Text}, IsHeader ["for"] line → IsHeader ["for", "while"] line :=
    fun hline => hline.mono (by simp)
  rw [hlines]
  simp only [List.countP_append, List.countP_cons, decide_eq_true (hheader hfirst),
    decide_eq_true (hheader hsecond), if_true]
  omega

end Growth

/-!
# Handlers
-/

theorem areWords_except : AreWords ["except"] := by
  simp [AreWords, Text.isWord]

theorem occursIn_except_of_bareHandler {t : Text} (h : Practice.bareHandler.occursIn t = true) :
    (seq wordBoundary (wholeWord ["except"])).occursIn t = true := by
  rcases occursIn_iff_spans.mp h with ⟨before, piece, after, rfl, hspans⟩
  unfold Practice.bareHandler blanks wordBoundary at hspans
  simp only [spans_sequence_cons_cons, spans_sequence_singleton, spans_check, spans_literal,
    spans_whole, spans_exactly] at hspans
  rcases hspans with ⟨_, _, rfl, ⟨rfl, hboundary⟩, _, _, rfl, rfl, gap, _, rfl, ⟨hgap, _⟩, rfl⟩
  refine (occursIn_words_iff areWords_except).mpr
    ⟨before, "except", List.mem_singleton.mpr rfl, gap ++ [':'] ++ after, ?_, ?_, ?_⟩
  · simp
  · exact (Cursor.atWordBoundary_before rfl (by decide)).mp hboundary
  · rw [List.append_assoc]
    apply forall_mem_head?_append
    · intro x hx
      exact Text.isWord_eq_false_of_isBlank (hgap x (List.mem_of_mem_head? hx))
    · intro x hx
      cases hx
      decide

theorem bareHandler_mem_findings_iff {allowList : AllowList} {t : Text} {metrics : Metrics} :
    .bareHandler ∈ (Report.ofMetrics allowList t metrics).findings ↔
      Practice.bareHandler.occursIn t = true := by
  simp only [Report.ofMetrics, List.mem_append]
  constructor
  · intro h
    rcases h with ((hform | hname) | hpractice) | hsecurity
    · exact absurd (kind_of_mem_formFindings hform) (by decide)
    · exact absurd (kind_of_mem_nameFindings hname) (by decide)
    · rcases List.mem_map.mp hpractice with ⟨rule, hrule, hfinding⟩
      rcases List.mem_filter.mp hrule with ⟨hmem, hoccurs⟩
      simp only [Practice.rules, List.mem_cons, List.not_mem_nil, or_false] at hmem
      rcases hmem with rfl | rfl
      · cases hfinding
      · exact hoccurs
    · exact absurd (kind_of_mem_securityFindings hsecurity) (by decide)
  · intro h
    left
    right
    apply List.mem_map.mpr
    refine ⟨(Practice.bareHandler, .bareHandler), List.mem_filter.mpr ⟨?_, h⟩, rfl⟩
    simp [Practice.rules]

/-!
# Decisions
-/

namespace Metrics

/-- Lines that open a loop have a decision each, and a bare handler has one of its own. -/
theorem headers_add_handler_le (t : Text) :
    t.lines.countP (fun line => decide (Growth.IsHeader ["for", "while"] line)) +
        (if Practice.bareHandler.occursIn t then 1 else 0) ≤
      decision.countIn t := by
  have hloops := Growth.countP_isHeader_le Growth.areWords_for_while t
  have hhandler : (if Practice.bareHandler.occursIn t then 1 else 0) ≤
      (seq wordBoundary (wholeWord ["except"])).countIn t := by
    split
    · rename_i hoccurs
      exact (countIn_pos_iff _ t).mpr (occursIn_except_of_bareHandler hoccurs)
    · exact Nat.zero_le _
  calc
    _ ≤ (seq wordBoundary (wholeWord ["for", "while"])).countIn t +
        (seq wordBoundary (wholeWord ["except"])).countIn t := Nat.add_le_add hloops hhandler
    _ ≤ decision.countIn t := by
      apply countIn_words_add_le areWords_decisionWords
      · simp [decisionWords]
      · simp [decisionWords]
      · simp

end Metrics

/-- The complexity of a text that is not blank counts at least its lines that open a loop and a
handler that is found to name no exception.  So it is at least 2 for linear and 3 for quadratic
growth. -/
theorem headers_add_handler_lt_complexity {t : Text} (ht : t.isAllBlank = false)
    (allowList : AllowList) :
    (∃ report, audit allowList t = .ok report ∧
      1 + t.lines.countP (fun line => decide (Growth.IsHeader ["for", "while"] line)) +
          (if .bareHandler ∈ report.findings then 1 else 0) ≤ report.metrics.complexity ∧
      (report.time.label = Growth.linear.label → 2 ≤ report.metrics.complexity) ∧
      (report.time.label = Growth.quadratic.label → 3 ≤ report.metrics.complexity)) ∨
    (HasTooManyDecisions t ∧ audit allowList t = .error .tooLarge) := by
  cases haudit : audit allowList t with
  | error fault =>
      rcases audit_eq_error_iff.mp haudit with ⟨rfl, hmany⟩
      exact Or.inr ⟨hmany, rfl⟩
  | ok report =>
      left
      refine ⟨report, rfl, ?_⟩
      rw [audit_eq_map ht] at haudit
      rcases exists_of_map_eq_ok haudit with ⟨metrics, hmetrics, rfl⟩
      have hcomplexity : metrics.complexity = Metrics.decision.countIn t + 1 := by
        rcases exists_of_map_eq_ok hmetrics with ⟨_, _, rfl⟩
        rfl
      have hdecisions := Metrics.headers_add_handler_le t
      simp only [bareHandler_mem_findings_iff]
      show _ ≤ metrics.complexity ∧ (_ → 2 ≤ metrics.complexity) ∧ (_ → 3 ≤ metrics.complexity)
      rw [hcomplexity]
      refine ⟨by omega, ?_, ?_⟩
      · intro hlabel
        have hlines := Growth.countP_isHeader_of_linear (Growth.label_injective hlabel)
        omega
      · intro hlabel
        have hlines := Growth.countP_isHeader_of_quadratic (Growth.label_injective hlabel)
        omega

def loopsWithHandler : Text :=
  "for i in a:\n  for j in b: # except:".toList

/-- The two headers and the handler are three decisions. -/
theorem headers_add_handler_lt_complexity_loops :
    Text.isAllBlank loopsWithHandler = false ∧
    ∃ report, audit .compat loopsWithHandler = .ok report ∧ .bareHandler ∈ report.findings ∧
      4 ≤ report.metrics.complexity ∧ report.time.label = Growth.quadratic.label := by
  have hblank : Text.isAllBlank loopsWithHandler = false := by
    decide
  refine ⟨hblank, ?_⟩
  rcases headers_add_handler_lt_complexity hblank .compat with
    ⟨report, haudit, hcount, _⟩ | ⟨hmany, _⟩
  · have hreport := haudit
    rw [audit_eq_map hblank] at hreport
    rcases exists_of_map_eq_ok hreport with ⟨metrics, _, rfl⟩
    have hfound : .bareHandler ∈ (Report.ofMetrics .compat loopsWithHandler metrics).findings :=
      bareHandler_mem_findings_iff.mpr (by decide +kernel)
    have hheaders : (Text.lines loopsWithHandler).countP
        (fun line => decide (Growth.IsHeader ["for", "while"] line)) = 2 := by
      decide +kernel
    have hquadratic : Growth.ofTime loopsWithHandler = .quadratic := by
      decide +kernel
    rw [hheaders, if_pos hfound] at hcount
    exact ⟨_, haudit, hfound, hcount, congrArg Growth.label hquadratic⟩
  · exact absurd hmany (Metrics.not_hasTooManyDecisions (by decide))

end SourceAudit
