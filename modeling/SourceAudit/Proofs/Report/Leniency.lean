import Mathlib.Data.List.Flatten
import SourceAudit.Proofs.Names.Occurrences
import SourceAudit.Proofs.Report.Range

/-!
# The two allow lists

## What the extended list changes

With the extended list a function introduces no fewer names, and no fewer names are allowed.  So
every use that is unknown under the extended list is unknown under the compact one, in each function
and then in the whole text.  The other passes do not look at the list.
-/

namespace SourceAudit

open Names

/-!
# Unknown names
-/

theorem unknownUsesIn_extended_sublist (function : FunctionText) :
    (unknownUsesIn .extended function).Sublist (unknownUsesIn .compat function) := by
  unfold unknownUsesIn
  apply List.Sublist.map
  apply List.monotone_filter_right
  intro used hused
  rw [Bool.and_eq_true, Bool.not_eq_true', Bool.not_eq_true'] at hused ⊢
  rcases hused with ⟨hunknown, hallowed⟩
  constructor
  · cases hcompat : (Std.HashSet.ofList ((localNames .compat function.parameters
        function.body).map String.ofList)).contains (String.ofList used.name) with
    | false =>
        rfl
    | true =>
        have hlocal := mem_localNames_extended (contains_ofList_map_iff.mp hcompat)
        rw [contains_ofList_map_iff.mpr hlocal] at hunknown
        cases hunknown
  · cases hcompat : AllowList.compat.allows used.name with
    | false =>
        rfl
    | true =>
        rw [AllowList.allows_extended_of_allows_compat hcompat] at hallowed
        cases hallowed

theorem nameFindings_extended_sublist (t : Text) :
    (nameFindings .extended t).Sublist (nameFindings .compat t) := by
  apply List.Sublist.map
  apply List.Sublist.flatMap_right
  intro function _
  exact unknownUsesIn_extended_sublist function

theorem kind_of_mem_nameFindings {allowList : AllowList} {t : Text} {finding : Finding}
    (h : finding ∈ nameFindings allowList t) : finding.kind = .meaning := by
  rcases List.mem_map.mp h with ⟨used, _, rfl⟩
  rfl

theorem filter_nameFindings (allowList : AllowList) (t : Text) :
    (nameFindings allowList t).filter (·.kind != .meaning) = [] := by
  apply List.filter_eq_nil_iff.mpr
  intro finding hfinding
  rw [kind_of_mem_nameFindings hfinding]
  decide

/-!
# Fewer findings
-/

theorem Report.confidenceOf_le {count count' : Nat} (h : count ≤ count') :
    confidenceOf count' ≤ confidenceOf count := by
  unfold confidenceOf confidencePenalty
  omega

theorem isEmpty_of_sublist {α : Type} {l l' : List α} (h : l.Sublist l')
    (hempty : l'.isEmpty = true) : l.isEmpty = true := by
  rw [List.isEmpty_iff.mp hempty] at h
  exact List.isEmpty_iff.mpr (List.sublist_nil.mp h)

/-!
# Reports with both lists
-/

def Report.ofMetrics (allowList : AllowList) (t : Text) (metrics : Metrics) : Report :=
  let findings := formFindings (isValid t) ++ nameFindings allowList t ++ practiceFindings t ++
    securityFindings t
  { valid := isValid t
    hasBug := !isValid t || !findings.isEmpty
    confidence := confidenceOf findings.length
    findings
    metrics
    time := Growth.ofTime t
    space := Growth.ofSpace t
    formValid := isValid t
    namesValid := (nameFindings allowList t).isEmpty }

theorem audit_eq_map {t : Text} (ht : t.isAllBlank = false) (allowList : AllowList) :
    audit allowList t =
      (Metrics.ofText t (securityFindings t).length).map (Report.ofMetrics allowList t) := by
  unfold audit
  rw [ht]
  rfl

theorem findings_ofMetrics_sublist (t : Text) (metrics : Metrics) :
    (Report.ofMetrics .extended t metrics).findings.Sublist
      (Report.ofMetrics .compat t metrics).findings := by
  apply List.Sublist.append_right
  apply List.Sublist.append_right
  exact List.Sublist.append_left (nameFindings_extended_sublist t) _

theorem hasBug_ofMetrics_of_extended {t : Text} {metrics : Metrics}
    (h : (Report.ofMetrics .extended t metrics).hasBug = true) :
    (Report.ofMetrics .compat t metrics).hasBug = true := by
  have hbug : ∀ {allowList}, (Report.ofMetrics allowList t metrics).hasBug = true ↔
      isValid t = true → (Report.ofMetrics allowList t metrics).findings.isEmpty = false := by
    intro allowList
    cases hvalid : isValid t <;> simp [Report.ofMetrics, hvalid]
  rw [hbug] at h ⊢
  intro hvalid
  apply Bool.eq_false_iff.mpr
  intro hempty
  rw [isEmpty_of_sublist (findings_ofMetrics_sublist t metrics) hempty] at h
  cases h hvalid

theorem filter_findings_ofMetrics (t : Text) (metrics : Metrics) :
    (Report.ofMetrics .extended t metrics).findings.filter (·.kind != .meaning) =
      (Report.ofMetrics .compat t metrics).findings.filter (·.kind != .meaning) := by
  simp only [Report.ofMetrics, List.filter_append, filter_nameFindings]

/-- A text has reports with both lists, or too many decisions for any.  The report with the extended
list differs in the findings about names only, and lacks some of those of the other report. -/
theorem audit_extended_of_compat (t : Text) :
    (∃ compact extended, audit .compat t = .ok compact ∧ audit .extended t = .ok extended ∧
      extended.valid = compact.valid ∧ extended.formValid = compact.formValid ∧
      extended.metrics = compact.metrics ∧ extended.time = compact.time ∧
      extended.space = compact.space ∧ extended.findings.Sublist compact.findings ∧
      extended.findings.filter (·.kind != .meaning) =
        compact.findings.filter (·.kind != .meaning) ∧
      compact.confidence ≤ extended.confidence ∧
      (extended.hasBug = true → compact.hasBug = true) ∧
      (compact.namesValid = true → extended.namesValid = true)) ∨
    (HasTooManyDecisions t ∧ audit .compat t = .error .tooLarge ∧
      audit .extended t = .error .tooLarge) := by
  cases hblank : t.isAllBlank with
  | true =>
      have haudit : ∀ allowList, audit allowList t = .ok .blank := by
        intro allowList
        unfold audit
        rw [if_pos hblank]
      left
      exact ⟨.blank, .blank, haudit .compat, haudit .extended, rfl, rfl, rfl, rfl, rfl,
        List.Sublist.refl _, rfl, Int.le_refl _, id, id⟩
  | false =>
      cases hmetrics : Metrics.ofText t (securityFindings t).length with
      | error fault =>
          have haudit : ∀ allowList, audit allowList t = .error fault := by
            intro allowList
            rw [audit_eq_map hblank, hmetrics]
            rfl
          rcases audit_eq_error_iff.mp (haudit .compat) with ⟨rfl, hmany⟩
          right
          exact ⟨hmany, haudit .compat, haudit .extended⟩
      | ok metrics =>
          have haudit : ∀ allowList,
              audit allowList t = .ok (.ofMetrics allowList t metrics) := by
            intro allowList
            rw [audit_eq_map hblank, hmetrics]
            rfl
          have hfindings := findings_ofMetrics_sublist t metrics
          left
          refine ⟨_, _, haudit .compat, haudit .extended, rfl, rfl, rfl, rfl, rfl, hfindings,
            filter_findings_ofMetrics t metrics, Report.confidenceOf_le hfindings.length_le,
            hasBug_ofMetrics_of_extended, isEmpty_of_sublist (nameFindings_extended_sublist t)⟩

end SourceAudit
