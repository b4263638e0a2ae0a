import SourceAudit.Output.ReportJson
import SourceAudit.Proofs.Output.Json
import SourceAudit.Proofs.Report.Consistency

/-!
# The document of a run

## Labels and messages

All strings of a report are fixed, but for the names that its findings tell, and no name holds a
colon.  So the codes in a document are those in the labels of its reports and in its messages about
sources that cannot be read.
-/

namespace SourceAudit

open Json

/-!
# Findings
-/

/-- Names that are reported as unknown are names. -/
theorem isName_of_mem_findings {allowList : AllowList} {t : Text} {r : Report}
    (h : audit allowList t = .ok r) {name : Text} (hname : .unknownName name ∈ r.findings) :
    IsName name := by
  cases hblank : t.isAllBlank with
  | true =>
      unfold audit at h
      rw [if_pos hblank] at h
      cases h
      cases hname
  | false =>
      rw [audit_eq_map hblank] at h
      rcases exists_of_map_eq_ok h with ⟨metrics, hmetrics, rfl⟩
      have hmade : (Report.ofMetrics allowList t metrics).IsMadeOf (nameFindings allowList t)
          (practiceFindings t) (securityFindings t) := Report.isMadeOf_ofMetrics hmetrics
      rcases hmade.mem_findings_iff.mp hname with hform | hfound | hpractice | hsecurity
      · cases kind_of_mem_formFindings hform
      · rcases List.mem_map.mp hfound with ⟨used, hused, heq⟩
        cases heq
        rcases (mem_unknownUses_iff.mp hused).1 with ⟨_, _, _, _, hisName, _⟩
        exact hisName
      · cases hmade.practice_kind _ hpractice
      · cases hmade.security_kind _ hsecurity

theorem not_mem_of_mem_findings {allowList : AllowList} {t : Text} {r : Report}
    (h : audit allowList t = .ok r) {name : Text} (hname : .unknownName name ∈ r.findings) :
    ':' ∉ name := by
  intro hmem
  exact absurd ((isName_of_mem_findings h hname).2 ':' hmem) (by decide)

/-!
# Fixed texts
-/

theorem not_mem_ofList {t : Text} {c : Char} (h : c ∉ t) : c ∉ (String.ofList t).toList := by
  rwa [String.toList_ofList]

theorem not_mem_kind_label (kind : Kind) : ':' ∉ kind.label.toList := by
  cases kind <;> exact not_mem_ofList (by decide)

theorem not_mem_kind_heading (kind : Kind) : ':' ∉ kind.heading.toList := by
  cases kind <;> exact not_mem_ofList (by decide)

theorem not_mem_severity_label (severity : Severity) : ':' ∉ severity.label.toList := by
  cases severity <;> exact not_mem_ofList (by decide)

theorem not_mem_growth_label (growth : Growth) : ':' ∉ growth.label.toList := by
  cases growth <;> exact not_mem_ofList (by decide)

theorem not_mem_fix (finding : Finding) : ':' ∉ finding.fix.toList := by
  cases finding <;> exact not_mem_ofList (by decide)

theorem not_mem_impact (finding : Finding) : ':' ∉ finding.impact.toList := by
  cases finding <;> exact not_mem_ofList (by decide)

theorem hasNoCode_message {finding : Finding}
    (hname : ∀ name, finding = .unknownName name → ':' ∉ name) :
    (Json.string finding.message).HasNoCode := by
  cases finding with
  | unknownName name =>
      apply hasNoCode_string
      unfold Finding.message
      rw [String.toList_append, String.toList_append, List.mem_append, List.mem_append]
      rintro ((hmem | hmem) | hmem)
      · exact absurd hmem (by simp)
      · rw [String.toList_ofList] at hmem
        exact hname name rfl hmem
      · exact absurd hmem (by simp)
  | dynamicEvaluation =>
      intro t hquotes
      rw [quotes_string_iff.mp hquotes]
      decide
  | malformed => exact hasNoCode_string (not_mem_ofList (by decide))
  | sharedDefault => exact hasNoCode_string (not_mem_ofList (by decide))
  | bareHandler => exact hasNoCode_string (not_mem_ofList (by decide))
  | writtenSecret => exact hasNoCode_string (not_mem_ofList (by decide))

/-!
# Reports
-/

theorem hasNoCode_finding {finding : Finding}
    (hname : ∀ name, finding = .unknownName name → ':' ∉ name) : finding.json.HasNoCode := by
  apply hasNoCode_record
  · simp
  · simp only [List.map_cons, List.map_nil, List.forall_mem_cons]
    exact ⟨hasNoCode_string (not_mem_kind_label finding.kind),
      hasNoCode_string (not_mem_severity_label finding.severity), hasNoCode_message hname,
      hasNoCode_string (not_mem_fix finding), hasNoCode_string (not_mem_impact finding),
      hasNoCode_string (not_mem_kind_heading finding.kind), hasNoCode_null, by simp⟩

theorem hasNoCode_metrics (metrics : Metrics) : metrics.json.HasNoCode := by
  apply hasNoCode_record
  · simp
  · simp only [List.map_cons, List.map_nil, List.forall_mem_cons]
    exact ⟨hasNoCode_int _, hasNoCode_float _, hasNoCode_int _, hasNoCode_int _, hasNoCode_float _,
      hasNoCode_float _, hasNoCode_float _, hasNoCode_float _, hasNoCode_float _, hasNoCode_int _,
      by simp⟩

theorem hasNoCode_report {r : Report}
    (hnames : ∀ name, .unknownName name ∈ r.findings → ':' ∉ name) : r.json.HasNoCode := by
  have hfindings : (Json.array (r.findings.map Finding.json)).HasNoCode := by
    apply hasNoCode_array
    intro item hitem
    rcases List.mem_map.mp hitem with ⟨finding, hfinding, rfl⟩
    apply hasNoCode_finding
    rintro name rfl
    exact hnames name hfinding
  apply hasNoCode_record
  · simp
  · simp only [List.map_cons, List.map_nil, List.forall_mem_cons]
    exact ⟨hasNoCode_bool _, hasNoCode_bool _, hasNoCode_int _, hfindings, hasNoCode_metrics _,
      hasNoCode_string (not_mem_growth_label r.time),
      hasNoCode_string (not_mem_growth_label r.space), hasNoCode_bool _, hasNoCode_bool _, by simp⟩

/-!
# Documents
-/

/-- The codes in the document of some reports and messages are those in the labels of the reports
and in the messages. -/
theorem mem_codesIn_documentOf {reports : List LabelledReport} {errors : List String}
    (hnames : ∀ labelled ∈ reports, ∀ name, .unknownName name ∈ labelled.report.findings →
      ':' ∉ name) {code : Text} :
    code ∈ Emoji.codesIn (documentOf reports errors).text ↔
      (∃ labelled ∈ reports,
        code ∈ Emoji.codesIn (stringText (String.ofList labelled.label))) ∨
      ∃ error ∈ errors, code ∈ Emoji.codesIn (stringText error) := by
  have hlabel : ∀ {s : String}, ':' ∉ s.toList →
      ¬code ∈ Emoji.codesIn (stringText s ++ [':']) := by
    intro s hs hcode
    rw [codesIn_label hs] at hcode
    cases hcode
  unfold Json.text
  rw [mem_codesIn_textAt]
  unfold documentOf
  simp only [quotes_record_iff, List.exists_mem_cons_iff, List.not_mem_nil, false_and,
    exists_false, or_false, quotes_array_iff, List.mem_map]
  constructor
  · rintro ⟨t, (rfl | ⟨_, ⟨labelled, hlabelled, rfl⟩, hquotes⟩) |
      rfl | ⟨_, ⟨error, herror, rfl⟩, hquotes⟩, hcode⟩
    · exact absurd hcode (hlabel (by decide))
    · simp only [quotes_record_iff, List.exists_mem_cons_iff, List.not_mem_nil, false_and,
        exists_false, or_false, quotes_string_iff] at hquotes
      rcases hquotes with (rfl | rfl) | rfl | hreport
      · exact absurd hcode (hlabel (by decide))
      · exact Or.inl ⟨labelled, hlabelled, hcode⟩
      · exact absurd hcode (hlabel (by decide))
      · rw [hasNoCode_report (hnames labelled hlabelled) _ hreport] at hcode
        cases hcode
    · exact absurd hcode (hlabel (by decide))
    · rw [quotes_string_iff.mp hquotes] at hcode
      exact Or.inr ⟨error, herror, hcode⟩
  · rintro (⟨labelled, hlabelled, hcode⟩ | ⟨error, herror, hcode⟩)
    · refine ⟨_, Or.inl (Or.inr ⟨_, ⟨labelled, hlabelled, rfl⟩, ?_⟩), hcode⟩
      exact quotes_record_iff.mpr ⟨_, List.mem_cons_self, Or.inr (.string _)⟩
    · exact ⟨_, Or.inr (Or.inr ⟨_, ⟨error, herror, rfl⟩, .string error⟩), hcode⟩

/-!
# Members of a report
-/

/-- Whether a value tells all parts of a finding.  The line of a finding is not known. -/
structure Json.TellsFinding (v : Json) (finding : Finding) : Prop where
  type : v.HasOnly "type" (.string finding.kind.label)
  severity : v.HasOnly "severity" (.string finding.severity.label)
  message : v.HasOnly "message" (.string finding.message)
  fix : v.HasOnly "fix" (.string finding.fix)
  impact : v.HasOnly "impact" (.string finding.impact)
  category : v.HasOnly "category" (.string finding.kind.heading)
  line : v.HasOnly "line" .null

structure Json.TellsMetrics (v : Json) (metrics : Metrics) : Prop where
  complexity : v.HasOnly "cyclomatic_complexity" (.int metrics.complexity)
  maintainability : v.HasOnly "maintainability_index" (.float metrics.maintainability)
  lineCount : v.HasOnly "lines_of_code" (.int metrics.lineCount)
  functionCount : v.HasOnly "number_of_functions" (.int metrics.functionCount)
  functionLength : v.HasOnly "average_function_length" (.float metrics.functionLength)
  commentShare : v.HasOnly "comment_coverage" (.float metrics.commentShare)
  duplicates : v.HasOnly "duplicate_code" (.float 0.0)
  unused : v.HasOnly "unused_code" (.float 0.0)
  testShare : v.HasOnly "test_coverage" (.float metrics.testShare)
  securityScore : v.HasOnly "security_score" (.int metrics.securityScore)

/-- Whether a value tells all parts of a report, with its findings in their order. -/
structure Json.TellsReport (v : Json) (r : Report) : Prop where
  valid : v.HasOnly "is_valid" (.bool r.valid)
  hasBug : v.HasOnly "has_bug" (.bool r.hasBug)
  confidence : v.HasOnly "confidence" (.int r.confidence)
  findings : ∃ items, v.HasOnly "suggestions" (.array items) ∧
    List.Forall₂ TellsFinding items r.findings
  metrics : ∃ inner, v.HasOnly "metrics" inner ∧ inner.TellsMetrics r.metrics
  time : v.HasOnly "time_complexity" (.string r.time.label)
  space : v.HasOnly "space_complexity" (.string r.space.label)
  formValid : v.HasOnly "syntax_validity" (.bool r.formValid)
  namesValid : v.HasOnly "semantic_validity" (.bool r.namesValid)

theorem tellsFinding_json (finding : Finding) : finding.json.TellsFinding finding := by
  have hnodup : ["type", "severity", "message", "fix", "impact", "category", "line"].Nodup := by
    decide
  constructor <;> exact hasOnly_record (by simp) hnodup

theorem tellsMetrics_json (metrics : Metrics) : metrics.json.TellsMetrics metrics := by
  have hnodup : ["cyclomatic_complexity", "maintainability_index", "lines_of_code",
      "number_of_functions", "average_function_length", "comment_coverage", "duplicate_code",
      "unused_code", "test_coverage", "security_score"].Nodup := by
    decide
  constructor <;> exact hasOnly_record (by simp) hnodup

theorem tellsReport_json (r : Report) : r.json.TellsReport r := by
  have hnodup : ["is_valid", "has_bug", "confidence", "suggestions", "metrics", "time_complexity",
      "space_complexity", "syntax_validity", "semantic_validity"].Nodup := by
    decide
  have hfindings : List.Forall₂ TellsFinding (r.findings.map Finding.json) r.findings := by
    rw [List.forall₂_map_left_iff, List.forall₂_same]
    intro finding _
    exact tellsFinding_json finding
  exact {
    valid := hasOnly_record (by simp) hnodup
    hasBug := hasOnly_record (by simp) hnodup
    confidence := hasOnly_record (by simp) hnodup
    findings := ⟨r.findings.map Finding.json, hasOnly_record (by simp) hnodup, hfindings⟩
    metrics := ⟨r.metrics.json, hasOnly_record (by simp) hnodup, tellsMetrics_json r.metrics⟩
    time := hasOnly_record (by simp) hnodup
    space := hasOnly_record (by simp) hnodup
    formValid := hasOnly_record (by simp) hnodup
    namesValid := hasOnly_record (by simp) hnodup }

/-!
# The form of a document
-/

theorem isSorted_report (r : Report) : r.json.IsSorted := by
  have hfinding : ∀ finding : Finding, finding.json.IsSorted := by
    intro finding
    apply isSorted_record
    simp [IsSorted.null, IsSorted.string]
  have hmetrics : r.metrics.json.IsSorted := by
    apply isSorted_record
    simp [IsSorted.int, IsSorted.float]
  have hfindings : (Json.array (r.findings.map Finding.json)).IsSorted := by
    apply IsSorted.array
    simpa using fun finding _ => hfinding finding
  apply isSorted_record
  simp [IsSorted.bool, IsSorted.int, IsSorted.string, hfindings, hmetrics]

theorem isSorted_documentOf (reports : List LabelledReport) (errors : List String) :
    (documentOf reports errors).IsSorted := by
  have hreports : (Json.array (reports.map fun r => .record
      [("source", .string (String.ofList r.label)), ("result", r.report.json)])).IsSorted := by
    apply IsSorted.array
    intro item hitem
    rcases List.mem_map.mp hitem with ⟨labelled, _, rfl⟩
    apply isSorted_record
    simp [IsSorted.string, isSorted_report]
  have herrors : (Json.array (errors.map .string)).IsSorted := by
    apply IsSorted.array
    simpa using fun error _ => IsSorted.string error
  apply isSorted_record
  simp [hreports, herrors]

theorem getLast?_documentOf (reports : List LabelledReport) (errors : List String) :
    (documentOf reports errors).text.getLast? = some '\x7d' := by
  unfold Json.text documentOf record textAt block
  split
  · rfl
  · exact List.getLast?_concat

end SourceAudit
