import Mathlib.Data.List.Nodup
import SourceAudit.Output.ReportJson
import SourceAudit.Proofs.Report.Leniency

/-!
# Consistent reports

## What the parts of a report say about each other

The findings of a report come pass by pass: at most one about the form of the text, those about
names, at most two about habits and at most four about security.  Verdict, flags, confidence and
security score say the same as these findings, also in the report on a text of blanks.
-/

namespace SourceAudit

/-!
# Findings of the passes
-/

section Passes

variable {rules : List (Pattern × Finding)} {t : Text} {finding : Finding}

theorem kind_of_mem_ruleFindings {kind : Kind} (h : ∀ rule ∈ rules, rule.2.kind = kind)
    (hfinding : finding ∈ ruleFindings rules t) : finding.kind = kind := by
  rcases List.mem_map.mp hfinding with ⟨rule, hrule, rfl⟩
  exact h rule (List.mem_filter.mp hrule).1

theorem length_ruleFindings_le (rules : List (Pattern × Finding)) (t : Text) :
    (ruleFindings rules t).length ≤ rules.length := by
  unfold ruleFindings
  rw [List.length_map]
  exact List.length_filter_le _ _

theorem kind_of_mem_formFindings {valid : Bool} (h : finding ∈ formFindings valid) :
    finding.kind = .form := by
  cases valid with
  | true =>
      cases h
  | false =>
      rw [List.mem_singleton.mp h]
      rfl

theorem kind_of_mem_practiceFindings (h : finding ∈ practiceFindings t) :
    finding.kind = .practice := by
  refine kind_of_mem_ruleFindings ?_ h
  intro rule hrule
  simp only [Practice.rules, List.mem_cons, List.not_mem_nil, or_false] at hrule
  rcases hrule with rfl | rfl <;> rfl

theorem kind_of_mem_securityFindings (h : finding ∈ securityFindings t) :
    finding.kind = .security := by
  refine kind_of_mem_ruleFindings ?_ h
  intro rule hrule
  rcases List.mem_cons.mp hrule with rfl | hrule
  · rfl
  · rcases List.mem_map.mp hrule with ⟨label, _, rfl⟩
    rfl

end Passes

/-!
# Members of a report
-/

def Json.HasMember : Json → String → Json → Prop
  | object members, label, value => (label, value) ∈ members
  | _, _, _ => False

theorem Json.hasMember_record {members : List (String × Json)} {label : String} {value : Json} :
    (record members).HasMember label value ↔ (label, value) ∈ members := by
  unfold record
  exact List.mem_mergeSort

/-- Whether a JSON object has a member of the given name with this value only. -/
def Json.HasOnly (v : Json) (label : String) (value : Json) : Prop :=
  ∀ other, v.HasMember label other ↔ other = value

theorem Json.hasOnly_record {members : List (String × Json)} {label : String} {value : Json}
    (hmem : (label, value) ∈ members) (hnodup : (members.map Prod.fst).Nodup) :
    (record members).HasOnly label value := by
  intro other
  rw [hasMember_record]
  constructor
  · intro hother
    exact (Prod.mk.inj (List.inj_on_of_nodup_map hnodup hother hmem rfl)).2
  · rintro rfl
    exact hmem

/-- Whether a report shows its verdict under a name, and nothing else under this name. -/
def Report.ShowsVerdict (r : Report) (label : String) : Prop :=
  r.json.HasOnly label (.bool r.valid)

theorem Report.showsVerdict_is_valid (r : Report) : r.ShowsVerdict "is_valid" :=
  Json.hasOnly_record (by simp) (by simp)

theorem Report.showsVerdict_syntax_validity {r : Report} (h : r.formValid = r.valid) :
    r.ShowsVerdict "syntax_validity" :=
  Json.hasOnly_record (by simp [h]) (by simp)

/-- Whether the parts of a report agree with its findings. -/
structure Report.IsConsistent (r : Report) : Prop where
  verdicts : r.ShowsVerdict "is_valid" ∧ r.ShowsVerdict "syntax_validity"
  valid_iff : r.valid = false ↔ ∃ finding ∈ r.findings, finding.kind = .form
  form_first : ∀ finding ∈ r.findings, finding.kind = .form →
    finding.severity = .critical ∧
      ∃ others, r.findings = finding :: others ∧ ∀ other ∈ others, other.kind ≠ .form
  /-- The findings come pass by pass, and some passes make only so many. -/
  passes : ∃ form names practice security,
    r.findings = form ++ names ++ practice ++ security ∧
    ((∀ finding ∈ form, finding.kind = .form) ∧ form.length ≤ 1) ∧
    (∀ finding ∈ names, finding.kind = .meaning) ∧
    ((∀ finding ∈ practice, finding.kind = .practice) ∧ practice.length ≤ 2) ∧
    (∀ finding ∈ security, finding.kind = .security) ∧ security.length ≤ 4
  formValid_eq : r.formValid = r.valid
  hasBug_iff : r.hasBug = true ↔ r.findings ≠ []
  namesValid_iff : r.namesValid = true ↔ ∀ finding ∈ r.findings, finding.kind ≠ .meaning
  confidence_eq : r.confidence = max 0 (100 - 10 * r.findings.length)
  securityScore_eq : r.metrics.securityScore =
    100 - 20 * (r.findings.countP fun finding => finding.kind = .security : Nat)
  securityScore_bounds : 20 ≤ r.metrics.securityScore ∧ r.metrics.securityScore ≤ 100

namespace Report

/-!
# Reports made of passes
-/

/-- The findings of the passes that a report is made of, and what it takes from them. -/
structure IsMadeOf (r : Report) (names practice security : List Finding) : Prop where
  formValid_eq : r.formValid = r.valid
  hasBug_eq : r.hasBug = (!r.valid || !r.findings.isEmpty)
  confidence_eq : r.confidence = confidenceOf r.findings.length
  findings_eq : r.findings = formFindings r.valid ++ names ++ practice ++ security
  names_kind : ∀ finding ∈ names, finding.kind = .meaning
  practice_kind : ∀ finding ∈ practice, finding.kind = .practice
  practice_length : practice.length ≤ 2
  security_kind : ∀ finding ∈ security, finding.kind = .security
  security_length : security.length ≤ 4
  namesValid_eq : r.namesValid = names.isEmpty
  securityScore_eq : r.metrics.securityScore = 100 - 20 * security.length

namespace IsMadeOf

variable {r : Report} {names practice security : List Finding}

theorem mem_findings_iff (h : r.IsMadeOf names practice security) {finding : Finding} :
    finding ∈ r.findings ↔
      finding ∈ formFindings r.valid ∨ finding ∈ names ∨ finding ∈ practice ∨
        finding ∈ security := by
  rw [h.findings_eq]
  simp only [List.mem_append, or_assoc]

theorem kind_ne_form (h : r.IsMadeOf names practice security) {finding : Finding}
    (hfinding : finding ∈ names ∨ finding ∈ practice ∨ finding ∈ security) :
    finding.kind ≠ .form := by
  rcases hfinding with hnames | hpractice | hsecurity
  · rw [h.names_kind finding hnames]
    decide
  · rw [h.practice_kind finding hpractice]
    decide
  · rw [h.security_kind finding hsecurity]
    decide

theorem valid_iff (h : r.IsMadeOf names practice security) :
    r.valid = false ↔ ∃ finding ∈ r.findings, finding.kind = .form := by
  constructor
  · intro hinvalid
    refine ⟨.malformed, h.mem_findings_iff.mpr (Or.inl ?_), rfl⟩
    rw [hinvalid]
    exact List.mem_singleton.mpr rfl
  · intro hform
    rcases hform with ⟨finding, hmem, hkind⟩
    rcases h.mem_findings_iff.mp hmem with hfirst | hother
    · cases hvalid : r.valid with
      | true =>
          rw [hvalid] at hfirst
          cases hfirst
      | false =>
          rfl
    · exact absurd hkind (h.kind_ne_form hother)

theorem form_first (h : r.IsMadeOf names practice security) {finding : Finding}
    (hmem : finding ∈ r.findings) (hkind : finding.kind = .form) :
    finding.severity = .critical ∧
      ∃ others, r.findings = finding :: others ∧ ∀ other ∈ others, other.kind ≠ .form := by
  have hinvalid := h.valid_iff.mpr ⟨finding, hmem, hkind⟩
  have hfindings := h.findings_eq
  rw [hinvalid] at hfindings
  rcases h.mem_findings_iff.mp hmem with hfirst | hother
  · rw [hinvalid] at hfirst
    rw [List.mem_singleton.mp hfirst]
    refine ⟨rfl, names ++ practice ++ security, hfindings, ?_⟩
    intro other hother
    simp only [List.mem_append, or_assoc] at hother
    exact h.kind_ne_form hother
  · exact absurd hkind (h.kind_ne_form hother)

theorem hasBug_iff (h : r.IsMadeOf names practice security) :
    r.hasBug = true ↔ r.findings ≠ [] := by
  have hmalformed : r.valid = false → r.findings ≠ [] := by
    intro hinvalid
    rcases h.valid_iff.mp hinvalid with ⟨finding, hmem, _⟩
    exact List.ne_nil_of_mem hmem
  rw [h.hasBug_eq, Bool.or_eq_true, Bool.not_eq_true', Bool.not_eq_true', List.isEmpty_eq_false_iff]
  constructor
  · intro hbug
    exact hbug.elim hmalformed id
  · intro hfindings
    exact Or.inr hfindings

theorem namesValid_iff (h : r.IsMadeOf names practice security) :
    r.namesValid = true ↔ ∀ finding ∈ r.findings, finding.kind ≠ .meaning := by
  rw [h.namesValid_eq, List.isEmpty_iff]
  constructor
  · intro hnone finding hmem
    rcases h.mem_findings_iff.mp hmem with hform | hnames | hpractice | hsecurity
    · rw [kind_of_mem_formFindings hform]
      decide
    · rw [hnone] at hnames
      cases hnames
    · rw [h.practice_kind finding hpractice]
      decide
    · rw [h.security_kind finding hsecurity]
      decide
  · intro hnone
    apply List.eq_nil_iff_forall_not_mem.mpr
    intro finding hnames
    exact hnone finding (h.mem_findings_iff.mpr (Or.inr (Or.inl hnames)))
      (h.names_kind finding hnames)

theorem countP_security (h : r.IsMadeOf names practice security) :
    (r.findings.countP fun finding => finding.kind = .security) = security.length := by
  have hnone : ∀ {part : List Finding} {kind : Kind}, kind ≠ .security →
      (∀ finding ∈ part, finding.kind = kind) →
      (part.countP fun finding => finding.kind = .security) = 0 := by
    intro part kind hne hpart
    apply List.countP_eq_zero.mpr
    intro finding hfinding
    simpa [hpart finding hfinding] using hne
  have hall : (security.countP fun finding => finding.kind = .security) = security.length := by
    apply List.countP_eq_length.mpr
    intro finding hfinding
    simp [h.security_kind finding hfinding]
  rw [h.findings_eq, List.countP_append, List.countP_append, List.countP_append,
    hnone (by decide) (fun _ => kind_of_mem_formFindings), hnone (by decide) h.names_kind,
    hnone (by decide) h.practice_kind, hall]
  omega

theorem isConsistent (h : r.IsMadeOf names practice security) : r.IsConsistent where
  verdicts := ⟨r.showsVerdict_is_valid, showsVerdict_syntax_validity h.formValid_eq⟩
  valid_iff := h.valid_iff
  form_first := fun _ => h.form_first
  passes := by
    refine ⟨formFindings r.valid, names, practice, security, h.findings_eq,
      ⟨fun _ => kind_of_mem_formFindings, ?_⟩, h.names_kind, ⟨h.practice_kind, h.practice_length⟩,
      h.security_kind, h.security_length⟩
    cases r.valid <;> decide
  formValid_eq := h.formValid_eq
  hasBug_iff := h.hasBug_iff
  namesValid_iff := h.namesValid_iff
  confidence_eq := by
    rw [h.confidence_eq]
    unfold confidenceOf confidencePenalty
    omega
  securityScore_eq := by
    rw [h.countP_security]
    exact h.securityScore_eq
  securityScore_bounds := by
    rw [h.securityScore_eq]
    have hlength := h.security_length
    omega

end IsMadeOf

theorem confidenceOf_zero : confidenceOf 0 = 100 := by
  decide

theorem isMadeOf_blank : blank.IsMadeOf [] [] [] := by
  constructor <;> simp [blank, formFindings, confidenceOf_zero, Metrics.blank]

theorem isMadeOf_ofMetrics {allowList : AllowList} {t : Text} {metrics : Metrics}
    (h : Metrics.ofText t (securityFindings t).length = .ok metrics) :
    (ofMetrics allowList t metrics).IsMadeOf (nameFindings allowList t) (practiceFindings t)
      (securityFindings t) where
  formValid_eq := rfl
  hasBug_eq := rfl
  confidence_eq := rfl
  findings_eq := rfl
  names_kind := fun _ => kind_of_mem_nameFindings
  practice_kind := fun _ => kind_of_mem_practiceFindings
  practice_length := length_ruleFindings_le Practice.rules t
  security_kind := fun _ => kind_of_mem_securityFindings
  security_length := length_ruleFindings_le Security.rules t
  namesValid_eq := rfl
  securityScore_eq := by
    rcases exists_of_map_eq_ok h with ⟨index, _, rfl⟩
    show (100 : Int) - (securityFindings t).length * 20 = _
    rw [Int.mul_comm]

end Report

/-- Every text has a consistent report, unless it has too many decisions for any. -/
theorem exists_consistent_audit (allowList : AllowList) (t : Text) :
    (∃ report, audit allowList t = .ok report ∧ report.IsConsistent) ∨
    (HasTooManyDecisions t ∧ audit allowList t = .error .tooLarge) := by
  cases hblank : t.isAllBlank with
  | true =>
      left
      refine ⟨.blank, ?_, Report.isMadeOf_blank.isConsistent⟩
      unfold audit
      rw [if_pos hblank]
  | false =>
      cases hmetrics : Metrics.ofText t (securityFindings t).length with
      | error fault =>
          right
          have haudit : audit allowList t = .error fault := by
            rw [audit_eq_map hblank, hmetrics]
            rfl
          rcases audit_eq_error_iff.mp haudit with ⟨rfl, hmany⟩
          exact ⟨hmany, haudit⟩
      | ok metrics =>
          left
          refine ⟨.ofMetrics allowList t metrics, ?_,
            (Report.isMadeOf_ofMetrics hmetrics).isConsistent⟩
          rw [audit_eq_map hblank, hmetrics]
          rfl

end SourceAudit
