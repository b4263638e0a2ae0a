import SourceAudit.Proofs.Command.Entries
import SourceAudit.Proofs.Report.Leniency

/-!
# The threshold of a run

## When findings make a run fail

The exit code of a run whose sources are audited depends on the threshold and on the findings, and
on nothing else: neither the form of the output nor a source that cannot be read has a part in it.
A higher threshold is reached by fewer findings, and with the extended allow list there are fewer
findings, so a laxer run never has the greater exit code.
-/

namespace SourceAudit

/-!
# Findings of laxer audits
-/

theorem Report.reaches_iff {r : Report} {threshold : Severity} :
    r.reaches threshold = true ↔
      ∃ finding ∈ r.findings, threshold.rank ≤ finding.severity.rank := by
  unfold reaches
  simp only [List.any_eq_true, decide_eq_true_eq]

theorem Report.reaches_of_sublist {r r' : Report} (h : r.findings.Sublist r'.findings)
    {lower threshold : Severity} (hrank : lower.rank ≤ threshold.rank)
    (hreaches : r.reaches threshold = true) : r'.reaches lower = true := by
  rcases reaches_iff.mp hreaches with ⟨finding, hfinding, hgrave⟩
  exact reaches_iff.mpr ⟨finding, h.subset hfinding, Nat.le_trans hrank hgrave⟩

theorem exists_audit_extended {t : Text} {compact : Report} (h : audit .compat t = .ok compact) :
    ∃ extended, audit .extended t = .ok extended ∧
      extended.findings.Sublist compact.findings := by
  cases hblank : t.isAllBlank with
  | true =>
      unfold audit at h ⊢
      rw [if_pos hblank] at h ⊢
      exact ⟨compact, h, List.Sublist.refl _⟩
  | false =>
      rw [audit_eq_map hblank] at h ⊢
      rcases exists_of_map_eq_ok h with ⟨metrics, hmetrics, rfl⟩
      rw [hmetrics]
      exact ⟨_, rfl, findings_ofMetrics_sublist t metrics⟩

namespace Command

variable {d : Disk} {stdin : Text} {arguments : List String} {settings : Settings}
  {terminal : Terminal}

/-!
# Laxer runs
-/

/-- Whether settings audit less strictly than others: with the same allow list or the extended one,
and with no threshold or one that is at least as high. -/
structure Settings.IsLaxer (lax strict : Settings) : Prop where
  allowList : lax.allowList = strict.allowList ∨
    strict.allowList = some .compat ∧ lax.allowList = some .extended
  failOn : ∀ threshold, lax.failOn = some threshold →
    ∃ lower, strict.failOn = some lower ∧ lower.rank ≤ threshold.rank

/-- Whether a run parses its arguments and does not fail. -/
structure IsAccepted (d : Disk) (stdin : Text) (arguments : List String) (settings : Settings)
    (terminal : Terminal) (outcome : Outcome) : Prop where
  parsed : settingsOf arguments = .ok settings
  runs : run d arguments stdin terminal = .ok outcome
  accepted : outcome.exit ≠ 2

/-- Whether one list of reports has, for each report of another, one with fewer findings. -/
def HaveFewerFindings (reports reports' : List LabelledReport) : Prop :=
  List.Forall₂ (fun lax strict => lax.report.findings.Sublist strict.report.findings)
    reports reports'

theorem HaveFewerFindings.refl (reports : List LabelledReport) :
    HaveFewerFindings reports reports := by
  apply List.forall₂_same.mpr
  intro labelled _
  exact List.Sublist.refl labelled.report.findings

theorem exists_auditAll_extended {sources : List Source} {reports : List LabelledReport}
    (h : auditAll .compat sources = .ok reports) :
    ∃ lax, auditAll .extended sources = .ok lax ∧ HaveFewerFindings lax reports := by
  induction sources generalizing reports with
  | nil =>
      cases h
      exact ⟨[], rfl, List.Forall₂.nil⟩
  | cons source rest ih =>
      unfold auditAll at h ⊢
      cases hcompact : audit .compat source.text with
      | error fault =>
          rw [hcompact] at h
          cases h
      | ok compact =>
          rw [hcompact] at h
          rcases exists_of_map_eq_ok h with ⟨later, hlater, rfl⟩
          rcases exists_audit_extended hcompact with ⟨extended, hextended, hfindings⟩
          rcases ih hlater with ⟨lax, hlax, hfewer⟩
          rw [hextended, hlax]
          exact ⟨_, rfl, List.Forall₂.cons hfindings hfewer⟩

theorem exists_auditAll_of_isLaxer {lax strict : Settings} (h : lax.IsLaxer strict)
    {allowList : AllowList} (hallowList : strict.allowList = some allowList)
    {sources : List Source} {reports : List LabelledReport}
    (haudit : auditAll allowList sources = .ok reports) :
    ∃ allowList' reports', lax.allowList = some allowList' ∧
      auditAll allowList' sources = .ok reports' ∧ HaveFewerFindings reports' reports := by
  rcases h.allowList with hsame | ⟨hcompat, hextended⟩
  · exact ⟨allowList, reports, hsame.trans hallowList, haudit, .refl reports⟩
  · rw [hcompat] at hallowList
    cases hallowList
    rcases exists_auditAll_extended haudit with ⟨reports', haudit', hfewer⟩
    exact ⟨.extended, reports', hextended, haudit', hfewer⟩

/-!
# Exit codes
-/

theorem reachesThreshold_iff {threshold : Option Severity} {reports : List LabelledReport} :
    reachesThreshold threshold reports = true ↔
      ∃ severity, threshold = some severity ∧
        ∃ labelled ∈ reports, labelled.report.reaches severity = true := by
  cases threshold with
  | none =>
      simp [reachesThreshold]
  | some severity =>
      simp [reachesThreshold]

theorem exitCode_eq_one_iff {threshold : Option Severity} {reports : List LabelledReport} :
    exitCode threshold reports = 1 ↔ reachesThreshold threshold reports = true := by
  unfold exitCode
  cases reachesThreshold threshold reports <;> simp

theorem exitCode_le_of_isLaxer {lax strict : Settings} (h : lax.IsLaxer strict)
    {reports reports' : List LabelledReport} (hfewer : HaveFewerFindings reports reports') :
    exitCode lax.failOn reports ≤ exitCode strict.failOn reports' := by
  rcases exitCode_cases lax.failOn reports with hzero | hone
  · rw [hzero]
    exact Nat.zero_le _
  · rcases reachesThreshold_iff.mp (exitCode_eq_one_iff.mp hone) with
      ⟨threshold, hthreshold, labelled, hlabelled, hreaches⟩
    rcases h.failOn threshold hthreshold with ⟨lower, hlower, hrank⟩
    rcases exists_of_forall₂_mem hfewer hlabelled with ⟨strict, hstrict, hfindings⟩
    have hreached := reachesThreshold_iff.mpr
      ⟨lower, hlower, strict, hstrict, Report.reaches_of_sublist hfindings hrank hreaches⟩
    exact Nat.le_of_eq (hone.trans (exitCode_eq_one_iff.mpr hreached).symm)

theorem exit_of_publish {reports : List LabelledReport} {errors : List String}
    {begun outcome : Outcome} (h : publish terminal settings reports errors begun = .ok outcome)
    (hexit : outcome.exit ≠ 2) : outcome.exit = exitCode settings.failOn reports := by
  rcases publish_cases h with ⟨_, _, rfl⟩ | ⟨_, _, _, _, _, rfl⟩
  · rfl
  · exact absurd rfl hexit

/-!
# Runs that do not fail
-/

/-- Whether a run writes its document to the same place as another, or to no file. -/
def Settings.WritesLess (settings' settings : Settings) : Prop :=
  settings'.format = settings.format ∧ settings'.output = settings.output ∨
    settings'.format = .table ∨ settings'.outputFile = none

theorem writeFault?_of_writesLess {settings' : Settings} (h : settings'.WritesLess settings)
    (hfault : writeFault? d settings = none) : writeFault? d settings' = none := by
  unfold writeFault? at hfault ⊢
  rcases h with ⟨hformat, houtput⟩ | htable | hnone
  · have hfile : settings'.outputFile = settings.outputFile := by
      unfold Settings.outputFile
      rw [houtput]
    rw [hformat, hfile]
    exact hfault
  · rw [htable]
  · rw [hnone]
    cases settings'.format <;> rfl

theorem writeFault?_of_publish {reports : List LabelledReport} {errors : List String}
    {begun outcome : Outcome} (h : publish terminal settings reports errors begun = .ok outcome)
    (hexit : outcome.exit ≠ 2) : writeFault? begun.disk settings = none := by
  cases hfault : writeFault? begun.disk settings with
  | none =>
      rfl
  | some fault =>
      rcases fault with ⟨fault, place⟩
      by_cases hnull : fault = .nullCharacter
      · rw [hnull] at hfault
        rw [publish_of_nullCharacter reports errors hfault] at h
        cases h
      · rcases exists_publish_of_fault reports errors hfault hnull with
          ⟨other, hpublish, htwo, _⟩
        rw [h] at hpublish
        cases hpublish
        exact absurd htwo hexit

theorem IsAccepted.exists_reports {outcome : Outcome}
    (h : IsAccepted d stdin arguments settings terminal outcome) :
    ∃ found allowList reports, load d stdin settings.source = .loaded found ∧
      settings.allowList = some allowList ∧ auditAll allowList found.sources = .ok reports ∧
      outcome.exit = exitCode settings.failOn reports ∧ writeFault? d settings = none := by
  have hruns := h.runs
  rw [run_of_settings h.parsed] at hruns
  rcases exists_publish_of_analyze_eq_ok hruns h.accepted with
    ⟨found, allowList, reports, begun, hload, hallowList, haudit, hpublish, rfl, _, _⟩
  exact ⟨found, allowList, reports, hload, hallowList, haudit,
    exit_of_publish hpublish h.accepted, writeFault?_of_publish hpublish h.accepted⟩

theorem exists_isAccepted (hparsed : settingsOf arguments = .ok settings) {found : Loaded}
    (hload : load d stdin settings.source = .loaded found) {allowList : AllowList}
    (hallowList : settings.allowList = some allowList) {reports : List LabelledReport}
    (haudit : auditAll allowList found.sources = .ok reports)
    (hfault : writeFault? d settings = none) (terminal : Terminal) :
    ∃ outcome, IsAccepted d stdin arguments settings terminal outcome ∧
      outcome.exit = exitCode settings.failOn reports := by
  have hanalyze : ∃ begun, analyze d stdin settings terminal =
      publish terminal settings reports found.errors begun ∧ begun.disk = d := by
    unfold analyze
    rw [hload]
    dsimp only
    rw [hallowList]
    dsimp only
    rw [haudit]
    exact ⟨_, rfl, rfl⟩
  rcases hanalyze with ⟨begun, hanalyze, rfl⟩
  rcases publish_of_no_fault reports found.errors hfault with ⟨outcome, hpublish, hcode, _⟩
  have hexit : outcome.exit ≠ 2 := by
    omega
  have hruns : run begun.disk arguments stdin terminal = .ok outcome := by
    rw [run_of_settings hparsed, hanalyze, hpublish]
  exact ⟨outcome, ⟨hparsed, hruns, hexit⟩, exit_of_publish hpublish hexit⟩

/-- A run that does not fail has the exit code 1 if it has a threshold that a finding of some report
reaches, and else 0.  Runs that load the same texts, with the same allow list and threshold, have
the same exit code, in whatever form they report, and whatever they cannot read besides.  A run with
laxer settings does not fail either, and its exit code is no greater. -/
theorem exit_follows_threshold {outcome : Outcome}
    (h : IsAccepted d stdin arguments settings terminal outcome) :
    ∃ found allowList reports, load d stdin settings.source = .loaded found ∧
      settings.allowList = some allowList ∧ auditAll allowList found.sources = .ok reports ∧
      (outcome.exit = 1 ↔ ∃ threshold, settings.failOn = some threshold ∧
        ∃ labelled ∈ reports, ∃ finding ∈ labelled.report.findings,
          threshold.rank ≤ finding.severity.rank) ∧
      (outcome.exit ≠ 1 → outcome.exit = 0) ∧
      (∀ {d' : Disk} {stdin' : Text} {arguments' : List String} {settings' : Settings}
        {terminal' : Terminal} {outcome' : Outcome} {found' : Loaded},
        IsAccepted d' stdin' arguments' settings' terminal' outcome' →
        load d' stdin' settings'.source = .loaded found' → found'.sources = found.sources →
        settings'.allowList = settings.allowList → settings'.failOn = settings.failOn →
        outcome'.exit = outcome.exit) ∧
      (∀ {arguments' : List String} {settings' : Settings} {terminal' : Terminal},
        settingsOf arguments' = .ok settings' → settings'.source = settings.source →
        settings'.WritesLess settings → settings'.IsLaxer settings →
        ∃ outcome', IsAccepted d stdin arguments' settings' terminal' outcome' ∧
          outcome'.exit ≤ outcome.exit) := by
  rcases h.exists_reports with
    ⟨found, allowList, reports, hload, hallowList, haudit, hexit, hfault⟩
  refine ⟨found, allowList, reports, hload, hallowList, haudit, ?_, ?_, ?_, ?_⟩
  · rw [hexit, exitCode_eq_one_iff, reachesThreshold_iff]
    simp only [Report.reaches_iff]
  · intro hne
    rw [hexit] at hne ⊢
    exact (exitCode_cases settings.failOn reports).resolve_right hne
  · intro d' stdin' arguments' settings' terminal' outcome' found' h' hload' hsources hsame hfailOn
    rcases h'.exists_reports with
      ⟨other, allowList', reports', hother, hallowList', haudit', hexit', _⟩
    rw [hload'] at hother
    cases hother
    rw [hsame, hallowList] at hallowList'
    cases hallowList'
    rw [hsources, haudit] at haudit'
    cases haudit'
    rw [hexit', hexit, hfailOn]
  · intro arguments' settings' terminal' hparsed hsource hwrites hlaxer
    rcases exists_auditAll_of_isLaxer hlaxer hallowList haudit with
      ⟨allowList', reports', hallowList', haudit', hfewer⟩
    have hload' : load d stdin settings'.source = .loaded found := by
      rw [hsource]
      exact hload
    rcases exists_isAccepted hparsed hload' hallowList' haudit'
      (writeFault?_of_writesLess hwrites hfault) terminal' with ⟨outcome', haccepted, hexit'⟩
    refine ⟨outcome', haccepted, ?_⟩
    rw [hexit', hexit]
    exact exitCode_le_of_isLaxer hlaxer hfewer

/-- A handler of every exception, which is a finding of the lowest severity and the only one. -/
def bareHandlerText : Text :=
  "try:\n    pass\nexcept:\n    pass".toList

theorem exists_auditAll_bareHandlerText (allowList : AllowList) :
    ∃ report, auditAll allowList [⟨"<stdin>".toList, bareHandlerText⟩] =
        .ok [⟨"<stdin>".toList, report⟩] ∧ report.findings = [.bareHandler] := by
  have hmetrics : ∃ metrics, Metrics.ofText bareHandlerText
      (securityFindings bareHandlerText).length = .ok metrics :=
    ⟨_, rfl⟩
  rcases hmetrics with ⟨metrics, hmetrics⟩
  refine ⟨.ofMetrics allowList bareHandlerText metrics, ?_, ?_⟩
  · unfold auditAll
    rw [audit_eq_map (by decide), hmetrics]
    rfl
  · cases allowList <;> rfl

/-- A run on this text has the exit code 1 with the lowest threshold.  With the extended list and a
higher threshold it has the exit code 0. -/
theorem exit_bareHandlerText :
    ∃ outcome outcome',
      IsAccepted ⟨.empty, []⟩ bareHandlerText ["analyze", "--stdin", "--fail-on", "low"]
        ⟨false, .stdin, .table, none, some .compat, some .low⟩ {} outcome ∧
      IsAccepted ⟨.empty, []⟩ bareHandlerText
        ["analyze", "--stdin", "--fail-on", "high", "--allow-list", "extended"]
        ⟨false, .stdin, .table, none, some .extended, some .high⟩ {} outcome' ∧
      outcome.exit = 1 ∧ outcome'.exit = 0 := by
  rcases exists_auditAll_bareHandlerText .compat with ⟨report, haudit, hfindings⟩
  have haccepted : ∃ outcome,
      IsAccepted ⟨.empty, []⟩ bareHandlerText ["analyze", "--stdin", "--fail-on", "low"]
        ⟨false, .stdin, .table, none, some .compat, some .low⟩ {} outcome ∧
      outcome.exit = exitCode (some .low) [⟨"<stdin>".toList, report⟩] :=
    exists_isAccepted rfl rfl rfl haudit rfl {}
  rcases haccepted with ⟨outcome, haccepted, _⟩
  rcases exit_follows_threshold haccepted with
    ⟨found, allowList, reports, hload, hallowList, hreports, hone, _, _, hlaxer⟩
  cases hload
  cases hallowList
  rw [haudit] at hreports
  cases hreports
  have hexit : outcome.exit = 1 :=
    hone.mpr ⟨.low, rfl, _, List.mem_cons_self, .bareHandler, by simp [hfindings], by decide⟩
  have hparsed : settingsOf ["analyze", "--stdin", "--fail-on", "high", "--allow-list",
      "extended"] = .ok ⟨false, .stdin, .table, none, some .extended, some .high⟩ :=
    rfl
  have hthreshold : ∀ threshold, some Severity.high = some threshold →
      ∃ lower, some Severity.low = some lower ∧ lower.rank ≤ threshold.rank := by
    intro threshold hsome
    cases hsome
    exact ⟨.low, rfl, by decide⟩
  rcases hlaxer hparsed rfl (Or.inl ⟨rfl, rfl⟩) ⟨Or.inr ⟨rfl, rfl⟩, hthreshold⟩ with
    ⟨outcome', haccepted', _⟩
  refine ⟨outcome, outcome', haccepted, haccepted', hexit, ?_⟩
  rcases exists_auditAll_bareHandlerText .extended with ⟨report', haudit', hfindings'⟩
  rcases haccepted'.exists_reports with
    ⟨found', allowList', reports', hload', hallowList', hreports', hexit', _⟩
  cases hload'
  cases hallowList'
  rw [haudit'] at hreports'
  cases hreports'
  rw [hexit']
  unfold exitCode reachesThreshold Report.reaches
  simp [hfindings', Severity.rank, Finding.severity]

end Command
end SourceAudit
