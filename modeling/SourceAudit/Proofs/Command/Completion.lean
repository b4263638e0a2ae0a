import SourceAudit.Command.Run
import SourceAudit.Proofs.Command.Loading
import SourceAudit.Proofs.Report.Range

/-!
# How a run ends

## Exit codes and exceptions

A run that ends has the exit code 0, 1 or 2, and the code 2 stands exactly for the failures that the
command reports.  There are five ways in which what a run is given makes it not end but be left by an
exception.  Each of them is named here, and what a run is given does so in no other way.

What the machine does to a run is left out.  It is assumed that folders are not nested so deeply that
a search runs out of stack, that names and labels are Unicode texts without lone surrogates, and that
both output streams take what is written to them.
-/

namespace SourceAudit
namespace Command

variable {d : Disk} {stdin : Text} {arguments : List String} {settings : Settings}
  {terminal : Terminal}

/-!
# Reports
-/

theorem auditAll_eq_error_iff {allowList : AllowList} {sources : List Source}
    {fault : RangeFault} :
    auditAll allowList sources = .error fault ↔
      IsFirstFault (fun source => audit allowList source.text) sources fault := by
  apply eq_error_iff_isFirstFault
  · intro fault h
    cases h
  · intro source rest fault
    rw [auditAll]
    cases audit allowList source.text with
    | error other =>
        simp
    | ok report =>
        simp [map_eq_error_iff]

/-- Reports can be made of all texts unless one of them has too many decisions. -/
theorem auditAll_eq_error_iff_exists {allowList : AllowList} {sources : List Source}
    {fault : RangeFault} :
    auditAll allowList sources = .error fault ↔
      fault = .tooLarge ∧ ∃ source ∈ sources, HasTooManyDecisions source.text := by
  constructor
  · intro h
    rcases auditAll_eq_error_iff.mp h with ⟨front, source, back, rfl, _, hfault⟩
    rcases audit_eq_error_iff.mp hfault with ⟨rfl, hmany⟩
    exact ⟨rfl, source, by simp, hmany⟩
  · intro h
    rcases h with ⟨rfl, source, hsource, hmany⟩
    have hexists : ∃ first,
        IsFirstFault (fun source : Source => audit allowList source.text) sources first :=
      exists_isFirstFault hsource (audit_eq_error_iff.mpr ⟨rfl, hmany⟩)
    rcases hexists with ⟨first, hfirst⟩
    have hall := auditAll_eq_error_iff.mpr hfirst
    rcases hfirst with ⟨_, _, _, _, _, hfault⟩
    rw [(audit_eq_error_iff.mp hfault).1] at hall
    exact hall

theorem exitCode_cases (threshold : Option Severity) (reports : List LabelledReport) :
    exitCode threshold reports = 0 ∨ exitCode threshold reports = 1 := by
  unfold exitCode
  cases reachesThreshold threshold reports with
  | false =>
      exact Or.inl rfl
  | true =>
      exact Or.inr rfl

theorem exists_append_errorLines {errors : List String} {error : String} (h : error ∈ errors) :
    ∃ before after, errorLines errors =
      before ++ ("read_error: " ++ error ++ "\n").toList ++ after := by
  rcases List.append_of_mem h with ⟨front, back, rfl⟩
  refine ⟨errorLines front, errorLines back, ?_⟩
  unfold errorLines
  rw [List.flatMap_append, List.flatMap_cons, List.append_assoc]

/-!
# Ways to end
-/

/-- Whether the sources of a run are loaded and reports can be made of all of them. -/
structure IsAudited (d : Disk) (stdin : Text) (settings : Settings) (found : Loaded) : Prop where
  loads : load d stdin settings.source = .loaded found
  hasAllowList : settings.allowList ≠ none
  inRange : ∀ source ∈ found.sources, ¬HasTooManyDecisions source.text

/-- The ways in which a run is left by an exception. -/
inductive Escapes (d : Disk) (stdin : Text) (arguments : List String) : Escape → Prop where
  | noPath {settings : Settings} : settingsOf arguments = .ok settings →
      settings.source = .path none → Escapes d stdin arguments .noPath
  | badRange {settings : Settings} {given : String} {range : Glob.BadRange} :
      settingsOf arguments = .ok settings → settings.source = .path (some given) →
      HasBackwardRange d (.ofText given.toList) range →
      Escapes d stdin arguments (.badRange (.badRange range))
  | noAllowList {settings : Settings} {found : Loaded} : settingsOf arguments = .ok settings →
      load d stdin settings.source = .loaded found → settings.allowList = none →
      Escapes d stdin arguments .noAllowList
  | range {settings : Settings} {found : Loaded} {source : Source} :
      settingsOf arguments = .ok settings → load d stdin settings.source = .loaded found →
      settings.allowList ≠ none → source ∈ found.sources → HasTooManyDecisions source.text →
      Escapes d stdin arguments (.range .tooLarge)
  /-- The path of the file for the document holds a null character, and nothing else keeps the
  folders around it from being made. -/
  | nullCharacter {settings : Settings} {found : Loaded} {given : String} :
      settingsOf arguments = .ok settings → IsAudited d stdin settings found →
      settings.format = .json → settings.outputFile = some given →
      (Path.ofText given.toList).holdsNull = true →
      ((Path.ofText given.toList).parent.holdsNull = true ∨
        (d.ensureFolders (Path.ofText given.toList).parent).2 = none) →
      Escapes d stdin arguments .nullCharacter

/-- The fault of writing the document of a run to its file, if it has one and cannot write it. -/
def writeFault? (d : Disk) (settings : Settings) : Option Disk.PathFault :=
  match settings.format, settings.outputFile with
  | .json, some given => (d.publish (.ofText given.toList) []).2
  | _, _ => none

/-- The failures that a run reports. -/
inductive Fails (d : Disk) (stdin : Text) (arguments : List String) : Prop where
  | usage {stopped : Stopped} : settingsOf arguments = .error stopped → Fails d stdin arguments
  | sources {settings : Settings} {given : String} : settingsOf arguments = .ok settings →
      settings.source = .path (some given) → CannotLoad d (.ofText given.toList) →
      Fails d stdin arguments
  | output {settings : Settings} {found : Loaded} {fault : FileFault} {place : Path} :
      settingsOf arguments = .ok settings → IsAudited d stdin settings found →
      writeFault? d settings = some (fault, place) → fault ≠ .nullCharacter →
      Fails d stdin arguments

/-- Whether a source of the folder that is audited cannot be read. -/
structure IsUnreadableSource (d : Disk) (arguments : List String) (p : Path)
    (fault : ReadFault) : Prop where
  inFolder : ∃ settings given found rules survey names,
    settingsOf arguments = .ok settings ∧ settings.source = .path (some given) ∧
    d.folder? (.ofText given.toList) = .ok (some found) ∧
    IgnoreRules.load d (.ofText given.toList) = .ok rules ∧
    discover d rules (.ofText given.toList) = .ok survey ∧ names ∈ survey.files ∧
    p = (Path.ofText given.toList).below names
  unreadable : d.readText p = .error fault

/-!
# Writing the document
-/

theorem exists_writeFault?_eq_nullCharacter_iff :
    (∃ place, writeFault? d settings = some (.nullCharacter, place)) ↔
      ∃ given, settings.format = .json ∧ settings.outputFile = some given ∧
        (Path.ofText given.toList).holdsNull = true ∧
        ((Path.ofText given.toList).parent.holdsNull = true ∨
          (d.ensureFolders (Path.ofText given.toList).parent).2 = none) := by
  unfold writeFault?
  cases settings.format with
  | table =>
      simp
  | json =>
      cases settings.outputFile with
      | none =>
          simp
      | some given =>
          simp [Disk.publish_nullCharacter_iff]

section Publish

variable {begun : Outcome} (reports : List LabelledReport) (errors : List String)

variable {reports errors} in
theorem publish_cases {outcome : Outcome}
    (h : publish terminal settings reports errors begun = .ok outcome) :
    (∃ stdout disk, outcome =
      { begun with exit := exitCode settings.failOn reports, stdout := stdout, disk := disk }) ∨
      ∃ given document disk fault,
        begun.disk.publish (.ofText given.toList) document = (disk, some fault) ∧
          outcome = unwritten begun given disk fault := by
  unfold publish at h
  split at h
  · cases h
    exact Or.inl ⟨_, _, rfl⟩
  · split at h
    · cases h
      exact Or.inl ⟨_, _, rfl⟩
    · unfold writeDocument at h
      split at h
      · cases h
        exact Or.inl ⟨_, _, rfl⟩
      · cases h
      · rename_i hpublish
        cases h
        exact Or.inr ⟨_, _, _, _, hpublish, rfl⟩

theorem publish_of_no_fault (h : writeFault? begun.disk settings = none) :
    ∃ outcome, publish terminal settings reports errors begun = .ok outcome ∧
      (outcome.exit = 0 ∨ outcome.exit = 1) ∧ outcome.stderr = begun.stderr := by
  have hcode := exitCode_cases settings.failOn reports
  unfold writeFault? at h
  unfold publish
  cases hformat : settings.format with
  | table =>
      exact ⟨_, rfl, hcode, rfl⟩
  | json =>
      cases hfile : settings.outputFile with
      | none =>
          exact ⟨_, rfl, hcode, rfl⟩
      | some given =>
          rw [hformat, hfile] at h
          dsimp only at h ⊢
          rw [← Disk.publish_snd (asciiBytes (documentOf reports errors).text)] at h
          unfold writeDocument
          rcases hpublish : begun.disk.publish (.ofText given.toList)
            (asciiBytes (documentOf reports errors).text) with ⟨disk, _ | fault⟩
          · exact ⟨_, rfl, hcode, rfl⟩
          · rw [hpublish] at h
            cases h

theorem exists_publish_eq_of_fault {fault : Disk.PathFault}
    (h : writeFault? begun.disk settings = some fault) :
    ∃ given disk, publish terminal settings reports errors begun =
      match fault with
      | (.nullCharacter, _) => .error .nullCharacter
      | other => .ok (unwritten begun given disk other) := by
  unfold writeFault? at h
  split at h
  · rename_i given hformat hfile
    rw [← Disk.publish_snd (asciiBytes (documentOf reports errors).text)] at h
    unfold publish
    rw [hformat, hfile]
    dsimp only
    unfold writeDocument
    rcases hpublish : begun.disk.publish (.ofText given.toList)
      (asciiBytes (documentOf reports errors).text) with ⟨disk, _ | other⟩
    · rw [hpublish] at h
      cases h
    · rw [hpublish] at h
      cases h
      refine ⟨given, disk, ?_⟩
      rcases fault with ⟨fault, place⟩
      cases fault <;> rfl
  · cases h

theorem publish_of_nullCharacter {place : Path}
    (h : writeFault? begun.disk settings = some (.nullCharacter, place)) :
    publish terminal settings reports errors begun = .error .nullCharacter := by
  rcases exists_publish_eq_of_fault reports errors h with ⟨_, _, hpublish⟩
  exact hpublish

theorem exists_publish_of_fault {fault : FileFault} {place : Path}
    (h : writeFault? begun.disk settings = some (fault, place)) (hne : fault ≠ .nullCharacter) :
    ∃ outcome, publish terminal settings reports errors begun = .ok outcome ∧ outcome.exit = 2 ∧
      ∃ more, outcome.stderr = begun.stderr ++ more := by
  rcases exists_publish_eq_of_fault reports errors h with ⟨given, disk, hpublish⟩
  rw [hpublish]
  refine ⟨unwritten begun given disk (fault, place), ?_, rfl, _, rfl⟩
  cases fault <;> first | rfl | exact absurd rfl hne

theorem exists_stderr_publish {outcome : Outcome}
    (h : publish terminal settings reports errors begun = .ok outcome) :
    ∃ more, outcome.stderr = begun.stderr ++ more := by
  rcases publish_cases h with ⟨_, _, rfl⟩ | ⟨_, _, _, _, _, rfl⟩
  · exact ⟨[], (List.append_nil _).symm⟩
  · exact ⟨_, rfl⟩

end Publish

/-!
# The run
-/

theorem run_of_settings (h : settingsOf arguments = .ok settings) :
    run d arguments stdin terminal = analyze d stdin settings terminal := by
  unfold run
  rw [h]

theorem analyze_cases {outcome : Outcome} (h : analyze d stdin settings terminal = .ok outcome) :
    (∃ failure, load d stdin settings.source = .failed failure ∧
      outcome = { Outcome.start d settings.verbose with
        exit := 2
        stderr := failure.told.toList
        logs := failure.logs }) ∨
      ∃ found allowList reports, load d stdin settings.source = .loaded found ∧
        settings.allowList = some allowList ∧ auditAll allowList found.sources = .ok reports ∧
        publish terminal settings reports found.errors
          { Outcome.start d settings.verbose with
            stderr := errorLines found.errors
            logs := found.logs ++ [auditEntry reports found.errors] } = .ok outcome := by
  unfold analyze at h
  split at h
  · cases h
  · rename_i failure hfailure
    cases h
    exact Or.inl ⟨failure, hfailure, rfl⟩
  · rename_i found hfound
    split at h
    · cases h
    · rename_i allowList hallowList
      split at h
      · cases h
      · rename_i reports hreports
        exact Or.inr ⟨found, allowList, reports, hfound, hallowList, hreports, h⟩

theorem exists_analyze_eq_publish {found : Loaded} (h : IsAudited d stdin settings found) :
    ∃ reports begun, (∀ terminal, analyze d stdin settings terminal =
        publish terminal settings reports found.errors begun) ∧ begun.disk = d ∧
      begun.stderr = errorLines found.errors := by
  unfold analyze
  rw [h.loads]
  dsimp only
  cases hallowList : settings.allowList with
  | none =>
      exact absurd hallowList h.hasAllowList
  | some allowList =>
      dsimp only
      cases haudit : auditAll allowList found.sources with
      | error fault =>
          rcases auditAll_eq_error_iff_exists.mp haudit with ⟨_, source, hsource, hmany⟩
          exact absurd hmany (h.inRange source hsource)
      | ok reports =>
          exact ⟨reports, _, fun _ => rfl, rfl, rfl⟩

theorem analyze_of_escaped {escape : Escape} (h : load d stdin settings.source = .escaped escape) :
    analyze d stdin settings terminal = .error escape := by
  unfold analyze
  rw [h]

theorem exists_analyze_of_failed {failure : LoadFailure}
    (h : load d stdin settings.source = .failed failure) :
    ∃ outcome, analyze d stdin settings terminal = .ok outcome ∧ outcome.exit = 2 := by
  unfold analyze
  rw [h]
  exact ⟨_, rfl, rfl⟩

theorem analyze_of_no_allowList {found : Loaded}
    (h : load d stdin settings.source = .loaded found) (hnone : settings.allowList = none) :
    analyze d stdin settings terminal = .error .noAllowList := by
  unfold analyze
  rw [h]
  dsimp only
  rw [hnone]

theorem analyze_of_decisions {found : Loaded} {source : Source}
    (h : load d stdin settings.source = .loaded found) (hallowList : settings.allowList ≠ none)
    (hsource : source ∈ found.sources) (hmany : HasTooManyDecisions source.text) :
    analyze d stdin settings terminal = .error (.range .tooLarge) := by
  unfold analyze
  rw [h]
  dsimp only
  cases hsome : settings.allowList with
  | none =>
      exact absurd hsome hallowList
  | some allowList =>
      dsimp only
      rw [auditAll_eq_error_iff_exists.mpr ⟨rfl, source, hsource, hmany⟩]

theorem isAudited_or_not {found : Loaded} (h : load d stdin settings.source = .loaded found) :
    settings.allowList = none ∨
      (settings.allowList ≠ none ∧ ∃ source ∈ found.sources, HasTooManyDecisions source.text) ∨
      IsAudited d stdin settings found := by
  by_cases hallowList : settings.allowList = none
  · exact Or.inl hallowList
  · by_cases hmany : ∃ source ∈ found.sources, HasTooManyDecisions source.text
    · exact Or.inr (Or.inl ⟨hallowList, hmany⟩)
    · refine Or.inr (Or.inr ⟨h, hallowList, ?_⟩)
      intro source hsource hdecisions
      exact hmany ⟨source, hsource, hdecisions⟩

theorem run_of_escapes {escape : Escape} (h : Escapes d stdin arguments escape) :
    run d arguments stdin terminal = .error escape := by
  cases h with
  | noPath hsettings hsource =>
      rw [run_of_settings hsettings]
      exact analyze_of_escaped (load_eq_escaped_iff.mpr (Or.inl ⟨hsource, rfl⟩))
  | badRange hsettings hsource hrange =>
      rw [run_of_settings hsettings]
      exact analyze_of_escaped (load_eq_escaped_iff.mpr (Or.inr ⟨_, _, hsource, rfl, hrange⟩))
  | noAllowList hsettings hload hnone =>
      rw [run_of_settings hsettings]
      exact analyze_of_no_allowList hload hnone
  | range hsettings hload hallowList hsource hmany =>
      rw [run_of_settings hsettings]
      exact analyze_of_decisions hload hallowList hsource hmany
  | nullCharacter hsettings haudited hformat hfile hnull hparent =>
      rw [run_of_settings hsettings]
      rcases exists_analyze_eq_publish haudited with ⟨reports, begun, hanalyze, rfl, _⟩
      rcases exists_writeFault?_eq_nullCharacter_iff.mpr
        ⟨_, hformat, hfile, hnull, hparent⟩ with ⟨place, hfault⟩
      rw [hanalyze]
      exact publish_of_nullCharacter _ _ hfault

theorem run_of_fails (h : Fails d stdin arguments) :
    ∃ outcome, run d arguments stdin terminal = .ok outcome ∧ outcome.exit = 2 := by
  cases h with
  | usage hsettings =>
      rename_i stopped
      refine ⟨stop d arguments stopped, ?_, ?_⟩
      · unfold run
        rw [hsettings]
      · cases stopped <;> rfl
  | sources hsettings hsource hcannot =>
      rw [run_of_settings hsettings]
      rcases exists_load_eq_failed_iff.mpr ⟨_, hsource, hcannot⟩ with ⟨failure, hload⟩
      exact exists_analyze_of_failed hload
  | output hsettings haudited hfault hnull =>
      rw [run_of_settings hsettings]
      rcases exists_analyze_eq_publish haudited with ⟨reports, begun, hanalyze, rfl, _⟩
      rw [hanalyze]
      rcases exists_publish_of_fault _ _ hfault hnull with ⟨outcome, hpublish, hexit, _⟩
      exact ⟨outcome, hpublish, hexit⟩

theorem run_cases (d : Disk) (arguments : List String) (stdin : Text) (terminal : Terminal) :
    (∃ escape, Escapes d stdin arguments escape) ∨ Fails d stdin arguments ∨
      ∃ outcome, run d arguments stdin terminal = .ok outcome ∧
        (outcome.exit = 0 ∨ outcome.exit = 1) := by
  cases hsettings : settingsOf arguments with
  | error stopped =>
      exact Or.inr (Or.inl (.usage hsettings))
  | ok settings =>
      cases hload : load d stdin settings.source with
      | escaped escape =>
          left
          rcases load_eq_escaped_iff.mp hload with ⟨hsource, _⟩ | ⟨given, range, hsource, _, hrange⟩
          · exact ⟨_, .noPath hsettings hsource⟩
          · exact ⟨_, .badRange hsettings hsource hrange⟩
      | failed failure =>
          rcases exists_load_eq_failed_iff.mp ⟨failure, hload⟩ with ⟨given, hsource, hcannot⟩
          exact Or.inr (Or.inl (.sources hsettings hsource hcannot))
      | loaded found =>
          rcases isAudited_or_not hload with hnone | ⟨hallowList, source, hsource, hmany⟩ | haudited
          · exact Or.inl ⟨_, .noAllowList hsettings hload hnone⟩
          · exact Or.inl ⟨_, .range hsettings hload hallowList hsource hmany⟩
          · cases hfault : writeFault? d settings with
            | none =>
                right
                right
                rcases exists_analyze_eq_publish haudited with
                  ⟨reports, begun, hanalyze, rfl, _⟩
                rw [run_of_settings hsettings, hanalyze]
                rcases publish_of_no_fault _ _ hfault with ⟨outcome, hpublish, hexit, _⟩
                exact ⟨outcome, hpublish, hexit⟩
            | some fault =>
                rcases fault with ⟨fault, place⟩
                by_cases hnull : fault = .nullCharacter
                · left
                  rw [hnull] at hfault
                  rcases exists_writeFault?_eq_nullCharacter_iff.mp ⟨place, hfault⟩ with
                    ⟨given, hformat, hfile, hholds, hparent⟩
                  exact ⟨_, .nullCharacter hsettings haudited hformat hfile hholds hparent⟩
                · exact Or.inr (Or.inl (.output hsettings haudited hfault hnull))

theorem exists_line_of_unreadable {p : Path} {fault : ReadFault} {outcome : Outcome}
    (h : IsUnreadableSource d arguments p fault)
    (hrun : run d arguments stdin terminal = .ok outcome) :
    ∃ before after, outcome.stderr =
      before ++ ("read_error: " ++ readError p fault ++ "\n").toList ++ after := by
  rcases h with ⟨⟨settings, given, folder, rules, survey, names, hsettings, hsource, hfolder, hrules,
    hsurvey, hnames, rfl⟩, hread⟩
  rcases exists_loadPath_of_unreadable hfolder hrules hsurvey hnames hread with
    ⟨found, hfound, hmem⟩
  have hload : load d stdin settings.source = .loaded found := by
    rw [hsource]
    exact hfound
  rw [run_of_settings hsettings] at hrun
  rcases isAudited_or_not hload with hnone | ⟨hallowList, source, hmany, hdecisions⟩ | haudited
  · rw [analyze_of_no_allowList hload hnone] at hrun
    cases hrun
  · rw [analyze_of_decisions hload hallowList hmany hdecisions] at hrun
    cases hrun
  · rcases exists_analyze_eq_publish haudited with ⟨reports, begun, hanalyze, _, hstderr⟩
    rw [hanalyze] at hrun
    rcases exists_stderr_publish _ _ hrun with ⟨more, hmore⟩
    rcases exists_append_errorLines hmem with ⟨before, after, hlines⟩
    refine ⟨before, after ++ more, ?_⟩
    rw [hmore, hstderr, hlines, List.append_assoc]

/-- A run is left by an exception in the ways that are named.  Otherwise it ends with the exit code
0, 1 or 2, and with 2 exactly if it fails.  Then each source of a folder that cannot be read has a
line in the error stream. -/
theorem run_escapes_or_ends (d : Disk) (arguments : List String) (stdin : Text)
    (terminal : Terminal) :
    (∃ escape, Escapes d stdin arguments escape ∧ run d arguments stdin terminal = .error escape) ∨
    ((∀ escape, ¬Escapes d stdin arguments escape) ∧
      ∃ outcome, run d arguments stdin terminal = .ok outcome ∧
        (outcome.exit = 0 ∨ outcome.exit = 1 ∨ outcome.exit = 2) ∧
        (outcome.exit = 2 ↔ Fails d stdin arguments) ∧
        ∀ p fault, IsUnreadableSource d arguments p fault →
          ∃ before after, outcome.stderr =
            before ++ ("read_error: " ++ readError p fault ++ "\n").toList ++ after) := by
  have hends : ∀ {outcome}, run d arguments stdin terminal = .ok outcome →
      ∀ escape, ¬Escapes d stdin arguments escape := by
    intro outcome hrun escape hescapes
    rw [run_of_escapes hescapes] at hrun
    cases hrun
  rcases run_cases d arguments stdin terminal with
    ⟨escape, hescapes⟩ | hfails | ⟨outcome, hrun, hexit⟩
  · left
    exact ⟨escape, hescapes, run_of_escapes hescapes⟩
  · right
    rcases run_of_fails hfails with ⟨outcome, hrun, hexit⟩
    refine ⟨hends hrun, outcome, hrun, Or.inr (Or.inr hexit), ⟨fun _ => hfails, fun _ => hexit⟩, ?_⟩
    intro p fault hunreadable
    exact exists_line_of_unreadable hunreadable hrun
  · right
    refine ⟨hends hrun, outcome, hrun, ?_, ?_, ?_⟩
    · rcases hexit with hzero | hone
      · exact Or.inl hzero
      · exact Or.inr (Or.inl hone)
    · constructor
      · intro htwo
        omega
      · intro hfails
        rcases run_of_fails hfails with ⟨other, hother, hcode⟩
        rw [hrun] at hother
        cases hother
        exact hcode
    · intro p fault hunreadable
      exact exists_line_of_unreadable hunreadable hrun

def withBackwardRange : Disk :=
  ⟨.file IgnoreRules.fileName [91, 98, 45, 97, 93, 10]
    (.file ['a', '.', 'p', 'y'] [120, 32, 61, 32, 49, 10] .empty), []⟩

/-- A run on this folder is left by an exception, although the other faults of ignore files are
reported. -/
theorem run_backward_range :
    run withBackwardRange ["analyze", "--path", "."] [] =
      .error (.badRange (.badRange ⟨'b', 'a'⟩)) := by
  have hsettings : settingsOf ["analyze", "--path", "."] =
      .ok { verbose := false
            source := .path (some ".")
            format := .table
            output := none
            allowList := some .compat
            failOn := none } := by
    rfl
  have hfiles : IgnoreRules.filesOf withBackwardRange ⟨[], []⟩ = .ok [[IgnoreRules.fileName]] := by
    show Except.ok (Path.sortNames [[IgnoreRules.fileName]]) = _
    rw [Path.sortNames_eq_self (List.pairwise_singleton _ _)]
  have hlines : IgnoreRules.linesOf withBackwardRange ⟨[], []⟩ =
      .ok [['[', 'b', '-', 'a', ']']] := by
    unfold IgnoreRules.linesOf
    rw [hfiles]
    rfl
  have hfolder : withBackwardRange.folder? ⟨[], []⟩ =
      .ok (some (withBackwardRange.top, Disk.linkLimit)) := by
    rfl
  apply run_of_escapes
  apply Escapes.badRange hsettings rfl
  exact ⟨_, _, hfolder, hlines, IgnoreRules.ofLines_eq_error_iff.mp rfl⟩

end Command
end SourceAudit
