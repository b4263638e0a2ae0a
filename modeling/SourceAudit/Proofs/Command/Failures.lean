import SourceAudit.Proofs.Command.Streams
import SourceAudit.Proofs.Files.Kept
import SourceAudit.Proofs.Report.Totality

/-!
# What a run leaves behind

## All or nothing

A run that fails has shown nothing on its output stream, and all files are as they were; folders may
have been made for a document that could not be written then.  A help text that is asked for goes to
the output of the process, not to the stream of the run.  A run that succeeds and writes its
document to a file shows nothing either, and the document has an entry for each source.

A file that can be opened for writing is assumed to take the whole document; a disk that becomes full
would leave a part of it.
-/

namespace SourceAudit

/-- Whether a document reports on some sources: its reports are, one by one, those of the texts of
the sources, each with the label of its source and with all parts of the report. -/
def Json.ReportsOn (document : Json) (allowList : AllowList) (sources : List Source) : Prop :=
  ∃ entries, document.HasMember "reports" (.array entries) ∧
    List.Forall₂ (fun source entry => ∃ report, audit allowList source.text = .ok report ∧
      Json.HasMember entry "source" (.string (String.ofList source.label)) ∧
      Json.HasMember entry "result" report.json ∧ report.json.TellsReport report) sources entries

namespace Command

variable {d : Disk} {stdin : Text} {arguments : List String} {settings : Settings}
  {terminal : Terminal} {reports : List LabelledReport} {errors : List String}
  {outcome : Outcome}

/-!
# Failures
-/

/-- What a failing run leaves: nothing on its output stream, and the files that were there. -/
structure LeavesNothing (d : Disk) (outcome : Outcome) : Prop where
  stdout : outcome.stdout = []
  files : d.KeepsFiles outcome.disk

theorem leavesNothing_of_publish {begun : Outcome} (hstdout : begun.stdout = [])
    (h : publish terminal settings reports errors begun = .ok outcome)
    (hexit : outcome.exit = 2) : LeavesNothing begun.disk outcome := by
  rcases publish_cases h with ⟨stdout, disk, rfl⟩ | ⟨_, _, _, _, hpublish, rfl⟩
  · have hcode : exitCode settings.failOn reports = 2 := hexit
    rcases exitCode_cases settings.failOn reports with hzero | hone
    · omega
    · omega
  · exact ⟨hstdout, Disk.keepsFiles_of_publish hpublish⟩

theorem leavesNothing_of_analyze (h : analyze d stdin settings terminal = .ok outcome)
    (hexit : outcome.exit = 2) : LeavesNothing d outcome := by
  rcases analyze_cases h with ⟨_, _, rfl⟩ | ⟨_, _, _, _, _, _, hpublish⟩
  · exact ⟨rfl, .refl d⟩
  · exact leavesNothing_of_publish rfl hpublish hexit

theorem leavesNothing_stop (d : Disk) (arguments : List String) (stopped : Stopped) :
    LeavesNothing d (stop d arguments stopped) := by
  cases stopped with
  | help scope =>
      exact ⟨rfl, .refl d⟩
  | fault scope fault =>
      exact ⟨rfl, .refl d⟩

theorem leavesNothing_of_run (h : run d arguments stdin terminal = .ok outcome)
    (hexit : outcome.exit = 2) : LeavesNothing d outcome := by
  unfold run at h
  split at h
  · cases h
    exact leavesNothing_stop d arguments _
  · exact leavesNothing_of_analyze h hexit

/-!
# Help texts
-/

theorem usageOut_of_analyze (h : analyze d stdin settings terminal = .ok outcome) :
    outcome.usageOut = "" := by
  rcases analyze_cases h with ⟨_, _, rfl⟩ | ⟨_, _, _, _, _, _, hpublish⟩
  · rfl
  · rcases publish_cases hpublish with ⟨_, _, rfl⟩ | ⟨_, _, _, _, _, rfl⟩
    · rfl
    · rfl

theorem usageOut_of_run (h : run d arguments stdin terminal = .ok outcome) :
    outcome.usageOut = "" ∨ ∃ scope, settingsOf arguments = .error (.help scope) := by
  unfold run at h
  split at h
  · rename_i stopped hstopped
    cases h
    cases stopped with
    | help scope =>
        exact Or.inr ⟨scope, hstopped⟩
    | fault scope fault =>
        exact Or.inl rfl
  · exact Or.inl (usageOut_of_analyze h)

/-!
# Documents
-/

theorem reportsOn_documentOf {allowList : AllowList} {sources : List Source}
    (h : auditAll allowList sources = .ok reports) (errors : List String) :
    (documentOf reports errors).ReportsOn allowList sources := by
  refine ⟨_, Json.hasMember_record.mpr List.mem_cons_self, ?_⟩
  rw [List.forall₂_map_right_iff]
  apply (forall₂_of_auditAll h).imp
  intro source labelled hreport
  rcases hreport with ⟨hlabel, haudit⟩
  refine ⟨labelled.report, haudit, ?_, ?_, tellsReport_json labelled.report⟩
  · rw [Json.hasMember_record, hlabel]
    exact List.mem_cons_self
  · rw [Json.hasMember_record]
    exact List.mem_cons_of_mem _ List.mem_cons_self

/-- A run that fails leaves nothing behind.  A run that ends with 0 or 1 and has an output file for
its document shows nothing, and the file holds one document, with a report on each source that was
loaded. -/
theorem leaves_nothing_or_document (hruns : run d arguments stdin terminal = .ok outcome) :
    (outcome.exit = 2 → outcome.stdout = [] ∧
      (outcome.usageOut = "" ∨ ∃ scope, settingsOf arguments = .error (.help scope)) ∧
      outcome.disk.here = d.here ∧
      outcome.disk.root.regularFiles = d.root.regularFiles) ∧
    ∀ (settings : Settings) (given : String), settingsOf arguments = .ok settings →
      settings.format = .json → settings.output = some given → given ≠ "" →
      outcome.exit = 0 ∨ outcome.exit = 1 →
        outcome.stdout = [] ∧ ∃ found allowList document,
          load d stdin settings.source = .loaded found ∧ settings.allowList = some allowList ∧
          outcome.disk.readText (.ofText given.toList) = .ok document.text ∧
          Json.ReportsOn document allowList found.sources := by
  constructor
  · intro hexit
    have hleaves := leavesNothing_of_run hruns hexit
    exact ⟨hleaves.stdout, usageOut_of_run hruns, hleaves.files.here, hleaves.files.regularFiles⟩
  · intro settings given hparsed hformat houtput hgiven hexit
    have hfile : settings.outputFile = some given := by
      simp [Settings.outputFile, houtput, hgiven]
    have hnot : outcome.exit ≠ 2 := by
      omega
    rcases exists_tellsDocument_of_run hparsed hformat hfile hruns hnot with
      ⟨found, allowList, reports, hload, hallowList, haudit, hstdout, hread⟩
    exact ⟨hstdout, found, allowList, documentOf reports found.errors, hload, hallowList, hread,
      reportsOn_documentOf haudit found.errors⟩

/-- A run on an empty source that is to write its document to `new/..` makes the folder `new` and
fails; the same run with the file `out.json` writes its document. -/
theorem leaves_nothing_or_document_empty_source :
    (∃ outcome,
      run (emptyFileDisk "a.py")
        ["analyze", "--path", "a.py", "--format", "json", "--output", "new/.."] [] =
        .ok outcome ∧ outcome.exit = 2 ∧ outcome.stdout = [] ∧
      outcome.disk.root.regularFiles = (emptyFileDisk "a.py").root.regularFiles) ∧
    ∃ outcome document,
      run (emptyFileDisk "a.py")
        ["analyze", "--path", "a.py", "--format", "json", "--output", "out.json"] [] =
        .ok outcome ∧ outcome.exit = 0 ∧ outcome.stdout = [] ∧
      outcome.disk.readText (.ofText "out.json".toList) = .ok (Json.text document) ∧
      document.ReportsOn .compat [⟨"a.py".toList, []⟩] := by
  have hload : load (emptyFileDisk "a.py") [] (.path (some "a.py")) =
      .loaded ⟨[⟨"a.py".toList, []⟩], [], []⟩ :=
    rfl
  have hfails : settingsOf ["analyze", "--path", "a.py", "--format", "json", "--output", "new/.."] =
      .ok (documentSettings "a.py" (some "new/..")) :=
    rfl
  have hshows : settingsOf ["analyze", "--path", "a.py", "--format", "json"] =
      .ok (documentSettings "a.py" none) :=
    rfl
  have hwrites :
      settingsOf ["analyze", "--path", "a.py", "--format", "json", "--output", "out.json"] =
        .ok (documentSettings "a.py" (some "out.json")) :=
    rfl
  have hfolders : (emptyFileDisk "a.py").ensureFolders (Path.ofText "new/..".toList).parent =
      (⟨.file "a.py".toList [] (.folder "new".toList .empty .empty), []⟩, none) := by
    unfold Disk.ensureFolders Disk.ensureFoldersTo
    rfl
  have hfault : writeFault? (emptyFileDisk "a.py") (documentSettings "a.py" (some "new/..")) =
      some (.isFolder, .ofText "new/..".toList) := by
    show ((emptyFileDisk "a.py").publish (.ofText "new/..".toList) []).2 = _
    unfold Disk.publish
    rw [hfolders]
    rfl
  have haudited : IsAudited (emptyFileDisk "a.py") [] (documentSettings "a.py" (some "new/.."))
      ⟨[⟨"a.py".toList, []⟩], [], []⟩ := by
    refine ⟨hload, by decide, ?_⟩
    intro source hsource
    rw [List.mem_singleton.mp hsource]
    exact Metrics.not_hasTooManyDecisions (by decide)
  constructor
  · rcases run_of_fails (.output hfails haudited hfault (by decide)) with ⟨outcome, hruns, hexit⟩
    have hleaves := (leaves_nothing_or_document hruns).1 hexit
    exact ⟨outcome, hruns, hexit, hleaves.1, hleaves.2.2.2⟩
  · rcases exists_runs_emptyFileDisk hshows hwrites hload rfl with
      ⟨_, outcome, _, _, hruns, hexit⟩
    have hleaves := (leaves_nothing_or_document hruns).2 _ "out.json" hwrites rfl rfl (by decide)
      (Or.inl hexit)
    rcases hleaves with
      ⟨hstdout, found, allowList, document, hfound, hallowList, hread, hreports⟩
    cases hload.symm.trans hfound
    cases hallowList
    exact ⟨outcome, document, hruns, hexit, hstdout, hread, hreports⟩

end Command
end SourceAudit
