import SourceAudit.Proofs.Command.Threshold
import SourceAudit.Proofs.Files.Writing
import SourceAudit.Proofs.Output.Document
import SourceAudit.Proofs.Text.Utf8

/-!
# The document of a run

## Shown and written

A run that tells its reports in a document shows it on the output stream or writes it to a file.
Both runs make the same document, and reading the file gives it back as it is.  What is shown has
its codes replaced by pictures, so it is the document, with a line feed behind it, if and only if no
label and no message has a code that stands for a picture.
-/

namespace SourceAudit

/-- Whether two texts are the same, up to one line feed at the end of one of them. -/
def Text.AreSameUpToFeed (a b : Text) : Prop :=
  a = b ∨ a = b ++ ['\n'] ∨ b = a ++ ['\n']

namespace Command

variable {d : Disk} {stdin : Text} {arguments : List String} {settings : Settings}
  {terminal : Terminal} {reports : List LabelledReport} {errors : List String}

/-- Whether a string of a document has a code that stands for a picture. -/
def HasPicture (pictures : Emoji.Table) (s : String) : Prop :=
  ∃ code ∈ Emoji.codesIn (Json.stringText s), Emoji.pictureOf? pictures code ≠ none

/-!
# Reports on sources
-/

theorem forall₂_of_auditAll {allowList : AllowList} {sources : List Source}
    (h : auditAll allowList sources = .ok reports) :
    List.Forall₂ (fun source labelled => labelled.label = source.label ∧
      audit allowList source.text = .ok labelled.report) sources reports := by
  induction sources generalizing reports with
  | nil =>
      cases h
      exact List.Forall₂.nil
  | cons source rest ih =>
      unfold auditAll at h
      split at h
      · cases h
      · rename_i report hreport
        rcases exists_of_map_eq_ok h with ⟨later, hlater, rfl⟩
        exact List.Forall₂.cons ⟨rfl, hreport⟩ (ih hlater)

theorem labels_of_auditAll {allowList : AllowList} {sources : List Source}
    (h : auditAll allowList sources = .ok reports) :
    sources.map Source.label = reports.map LabelledReport.label := by
  have hlabels : List.Forall₂ Eq (sources.map Source.label)
      (reports.map LabelledReport.label) := by
    rw [List.forall₂_map_left_iff, List.forall₂_map_right_iff]
    exact (forall₂_of_auditAll h).imp fun _ _ hreport => hreport.1.symm
  rwa [List.forall₂_eq_eq_eq] at hlabels

theorem exists_of_mem_auditAll {allowList : AllowList} {sources : List Source}
    (h : auditAll allowList sources = .ok reports) {labelled : LabelledReport}
    (hlabelled : labelled ∈ reports) :
    ∃ source ∈ sources, audit allowList source.text = .ok labelled.report := by
  rcases exists_of_forall₂_mem (forall₂_of_auditAll h).flip hlabelled with
    ⟨source, hsource, _, haudit⟩
  exact ⟨source, hsource, haudit⟩

/-- The codes in the document of a run are those in the labels of its sources and in its messages.
-/
theorem mem_codesIn_documentOf_iff {allowList : AllowList} {sources : List Source}
    (h : auditAll allowList sources = .ok reports) {code : Text} :
    code ∈ Emoji.codesIn (documentOf reports errors).text ↔
      (∃ source ∈ sources, code ∈ Emoji.codesIn (Json.stringText (String.ofList source.label))) ∨
        ∃ error ∈ errors, code ∈ Emoji.codesIn (Json.stringText error) := by
  have hnames : ∀ labelled ∈ reports, ∀ name, .unknownName name ∈ labelled.report.findings →
      ':' ∉ name := by
    intro labelled hlabelled name hname
    rcases exists_of_mem_auditAll h hlabelled with ⟨source, _, haudit⟩
    exact not_mem_of_mem_findings haudit hname
  have hlabels : (∃ label ∈ sources.map Source.label,
      code ∈ Emoji.codesIn (Json.stringText (String.ofList label))) ↔
      ∃ label ∈ reports.map LabelledReport.label,
        code ∈ Emoji.codesIn (Json.stringText (String.ofList label)) := by
    rw [labels_of_auditAll h]
  simp only [List.mem_map, exists_exists_and_eq_and] at hlabels
  rw [mem_codesIn_documentOf hnames, hlabels]

/-!
# Both ways to tell a document
-/

theorem areSameUpToFeed_iff {shown document : Text} (h : document.getLast? ≠ some '\n') :
    Text.AreSameUpToFeed (shown ++ ['\n']) document ↔ shown = document := by
  constructor
  · rintro (heq | heq | heq)
    · rw [← heq, List.getLast?_concat] at h
      exact absurd rfl h
    · exact List.append_cancel_right heq
    · rw [heq, List.getLast?_concat] at h
      exact absurd rfl h
  · rintro rfl
    exact Or.inr (Or.inl rfl)

/-- What is shown is the document if and only if nothing in it stands for a picture. -/
theorem shownDocument_iff (hpictures : terminal.pictures.IsPictorial) {allowList : AllowList}
    {sources : List Source} (h : auditAll allowList sources = .ok reports) :
    Text.AreSameUpToFeed (shownDocument terminal reports errors)
        (documentOf reports errors).text ↔
      (∀ source ∈ sources, ¬HasPicture terminal.pictures (String.ofList source.label)) ∧
        ∀ error ∈ errors, ¬HasPicture terminal.pictures error := by
  have hlast : (documentOf reports errors).text.getLast? ≠ some '\n' := by
    rw [getLast?_documentOf]
    decide
  unfold shownDocument HasPicture
  rw [areSameUpToFeed_iff hlast, Emoji.render_eq_self_iff hpictures]
  constructor
  · intro hnone
    constructor
    · rintro source hsource ⟨code, hcode, hpicture⟩
      exact hpicture (hnone code ((mem_codesIn_documentOf_iff h).mpr (Or.inl ⟨_, hsource, hcode⟩)))
    · rintro error herror ⟨code, hcode, hpicture⟩
      exact hpicture (hnone code ((mem_codesIn_documentOf_iff h).mpr (Or.inr ⟨_, herror, hcode⟩)))
  · rintro ⟨hsources, herrors⟩ code hcode
    by_contra hpicture
    rcases (mem_codesIn_documentOf_iff h).mp hcode with
      ⟨source, hsource, hcode⟩ | ⟨error, herror, hcode⟩
    · exact hsources source hsource ⟨code, hcode, hpicture⟩
    · exact herrors error herror ⟨code, hcode, hpicture⟩

/-- The file that a run writes is read as the document. -/
theorem readText_of_publish {given : String} {written : Disk}
    (h : d.publish (.ofText given.toList) (asciiBytes (documentOf reports errors).text) =
      (written, none)) :
    written.readText (.ofText given.toList) = .ok (documentOf reports errors).text := by
  have hsimple := Json.isSimple_of_mem_textAt 0 (documentOf reports errors)
  have hascii : ∀ c ∈ (documentOf reports errors).text, c.toNat < 128 := by
    intro c hc
    have hc := hsimple c hc
    simp only [Json.isSimple, Bool.or_eq_true, beq_iff_eq, Bool.and_eq_true,
      decide_eq_true_eq] at hc
    rcases hc with rfl | ⟨_, hlt⟩
    · decide
    · omega
  have hbreaks : '\r' ∉ (documentOf reports errors).text := by
    intro hmem
    exact absurd (hsimple _ hmem) (by decide)
  unfold Disk.readText
  rw [Disk.read_of_publish h]
  exact textOfBytes_ascii hascii hbreaks

/-- Whether an outcome tells a document on the output stream or, if there is one, in a file. -/
def Outcome.TellsDocument (outcome : Outcome) (terminal : Terminal) (file : Option String)
    (reports : List LabelledReport) (errors : List String) : Prop :=
  match file with
  | none => outcome.stdout = shownDocument terminal reports errors
  | some given =>
      outcome.stdout = [] ∧
        outcome.disk.readText (.ofText given.toList) = .ok (documentOf reports errors).text

theorem exists_tellsDocument_of_run {outcome : Outcome} {file : Option String}
    (hparsed : settingsOf arguments = .ok settings) (hformat : settings.format = .json)
    (hfile : settings.outputFile = file) (hruns : run d arguments stdin terminal = .ok outcome)
    (hexit : outcome.exit ≠ 2) :
    ∃ found allowList reports, load d stdin settings.source = .loaded found ∧
      settings.allowList = some allowList ∧ auditAll allowList found.sources = .ok reports ∧
      outcome.TellsDocument terminal file reports found.errors := by
  rw [run_of_settings hparsed] at hruns
  rcases exists_of_analyze_eq_ok hruns hexit with
    ⟨found, allowList, reports, hload, hallowList, haudit, hshows⟩
  refine ⟨found, allowList, reports, hload, hallowList, haudit, ?_⟩
  unfold Outcome.Shows at hshows
  rw [hformat, hfile] at hshows
  cases file with
  | none =>
      exact hshows.2.1
  | some given =>
      exact ⟨hshows.2.1, readText_of_publish hshows.2.2⟩

/-- A run that shows its document finds some sources and messages, and its document is that of the
reports on these sources and of these messages.  The same run with an output file writes this
document to the file.  What is shown is what is written, up to one final line feed, if and only if
no label of a source and no message has a code that stands for a picture. -/
theorem shown_same_as_written_iff (hpictures : terminal.pictures.IsPictorial)
    (hparsed : settingsOf arguments = .ok settings) (hformat : settings.format = .json)
    (hfile : settings.outputFile = none) {outcome : Outcome}
    (hruns : run d arguments stdin terminal = .ok outcome) (hexit : outcome.exit ≠ 2) :
    ∃ found allowList reports, load d stdin settings.source = .loaded found ∧
      settings.allowList = some allowList ∧ auditAll allowList found.sources = .ok reports ∧
      (documentOf reports found.errors).IsSorted ∧
      (∀ {arguments' : List String} {given : String} {terminal' : Terminal}
        {outcome' : Outcome}, given ≠ "" →
        settingsOf arguments' = .ok { settings with output := some given } →
        run d arguments' stdin terminal' = .ok outcome' → outcome'.exit ≠ 2 →
        outcome'.stdout = [] ∧ outcome'.disk.readText (.ofText given.toList) =
          .ok (documentOf reports found.errors).text) ∧
      (Text.AreSameUpToFeed outcome.stdout (documentOf reports found.errors).text ↔
        (∀ source ∈ found.sources,
            ¬HasPicture terminal.pictures (String.ofList source.label)) ∧
          ∀ error ∈ found.errors, ¬HasPicture terminal.pictures error) := by
  rcases exists_tellsDocument_of_run hparsed hformat hfile hruns hexit with
    ⟨found, allowList, reports, hload, hallowList, haudit, hstdout⟩
  refine ⟨found, allowList, reports, hload, hallowList, haudit, isSorted_documentOf _ _, ?_, ?_⟩
  · intro arguments' given terminal' outcome' hgiven hparsed' hruns' hexit'
    have hfile' : Settings.outputFile { settings with output := some given } = some given := by
      simp [Settings.outputFile, hgiven]
    rcases exists_tellsDocument_of_run hparsed' hformat hfile' hruns' hexit' with
      ⟨found', allowList', reports', hload', hallowList', haudit', hwritten⟩
    cases hload.symm.trans hload'
    cases hallowList.symm.trans hallowList'
    cases haudit.symm.trans haudit'
    exact hwritten
  · rw [show outcome.stdout = _ from hstdout]
    exact shownDocument_iff hpictures haudit

/-!
# Sources with colons in their names
-/

def emptyFileDisk (name : String) : Disk :=
  ⟨.file name.toList [] .empty, []⟩

def documentSettings (name : String) (output : Option String) : Settings :=
  { verbose := false
    source := .path (some name)
    format := .json
    output
    allowList := some .compat
    failOn := none }

theorem writeFault?_documentSettings {f : Folder} (name : String)
    (hfree : f.find? "out.json".toList = none) :
    writeFault? ⟨f, []⟩ (documentSettings name (some "out.json")) = none := by
  have hfolders : (Disk.mk f []).ensureFolders ⟨[], []⟩ = (⟨f, []⟩, none) := by
    unfold Disk.ensureFolders Disk.ensureFoldersTo
    rfl
  have hresolve : (Disk.mk f []).resolve (.ofText "out.json".toList) =
      .ok (.absent ⟨f, []⟩ "out.json".toList, Disk.linkLimit) :=
    (Place.Reaches.here _ (.absent ⟨by decide, by decide, by decide⟩ hfree)).resolve
  have hparent : (Path.ofText "out.json".toList).parent = ⟨[], []⟩ :=
    rfl
  show ((Disk.mk f []).publish (.ofText "out.json".toList) []).2 = none
  unfold Disk.publish Disk.write
  rw [hparent, hfolders]
  dsimp only
  rw [hresolve]

theorem exists_runs_emptyFileDisk {name : String} {shows writes : List String}
    (hshows : settingsOf shows = .ok (documentSettings name none))
    (hwrites : settingsOf writes = .ok (documentSettings name (some "out.json")))
    (hload : load (emptyFileDisk name) [] (.path (some name)) =
      .loaded ⟨[⟨name.toList, []⟩], [], []⟩)
    (hfree : (emptyFileDisk name).root.find? "out.json".toList = none) :
    ∃ outcome outcome', run (emptyFileDisk name) shows [] = .ok outcome ∧ outcome.exit = 0 ∧
      run (emptyFileDisk name) writes [] = .ok outcome' ∧ outcome'.exit = 0 := by
  have haudit : ∃ reports, auditAll .compat [⟨name.toList, []⟩] = .ok reports :=
    ⟨_, rfl⟩
  rcases haudit with ⟨reports, haudit⟩
  rcases exists_isAccepted hshows hload rfl haudit rfl {} with ⟨outcome, haccepted, hexit⟩
  rcases exists_isAccepted hwrites hload rfl haudit (writeFault?_documentSettings name hfree)
      {} with
    ⟨outcome', haccepted', hexit'⟩
  exact ⟨outcome, outcome', haccepted.runs, hexit, haccepted'.runs, hexit'⟩

/-- A source whose name has a code that stands for nothing is shown as it is written. -/
theorem shown_same_as_written_nope :
    ∃ outcome outcome' document,
      run (emptyFileDisk ":nope:.py") ["analyze", "--path", ":nope:.py", "--format", "json"] [] =
        .ok outcome ∧ outcome.exit = 0 ∧
      run (emptyFileDisk ":nope:.py")
        ["analyze", "--path", ":nope:.py", "--format", "json", "--output", "out.json"] [] =
        .ok outcome' ∧ outcome'.exit = 0 ∧
      outcome'.disk.readText (.ofText "out.json".toList) = .ok document ∧
      Text.AreSameUpToFeed outcome.stdout document := by
  have hparsed : settingsOf ["analyze", "--path", ":nope:.py", "--format", "json"] =
      .ok (documentSettings ":nope:.py" none) :=
    rfl
  have hparsed' : settingsOf
      ["analyze", "--path", ":nope:.py", "--format", "json", "--output", "out.json"] =
      .ok (documentSettings ":nope:.py" (some "out.json")) :=
    rfl
  have hload : load (emptyFileDisk ":nope:.py") [] (.path (some ":nope:.py")) =
      .loaded ⟨[⟨":nope:.py".toList, []⟩], [], []⟩ :=
    rfl
  rcases exists_runs_emptyFileDisk hparsed hparsed' hload rfl with
    ⟨outcome, outcome', hruns, hexit, hruns', hexit'⟩
  rcases shown_same_as_written_iff Emoji.isPictorial_pictures hparsed rfl rfl hruns (by omega) with
    ⟨found, allowList, reports, hfound, _, _, _, hfile, hsame⟩
  have hread := (hfile (by decide) hparsed' hruns' (by omega)).2
  refine ⟨outcome, outcome', _, hruns, hexit, hruns', hexit', hread, hsame.mpr ?_⟩
  cases hload.symm.trans hfound
  refine ⟨?_, by simp⟩
  intro source hsource
  rw [List.mem_singleton.mp hsource]
  rintro ⟨code, hcode, hpicture⟩
  have hcodes : Emoji.codesIn (Json.stringText (String.ofList ":nope:.py".toList)) =
      ["nope".toList] := by
    decide
  rw [hcodes, List.mem_singleton] at hcode
  rw [hcode] at hpicture
  exact hpicture rfl

/-- A source whose name has the code of a picture is shown with the picture, and written with its
name. -/
theorem exists_shown_not_as_written :
    ∃ outcome outcome' document,
      run (emptyFileDisk ":heart:.py") ["analyze", "--path", ":heart:.py", "--format", "json"] [] =
        .ok outcome ∧ outcome.exit = 0 ∧
      run (emptyFileDisk ":heart:.py")
        ["analyze", "--path", ":heart:.py", "--format", "json", "--output", "out.json"] [] =
        .ok outcome' ∧ outcome'.exit = 0 ∧
      outcome'.disk.readText (.ofText "out.json".toList) = .ok document ∧
      ¬Text.AreSameUpToFeed outcome.stdout document := by
  have hparsed : settingsOf ["analyze", "--path", ":heart:.py", "--format", "json"] =
      .ok (documentSettings ":heart:.py" none) :=
    rfl
  have hparsed' : settingsOf
      ["analyze", "--path", ":heart:.py", "--format", "json", "--output", "out.json"] =
      .ok (documentSettings ":heart:.py" (some "out.json")) :=
    rfl
  have hload : load (emptyFileDisk ":heart:.py") [] (.path (some ":heart:.py")) =
      .loaded ⟨[⟨":heart:.py".toList, []⟩], [], []⟩ :=
    rfl
  rcases exists_runs_emptyFileDisk hparsed hparsed' hload rfl with
    ⟨outcome, outcome', hruns, hexit, hruns', hexit'⟩
  rcases exists_tellsDocument_of_run hparsed rfl rfl hruns (by omega) with
    ⟨found, allowList, reports, hfound, hallowList, haudit, hstdout⟩
  rcases exists_tellsDocument_of_run hparsed' rfl rfl hruns' (by omega) with
    ⟨found', allowList', reports', hfound', hallowList', haudit', _, hread⟩
  cases hload.symm.trans hfound
  cases hload.symm.trans hfound'
  cases hallowList
  cases hallowList'
  cases haudit.symm.trans haudit'
  refine ⟨outcome, outcome', _, hruns, hexit, hruns', hexit', hread, ?_⟩
  rw [show outcome.stdout = _ from hstdout, shownDocument_iff Emoji.isPictorial_pictures haudit]
  rintro ⟨hsources, _⟩
  exact hsources _ List.mem_cons_self ⟨"heart".toList, by decide, by decide⟩

end Command
end SourceAudit
