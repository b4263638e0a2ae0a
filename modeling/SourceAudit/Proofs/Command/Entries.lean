import Mathlib.Data.List.Forall2
import SourceAudit.Proofs.Command.Completion
import SourceAudit.Proofs.Discovery.Independence

/-!
# Entries of a run

## One entry for each source

A run on a folder has one entry for each source that is found: the report on its text, or the message
that it cannot be read.  The entry depends on the bytes of that source alone, and the sources that
are found do not depend on any bytes of sources.  So another content of one source changes the entry
of this source and no other.
-/

namespace SourceAudit
namespace Command

/-- What a run tells about one source of a folder. -/
inductive SourceEntry where
  | report (labelled : LabelledReport)
  | error (message : String)

def reportsOf (entries : List SourceEntry) : List LabelledReport :=
  entries.filterMap fun
    | .report labelled => some labelled
    | .error _ => none

def errorsOf (entries : List SourceEntry) : List String :=
  entries.filterMap fun
    | .report _ => none
    | .error message => some message

/-- Whether an entry is right for a file below a root: the report on its text, under the path below
the root, or the message about the fault of reading it. -/
def SourceEntry.IsFor (allowList : AllowList) (root : Path) (names : List Text)
    (bytes : List UInt8) : SourceEntry → Prop
  | .report labelled =>
      labelled.label = Path.joinNames names ∧
        ∃ t, Disk.textAt root names (.file bytes) = .ok t ∧ audit allowList t = .ok labelled.report
  | .error message =>
      ∃ fault, Disk.textAt root names (.file bytes) = .error fault ∧
        message = readError (root.below names) fault

/-- Whether an entry is right for the source at a path of a tree. -/
def SourceEntry.IsAt (allowList : AllowList) (root : Path) (tree : Folder) (names : List Text)
    (entry : SourceEntry) : Prop :=
  ∃ bytes, tree.bytesAt? names = some bytes ∧ entry.IsFor allowList root names bytes

/-- Whether an outcome shows some reports and messages: the messages on the error stream, and the
reports as drawings or in a document on the output stream, or in a document in a file. -/
def Outcome.Shows (outcome : Outcome) (d : Disk) (settings : Settings) (terminal : Terminal)
    (reports : List LabelledReport) (errors : List String) : Prop :=
  outcome.stderr = errorLines errors ∧
    match settings.format, settings.outputFile with
    | .table, _ =>
        outcome.stdout = reports.flatMap (LabelledReport.draw terminal.width) ∧ outcome.disk = d
    | .json, none => outcome.stdout = shownDocument terminal reports errors ∧ outcome.disk = d
    | .json, some given =>
        outcome.stdout = [] ∧
          d.publish (.ofText given.toList) (asciiBytes (documentOf reports errors).text) =
            (outcome.disk, none)

/-- What a run on a folder accounts for: the rules, the sources that are found, an entry for each of
them, and an outcome that shows the entries. -/
structure Accounts (d : Disk) (root : Path) (tree : Folder) (settings : Settings)
    (terminal : Terminal) (outcome : Outcome) (allowList : AllowList) (rules : IgnoreRules)
    (survey : Survey) (entries : List SourceEntry) : Prop where
  allows : settings.allowList = some allowList
  loads : IgnoreRules.load d root = .ok rules
  finds : discover d rules root = .ok survey
  yields : List.Forall₂ (SourceEntry.IsAt allowList root tree) survey.files entries
  shows : outcome.Shows d settings terminal (reportsOf entries) (errorsOf entries)

/-- A run on a folder that is a tree without links, and that does not fail. -/
structure IsFolderRun (d : Disk) (stdin : Text) (arguments : List String) (settings : Settings)
    (terminal : Terminal) (given : String) (tree : Folder) (outcome : Outcome) : Prop where
  parsed : settingsOf arguments = .ok settings
  source : settings.source = .path (some given)
  holds : d.HoldsTree (.ofText given.toList) tree
  runs : run d arguments stdin terminal = .ok outcome
  accepted : outcome.exit ≠ 2

/-!
# One entry for each source
-/

variable {d : Disk} {root : Path} {tree tree' : Folder} {allowList : AllowList}
  {names : List Text}

theorem SourceEntry.IsFor.unique {bytes : List UInt8} {entry entry' : SourceEntry}
    (h : entry.IsFor allowList root names bytes) (h' : entry'.IsFor allowList root names bytes) :
    entry = entry' := by
  cases entry with
  | report labelled =>
      rcases h with ⟨hlabel, t, htext, haudit⟩
      cases entry' with
      | report labelled' =>
          rcases h' with ⟨hlabel', t', htext', haudit'⟩
          rw [htext] at htext'
          cases htext'
          rw [haudit] at haudit'
          rcases labelled with ⟨label, report⟩
          rcases labelled' with ⟨label', report'⟩
          rw [show label = label' from hlabel.trans hlabel'.symm,
            show report = report' from Except.ok.inj haudit']
      | error message =>
          rcases h' with ⟨fault, htext', _⟩
          rw [htext] at htext'
          cases htext'
  | error message =>
      rcases h with ⟨fault, htext, hmessage⟩
      cases entry' with
      | report labelled =>
          rcases h' with ⟨_, t, htext', _⟩
          rw [htext] at htext'
          cases htext'
      | error message' =>
          rcases h' with ⟨fault', htext', hmessage'⟩
          rw [htext] at htext'
          cases htext'
          rw [hmessage, hmessage']

theorem readSource_of_label {p : Path} {label : Text} (hlabel : label ≠ []) :
    d.readSource p (some label) = (d.readText p).map fun t => ⟨label, t⟩ := by
  unfold Disk.readSource
  rcases label with _ | ⟨c, rest⟩
  · exact absurd rfl hlabel
  · cases d.readText p <;> rfl

/-- Reading and auditing the files of a tree one by one gives an entry for each. -/
theorem exists_entries (h : d.HoldsTree root tree) {files : List (List Text)}
    (hfiles : ∀ names ∈ files, ∃ bytes, tree.bytesAt? names = some bytes)
    {reports : List LabelledReport}
    (haudit : auditAll allowList (readAll d root files).sources = .ok reports) :
    ∃ entries, List.Forall₂ (SourceEntry.IsAt allowList root tree) files entries ∧
      reportsOf entries = reports ∧ errorsOf entries = (readAll d root files).errors := by
  induction files generalizing reports with
  | nil =>
      cases haudit
      exact ⟨[], List.Forall₂.nil, rfl, rfl⟩
  | cons names rest ih =>
      rcases List.forall_mem_cons.mp hfiles with ⟨⟨bytes, hbytes⟩, hrest⟩
      have hentry := Folder.entryAt?_eq_some_of_bytesAt? hbytes
      have hlabel := Folder.joinNames_ne_nil_of_entryAt? h.isTree h.hasProperNames hentry
      have hread := readSource_of_label (d := d) (p := root.below names) hlabel
      rw [h.readText_below hentry] at hread
      unfold readAll at haudit ⊢
      dsimp only at haudit ⊢
      rw [hread] at haudit ⊢
      cases htext : Disk.textAt root names (.file bytes) with
      | error fault =>
          rw [htext] at haudit
          rcases ih hrest haudit with ⟨entries, hall, hreports, herrors⟩
          refine ⟨.error (readError (root.below names) fault) :: entries, ?_, hreports, ?_⟩
          · exact List.Forall₂.cons ⟨bytes, hbytes, fault, htext, rfl⟩ hall
          · show readError (root.below names) fault :: errorsOf entries = _
            rw [herrors]
            rfl
      | ok t =>
          rw [htext] at haudit
          have hcons : auditAll allowList (⟨Path.joinNames names, t⟩ ::
              (readAll d root rest).sources) = .ok reports := haudit
          unfold auditAll at hcons
          split at hcons
          · cases hcons
          · rename_i report hreport
            rcases exists_of_map_eq_ok hcons with ⟨later, hlater, rfl⟩
            rcases ih hrest hlater with ⟨entries, hall, hreports, herrors⟩
            refine ⟨.report ⟨Path.joinNames names, report⟩ :: entries, ?_, ?_, herrors⟩
            · exact List.Forall₂.cons ⟨bytes, hbytes, rfl, t, htext, hreport⟩ hall
            · show _ :: reportsOf entries = _
              rw [hreports]

/-!
# Accounts of a run
-/

variable {stdin : Text} {arguments : List String} {settings : Settings} {terminal : Terminal}
  {given : String} {outcome : Outcome}

theorem shows_of_publish {reports : List LabelledReport} {errors : List String}
    {begun : Outcome} (hdisk : begun.disk = d)
    (hstdout : begun.stdout = []) (hstderr : begun.stderr = errorLines errors)
    (h : publish terminal settings reports errors begun = .ok outcome) (hexit : outcome.exit ≠ 2) :
    outcome.Shows d settings terminal reports errors := by
  unfold publish at h
  unfold Outcome.Shows
  cases hformat : settings.format with
  | table =>
      rw [hformat] at h
      cases h
      exact ⟨hstderr, rfl, hdisk⟩
  | json =>
      rw [hformat] at h
      cases hfile : settings.outputFile with
      | none =>
          rw [hfile] at h
          cases h
          exact ⟨hstderr, rfl, hdisk⟩
      | some given =>
          rw [hfile] at h
          dsimp only at h
          unfold writeDocument at h
          rw [hdisk] at h
          split at h
          · rename_i disk hpublish
            cases h
            exact ⟨hstderr, hstdout, hpublish⟩
          · cases h
          · cases h
            exact absurd rfl hexit

theorem files_of_discover (h : d.HoldsTree root tree) {rules : IgnoreRules} {survey : Survey}
    (hsurvey : discover d rules root = .ok survey) :
    survey.files.Nodup ∧ ∀ names ∈ survey.files, rules.IsSource tree names := by
  rcases h.found with ⟨place, links, hfolder, rfl⟩
  unfold discover at hsurvey
  rw [Disk.list_of_folder? hfolder] at hsurvey
  cases hsurvey
  have hexact : (Survey.ofPlace rules place links).IsExact rules place.current :=
    Survey.isExact_ofPlace h.isTree links
  exact ⟨hexact.nodup, fun names => (hexact.mem_files_iff names).mp⟩

theorem exists_of_loadFolder_eq_loaded {found : Loaded}
    (h : loadFolder d given root = .loaded found) :
    ∃ rules survey, IgnoreRules.load d root = .ok rules ∧ discover d rules root = .ok survey ∧
      found.sources = (readAll d root survey.files).sources ∧
      found.errors = (readAll d root survey.files).errors := by
  unfold loadFolder at h
  split at h
  · cases h
  · cases h
  · rename_i rules hrules
    split at h
    · cases h
    · rename_i survey hsurvey
      cases h
      exact ⟨rules, survey, hrules, hsurvey, rfl, rfl⟩

theorem exists_publish_of_analyze_eq_ok
    (h : analyze d stdin settings terminal = .ok outcome) (hexit : outcome.exit ≠ 2) :
    ∃ found allowList reports begun, load d stdin settings.source = .loaded found ∧
      settings.allowList = some allowList ∧ auditAll allowList found.sources = .ok reports ∧
      publish terminal settings reports found.errors begun = .ok outcome ∧
      begun.disk = d ∧ begun.stdout = [] ∧ begun.stderr = errorLines found.errors := by
  rcases analyze_cases h with
    ⟨_, _, rfl⟩ | ⟨found, allowList, reports, hfound, hallowList, hreports, hpublish⟩
  · exact absurd rfl hexit
  · exact ⟨found, allowList, reports, _, hfound, hallowList, hreports, hpublish, rfl, rfl, rfl⟩

/-- A run that ends without a failure shows the reports on all texts that it has loaded. -/
theorem exists_of_analyze_eq_ok
    (h : analyze d stdin settings terminal = .ok outcome) (hexit : outcome.exit ≠ 2) :
    ∃ found allowList reports, load d stdin settings.source = .loaded found ∧
      settings.allowList = some allowList ∧ auditAll allowList found.sources = .ok reports ∧
      outcome.Shows d settings terminal reports found.errors := by
  rcases exists_publish_of_analyze_eq_ok h hexit with
    ⟨found, allowList, reports, begun, hload, hallowList, haudit, hpublish, hdisk, hstdout, hstderr⟩
  exact ⟨found, allowList, reports, hload, hallowList, haudit,
    shows_of_publish hdisk hstdout hstderr hpublish hexit⟩

theorem IsFolderRun.exists_accounts
    (h : IsFolderRun d stdin arguments settings terminal given tree outcome) :
    ∃ allowList rules survey entries,
      Accounts d (.ofText given.toList) tree settings terminal outcome allowList rules survey
        entries := by
  have hruns := h.runs
  unfold run at hruns
  rw [h.parsed] at hruns
  rcases exists_of_analyze_eq_ok hruns h.accepted with
    ⟨found, allowList, reports, hload, hallowList, haudit, hshows⟩
  rcases h.holds.found with ⟨place, links, hfolder, _⟩
  have hloaded : loadFolder d given (.ofText given.toList) = .loaded found := by
    rw [← loadPath_of_folder hfolder]
    rw [h.source] at hload
    exact hload
  rcases exists_of_loadFolder_eq_loaded hloaded with
    ⟨rules, survey, hrules, hsurvey, hsources, herrors⟩
  rw [hsources] at haudit
  have hfiles : ∀ names ∈ survey.files, ∃ bytes, tree.bytesAt? names = some bytes := by
    intro names hnames
    have hsource := (files_of_discover h.holds hsurvey).2 names hnames
    exact Folder.exists_bytesAt?_of_isFolderAt? h.holds.isTree h.holds.hasProperNames
      hsource.isFile
  rcases exists_entries h.holds hfiles haudit with ⟨entries, hall, hreports, hmessages⟩
  refine ⟨allowList, rules, survey, entries, hallowList, hrules, hsurvey, hall, ?_⟩
  rw [hreports, hmessages, ← herrors]
  exact hshows

/-!
# Another content of one source
-/

theorem exists_of_forall₂_append {α β : Type} {R : α → β → Prop} {before after : List α}
    {x : α} {ys : List β} (h : List.Forall₂ R (before ++ x :: after) ys) :
    ∃ front y back, ys = front ++ y :: back ∧ List.Forall₂ R before front ∧ R x y ∧
      List.Forall₂ R after back := by
  induction before generalizing ys with
  | nil =>
      rcases List.forall₂_cons_left_iff.mp h with ⟨y, back, hx, hafter, rfl⟩
      exact ⟨[], y, back, rfl, List.Forall₂.nil, hx, hafter⟩
  | cons first rest ih =>
      rcases List.forall₂_cons_left_iff.mp h with ⟨z, more, hfirst, hrest, rfl⟩
      rcases ih hrest with ⟨front, y, back, rfl, hfront, hx, hback⟩
      exact ⟨z :: front, y, back, rfl, List.Forall₂.cons hfirst hfront, hx, hback⟩

theorem exists_of_forall₂_mem {α β : Type} {R : α → β → Prop} {xs : List α} {ys : List β}
    (h : List.Forall₂ R xs ys) {x : α} (hx : x ∈ xs) : ∃ y ∈ ys, R x y := by
  rcases List.append_of_mem hx with ⟨before, after, rfl⟩
  rcases exists_of_forall₂_append h with ⟨front, y, back, rfl, _, hxy, _⟩
  exact ⟨y, by simp, hxy⟩

theorem entries_eq_of_sameBut {target : List Text} (hsame : tree.SameBut target tree')
    {files : List (List Text)} (htarget : target ∉ files) {entries entries' : List SourceEntry}
    (h : List.Forall₂ (SourceEntry.IsAt allowList root tree) files entries)
    (h' : List.Forall₂ (SourceEntry.IsAt allowList root tree') files entries') :
    entries = entries' := by
  induction h generalizing entries' with
  | nil =>
      cases h'
      rfl
  | @cons names entry files entries hfirst _ ih =>
      cases h' with
      | cons hfirst' hrest' =>
          rw [List.mem_cons, not_or] at htarget
          rcases hfirst with ⟨bytes, hbytes, hentry⟩
          rcases hfirst' with ⟨bytes', hbytes', hentry'⟩
          rw [hsame.bytesAt? names (Ne.symm htarget.1), hbytes'] at hbytes
          cases hbytes
          rw [hentry.unique hentry', ih htarget.2 hrest']

/-- Every source that a run finds in a folder has one entry, which is right for it, and the outcome
shows the entries in the order of the sources.  A run on the same folder with other bytes in one of
the sources has the same rules and finds the same sources, and no other entry changes. -/
theorem entries_independent
    (h : IsFolderRun d stdin arguments settings terminal given tree outcome) :
    ∃ allowList rules survey entries,
      Accounts d (.ofText given.toList) tree settings terminal outcome allowList rules survey
        entries ∧
      ∀ {d' : Disk} {stdin' : Text} {terminal' : Terminal} {tree' : Folder} {outcome' : Outcome}
        {target : List Text},
        IsFolderRun d' stdin' arguments settings terminal' given tree' outcome' →
        target ∈ survey.files → tree.SameBut target tree' →
        ∃ before after front entry entry' back,
          survey.files = before ++ target :: after ∧ entries = front ++ entry :: back ∧
          front.length = before.length ∧
          Accounts d' (.ofText given.toList) tree' settings terminal' outcome' allowList rules survey
            (front ++ entry' :: back) := by
  rcases h.exists_accounts with ⟨allowList, rules, survey, entries, haccounts⟩
  refine ⟨allowList, rules, survey, entries, haccounts, ?_⟩
  intro d' stdin' terminal' tree' outcome' target h' htarget hsame
  rcases h'.exists_accounts with ⟨allowList', rules', survey', entries', haccounts'⟩
  rcases files_of_discover h.holds haccounts.finds with ⟨hnodup, hsources⟩
  have hallowList : allowList' = allowList :=
    Option.some.inj (haccounts'.allows.symm.trans haccounts.allows)
  -- A source is no ignore file, so the rules are the same and, with them, the sources found.
  have hrules : rules' = rules := by
    have hload := IgnoreRules.load_eq_of_sameBut h.holds h'.holds hsame
      (hsources target htarget).getLast?_ne
    exact Except.ok.inj (haccounts'.loads.symm.trans (hload.symm.trans haccounts.loads))
  have hsurvey : survey' = survey := by
    have hdiscover := discover_eq_of_sameBut h.holds h'.holds hsame rules
    rw [hrules] at haccounts'
    exact Except.ok.inj (haccounts'.finds.symm.trans (hdiscover.symm.trans haccounts.finds))
  rw [hallowList, hrules, hsurvey] at haccounts'
  rcases List.append_of_mem htarget with ⟨before, after, hfiles⟩
  have hyields := haccounts.yields
  have hyields' := haccounts'.yields
  rw [hfiles] at hyields hyields' hnodup
  rcases exists_of_forall₂_append hyields with
    ⟨front, entry, back, hentries, hfront, _, hback⟩
  rcases exists_of_forall₂_append hyields' with
    ⟨front', entry', back', hentries', hfront', _, hback'⟩
  -- The target is found once only, so all other entries are for files that did not change.
  rcases List.nodup_append.mp hnodup with ⟨_, hcons, hapart⟩
  have hbefore : target ∉ before :=
    fun hmem => hapart target hmem target List.mem_cons_self rfl
  have hafter : target ∉ after :=
    (List.nodup_cons.mp hcons).1
  have hsameFront := entries_eq_of_sameBut hsame hbefore hfront hfront'
  have hsameBack := entries_eq_of_sameBut hsame hafter hback hback'
  refine ⟨before, after, front, entry, entry', back, hfiles, hentries, hfront.length_eq.symm, ?_⟩
  rw [hsameFront, hsameBack, ← hentries']
  exact haccounts'

def twoSources (bytes : List UInt8) : Folder :=
  .file ['a', '.', 'p', 'y'] [] (.file ['b', '.', 'p', 'y'] bytes .empty)

theorem entryAt?_twoSources (bytes : List UInt8) (path : List Text) :
    (twoSources bytes).entryAt? path =
      if path = [['a', '.', 'p', 'y']] then some (.file [])
      else if path = [['b', '.', 'p', 'y']] then some (.file bytes)
      else none := by
  rcases path with _ | ⟨name, more⟩
  · rfl
  · by_cases ha : ['a', '.', 'p', 'y'] = name
    · cases more <;> simp [twoSources, Folder.entryAt?, Folder.find?, ← ha]
    · by_cases hb : ['b', '.', 'p', 'y'] = name
      · cases more <;> simp [twoSources, Folder.entryAt?, Folder.find?, ← hb]
      · cases more <;>
          simp [twoSources, Folder.entryAt?, Folder.find?, ha, hb, Ne.symm ha, Ne.symm hb]

theorem sameBut_twoSources (bytes bytes' : List UInt8) :
    (twoSources bytes).SameBut [['b', '.', 'p', 'y']] (twoSources bytes') := by
  constructor
  · intro path
    rw [Folder.isFolderAt?_eq_map, Folder.isFolderAt?_eq_map, entryAt?_twoSources,
      entryAt?_twoSources]
    split
    · rfl
    · split <;> rfl
  · intro path hne
    unfold Folder.bytesAt?
    rw [entryAt?_twoSources, entryAt?_twoSources, if_neg hne, if_neg hne]

theorem holdsTree_twoSources (bytes : List UInt8) :
    Disk.HoldsTree ⟨twoSources bytes, []⟩ ⟨[], []⟩ (twoSources bytes) := by
  refine ⟨⟨_, _, rfl, rfl⟩, ?_, ?_⟩
  · exact ⟨by simp [Folder.entryNames], by simp [Folder.entryNames], trivial⟩
  · unfold twoSources Folder.HasProperNames Folder.HasProperNames Folder.HasProperNames IsProperName
    decide

theorem load_twoSources (bytes : List UInt8) :
    IgnoreRules.load ⟨twoSources bytes, []⟩ ⟨[], []⟩ = .ok ⟨[]⟩ := by
  have hfiles : IgnoreRules.filesOf ⟨twoSources bytes, []⟩ ⟨[], []⟩ = .ok [] := by
    show Except.ok (Path.sortNames []) = _
    rw [Path.sortNames_eq_self List.Pairwise.nil]
  unfold IgnoreRules.load
  rw [hfiles]
  rfl

theorem discover_twoSources (bytes : List UInt8) :
    discover ⟨twoSources bytes, []⟩ ⟨[]⟩ ⟨[], []⟩ =
      .ok { files := [[['a', '.', 'p', 'y']], [['b', '.', 'p', 'y']]], ignored := 0 } := by
  have hsorted : Path.sortNames [[['a', '.', 'p', 'y']], [['b', '.', 'p', 'y']]] =
      [[['a', '.', 'p', 'y']], [['b', '.', 'p', 'y']]] := by
    apply Path.sortNames_eq_self
    decide
  show Except.ok { files := Path.sortNames [[['a', '.', 'p', 'y']], [['b', '.', 'p', 'y']]],
                   ignored := 0 : Survey } = _
  rw [hsorted]

theorem exists_isFolderRun_twoSources (terminal : Terminal) (bytes : List UInt8)
    {reports : List LabelledReport}
    (h : auditAll .compat (readAll ⟨twoSources bytes, []⟩ ⟨[], []⟩
      [[['a', '.', 'p', 'y']], [['b', '.', 'p', 'y']]]).sources = .ok reports) :
    ∃ outcome, IsFolderRun ⟨twoSources bytes, []⟩ [] ["analyze", "--path", "."]
      ⟨false, .path (some "."), .table, none, some .compat, none⟩ terminal "." (twoSources bytes)
      outcome := by
  have hload : load ⟨twoSources bytes, []⟩ [] (.path (some ".")) =
      loadFolder ⟨twoSources bytes, []⟩ "." ⟨[], []⟩ :=
    rfl
  have hrun : ∃ outcome, run ⟨twoSources bytes, []⟩ ["analyze", "--path", "."] [] terminal =
      .ok outcome ∧ outcome.exit ≠ 2 := by
    have hsettings : settingsOf ["analyze", "--path", "."] =
        .ok ⟨false, .path (some "."), .table, none, some .compat, none⟩ :=
      rfl
    unfold run analyze
    rw [hsettings]
    dsimp only
    rw [hload]
    unfold loadFolder
    rw [load_twoSources]
    dsimp only
    rw [discover_twoSources]
    dsimp only
    rw [h]
    refine ⟨_, rfl, ?_⟩
    show (0 : Nat) ≠ 2
    decide
  rcases hrun with ⟨outcome, hrun, hexit⟩
  exact ⟨outcome, rfl, rfl, holdsTree_twoSources bytes, hrun, hexit⟩

/-- In a folder with two sources of which the second is at first no text and then an empty one, both
runs account for two entries, and the entry of the first source stays. -/
theorem entries_independent_two_sources :
    ∃ settings outcome outcome' allowList rules survey entries front entry entry' back,
      IsFolderRun ⟨twoSources [0xFF], []⟩ [] ["analyze", "--path", "."] settings {} "."
        (twoSources [0xFF]) outcome ∧
      IsFolderRun ⟨twoSources [], []⟩ [] ["analyze", "--path", "."] settings {} "."
        (twoSources []) outcome' ∧
      [['b', '.', 'p', 'y']] ∈ survey.files ∧
      (twoSources [0xFF]).SameBut [['b', '.', 'p', 'y']] (twoSources []) ∧
      entries = front ++ entry :: back ∧
      Accounts ⟨twoSources [0xFF], []⟩ ⟨[], []⟩ (twoSources [0xFF]) settings {} outcome allowList
        rules survey entries ∧
      Accounts ⟨twoSources [], []⟩ ⟨[], []⟩ (twoSources []) settings {} outcome' allowList rules
        survey (front ++ entry' :: back) := by
  rcases exists_isFolderRun_twoSources {} [0xFF] rfl with ⟨outcome, hrun⟩
  rcases exists_isFolderRun_twoSources {} [] rfl with ⟨outcome', hrun'⟩
  rcases entries_independent hrun with ⟨allowList, rules, survey, entries, haccounts, hother⟩
  have htarget : [['b', '.', 'p', 'y']] ∈ survey.files := by
    have hrules : rules = ⟨[]⟩ :=
      Except.ok.inj (haccounts.loads.symm.trans (load_twoSources [0xFF]))
    have hsurvey := haccounts.finds
    rw [hrules] at hsurvey
    rw [Except.ok.inj (hsurvey.symm.trans (discover_twoSources [0xFF]))]
    simp
  have hsame := sameBut_twoSources [0xFF] []
  rcases hother hrun' htarget hsame with
    ⟨before, after, front, entry, entry', back, _, hentries, _, haccounts'⟩
  exact ⟨_, outcome, outcome', allowList, rules, survey, entries, front, entry, entry', back, hrun,
    hrun', htarget, hsame, hentries, haccounts, haccounts'⟩

end Command
end SourceAudit
