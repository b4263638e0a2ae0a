import SourceAudit.Command.Loading
import SourceAudit.Proofs.Files.Faults
import SourceAudit.Proofs.Ignore.Faults

/-!
# How loading ends

## Faults that are reported, and one that is not

A path that leads nowhere, a file that cannot be read and a line that is no rule are reported.  The
exception is a set with a range that runs backwards: nothing catches that.  A source of a folder that
cannot be read becomes a message of its own.
-/

namespace SourceAudit

theorem Disk.readSource_eq_error_iff {d : Disk} {p : Path} {label : Option Text}
    {fault : ReadFault} : d.readSource p label = .error fault ↔ d.readText p = .error fault := by
  unfold Disk.readSource
  cases d.readText p with
  | error other =>
      simp
  | ok t =>
      rcases label with _ | _ | _ <;> simp

namespace Command

variable {d : Disk} {p : Path}

/-!
# Sources of a folder
-/

theorem mem_errors_readAll_iff {files : List (List Text)} {message : String} :
    message ∈ (readAll d p files).errors ↔
      ∃ names ∈ files, ∃ fault, d.readText (p.below names) = .error fault ∧
        message = readError (p.below names) fault := by
  induction files with
  | nil =>
      simp [readAll]
  | cons names rest ih =>
      unfold readAll
      cases hsource : d.readSource (p.below names) (some (Path.joinNames names)) with
      | error fault =>
          have htext := Disk.readSource_eq_error_iff.mp hsource
          dsimp only
          rw [hsource]
          simp [ih, htext]
      | ok source =>
          have htext : ∀ fault, d.readText (p.below names) ≠ .error fault := by
            intro fault hfault
            rw [Disk.readSource_eq_error_iff.mpr hfault] at hsource
            cases hsource
          dsimp only
          rw [hsource]
          simp [ih, htext]

/-- Whether a folder has an ignore file with a set whose range runs backwards, in the first line of
all ignore files that is no rule. -/
def HasBackwardRange (d : Disk) (p : Path) (range : Glob.BadRange) : Prop :=
  ∃ found lines, d.folder? p = .ok (some found) ∧ IgnoreRules.linesOf d p = .ok lines ∧
    IsFirstFault IgnoreRule.ofLine? lines (.badRange range)

/-- Whether sources at a path cannot be loaded for a reason that is reported. -/
inductive CannotLoad (d : Disk) (p : Path) : Prop where
  | badPath {fault : FileFault} : d.exists? p = .error fault → CannotLoad d p
  | absent : d.exists? p = .ok false → CannotLoad d p
  | unreadable {fault : ReadFault} : d.exists? p = .ok true →
      (∀ found, d.folder? p ≠ .ok (some found)) → d.readText p = .error fault → CannotLoad d p
  | unreadableRules {found : Place × Nat} {files : List (List Text)} {names : List Text}
      {fault : ReadFault} : d.folder? p = .ok (some found) →
      IgnoreRules.filesOf d p = .ok files → names ∈ files →
      d.readText (p.below names) = .error fault → CannotLoad d p
  | invalidRule {found : Place × Nat} {lines : List Text} {line : Text} :
      d.folder? p = .ok (some found) → IgnoreRules.linesOf d p = .ok lines →
      IsFirstFault IgnoreRule.ofLine? lines (.invalid line) → CannotLoad d p

theorem loadFolder_cases {found : Place × Nat} (hfolder : d.folder? p = .ok (some found))
    (given : String) :
    (∃ range, HasBackwardRange d p range ∧
      loadFolder d given p = .escaped (.badRange (.badRange range))) ∨
    (CannotLoad d p ∧ ∃ failure, loadFolder d given p = .failed failure) ∨
    (∃ loaded, loadFolder d given p = .loaded loaded) := by
  unfold loadFolder
  cases hload : IgnoreRules.load d p with
  | error fault =>
      cases fault with
      | unreadable fault =>
          have hlines := IgnoreRules.load_eq_unreadable_iff.mp hload
          cases hfiles : IgnoreRules.filesOf d p with
          | error other =>
              unfold IgnoreRules.filesOf at hfiles
              rw [hfolder] at hfiles
              cases hfiles
          | ok files =>
              rcases (IgnoreRules.exists_linesOf_eq_error_iff hfiles).mp ⟨fault, hlines⟩ with
                ⟨names, hnames, other, hread⟩
              right
              left
              exact ⟨.unreadableRules hfolder hfiles hnames hread, _, rfl⟩
      | badRule fault =>
          rcases IgnoreRules.load_eq_badRule_iff.mp hload with ⟨lines, hlines, hfirst⟩
          cases fault with
          | invalid line =>
              right
              left
              exact ⟨.invalidRule hfolder hlines hfirst, _, rfl⟩
          | badRange range =>
              left
              exact ⟨range, ⟨found, lines, hfolder, hlines, hfirst⟩, rfl⟩
  | ok rules =>
      have hdiscover : discover d rules p = .ok (Survey.ofPlace rules found.1 found.2) := by
        unfold discover
        rw [Disk.list_of_folder? hfolder]
        rfl
      right
      right
      dsimp only
      rw [hdiscover]
      exact ⟨_, rfl⟩

theorem loadPath_cases (d : Disk) (given : String) :
    (∃ range, HasBackwardRange d (.ofText given.toList) range ∧
      loadPath d given = .escaped (.badRange (.badRange range))) ∨
    (CannotLoad d (.ofText given.toList) ∧ ∃ failure, loadPath d given = .failed failure) ∨
    (∃ found, loadPath d given = .loaded found) := by
  unfold loadPath
  generalize Path.ofText given.toList = p
  dsimp only
  cases hexists : d.exists? p with
  | error fault =>
      right
      left
      exact ⟨.badPath hexists, _, rfl⟩
  | ok there =>
      cases there with
      | false =>
          right
          left
          exact ⟨.absent hexists, _, rfl⟩
      | true =>
          dsimp only
          split
          · rename_i found hfolder
            rcases loadFolder_cases hfolder given with hbackward | hfailed | hloaded
            · exact Or.inl hbackward
            · exact Or.inr (Or.inl hfailed)
            · exact Or.inr (Or.inr hloaded)
          · rename_i hfile
            right
            unfold loadFile
            cases hsource : d.readSource p none with
            | error fault =>
                left
                exact ⟨.unreadable hexists hfile (Disk.readSource_eq_error_iff.mp hsource), _, rfl⟩
            | ok source =>
                right
                exact ⟨_, rfl⟩

theorem loadPath_of_folder {given : String} {found : Place × Nat}
    (hfolder : d.folder? (.ofText given.toList) = .ok (some found)) :
    loadPath d given = loadFolder d given (.ofText given.toList) := by
  unfold loadPath
  dsimp only
  rw [Disk.exists?_of_folder? hfolder]
  dsimp only
  rw [hfolder]

/-- Loading the sources at a path is left by an exception for a backward range only. -/
theorem loadPath_eq_escaped_iff {given : String} {escape : Escape} :
    loadPath d given = .escaped escape ↔
      ∃ range, escape = .badRange (.badRange range) ∧
        HasBackwardRange d (.ofText given.toList) range := by
  constructor
  · intro h
    rcases loadPath_cases d given with ⟨range, hrange, heq⟩ | ⟨_, failure, heq⟩ | ⟨found, heq⟩
    · rw [heq] at h
      cases h
      exact ⟨range, rfl, hrange⟩
    · rw [heq] at h
      cases h
    · rw [heq] at h
      cases h
  · intro h
    rcases h with ⟨range, rfl, found, lines, hfolder, hlines, hfirst⟩
    have hload := IgnoreRules.load_eq_badRule_iff.mpr ⟨lines, hlines, hfirst⟩
    rw [loadPath_of_folder hfolder]
    unfold loadFolder
    rw [hload]

theorem exists_loadPath_eq_failed_iff {given : String} :
    (∃ failure, loadPath d given = .failed failure) ↔ CannotLoad d (.ofText given.toList) := by
  constructor
  · intro h
    rcases h with ⟨failure, h⟩
    rcases loadPath_cases d given with ⟨_, _, heq⟩ | ⟨hcannot, _⟩ | ⟨found, heq⟩
    · rw [heq] at h
      cases h
    · exact hcannot
    · rw [heq] at h
      cases h
  · intro h
    cases h with
    | badPath hexists =>
        unfold loadPath
        dsimp only
        rw [hexists]
        exact ⟨_, rfl⟩
    | absent hexists =>
        unfold loadPath
        dsimp only
        rw [hexists]
        exact ⟨_, rfl⟩
    | unreadable hexists hfile hread =>
        unfold loadPath
        dsimp only
        rw [hexists]
        dsimp only
        split
        · rename_i found hfolder
          exact absurd hfolder (hfile found)
        · unfold loadFile
          rw [Disk.readSource_eq_error_iff.mpr hread]
          exact ⟨_, rfl⟩
    | unreadableRules hfolder hfiles hnames hread =>
        rcases (IgnoreRules.exists_linesOf_eq_error_iff hfiles).mpr ⟨_, hnames, _, hread⟩ with
          ⟨fault, hlines⟩
        rw [loadPath_of_folder hfolder]
        unfold loadFolder
        rw [IgnoreRules.load_eq_unreadable_iff.mpr hlines]
        exact ⟨_, rfl⟩
    | invalidRule hfolder hlines hfirst =>
        rw [loadPath_of_folder hfolder]
        unfold loadFolder
        rw [IgnoreRules.load_eq_badRule_iff.mpr ⟨_, hlines, hfirst⟩]
        exact ⟨_, rfl⟩

theorem exists_loadPath_of_unreadable {given : String} {found : Place × Nat} {rules : IgnoreRules}
    {survey : Survey} {names : List Text} {fault : ReadFault}
    (hfolder : d.folder? (.ofText given.toList) = .ok (some found))
    (hrules : IgnoreRules.load d (.ofText given.toList) = .ok rules)
    (hsurvey : discover d rules (.ofText given.toList) = .ok survey)
    (hnames : names ∈ survey.files)
    (hread : d.readText ((Path.ofText given.toList).below names) = .error fault) :
    ∃ loaded, loadPath d given = .loaded loaded ∧
      readError ((Path.ofText given.toList).below names) fault ∈ loaded.errors := by
  rw [loadPath_of_folder hfolder]
  unfold loadFolder
  rw [hrules]
  dsimp only
  rw [hsurvey]
  exact ⟨_, rfl, mem_errors_readAll_iff.mpr ⟨names, hnames, fault, hread, rfl⟩⟩

theorem load_eq_escaped_iff {stdin : Text} {choice : SourceChoice} {escape : Escape} :
    load d stdin choice = .escaped escape ↔
      (choice = .path none ∧ escape = .noPath) ∨
      ∃ given range, choice = .path (some given) ∧ escape = .badRange (.badRange range) ∧
        HasBackwardRange d (.ofText given.toList) range := by
  cases choice with
  | sample =>
      simp [load]
  | stdin =>
      simp [load]
  | path given =>
      cases given with
      | none =>
          simp [load, eq_comm]
      | some given =>
          simp [load, loadPath_eq_escaped_iff]

theorem exists_load_eq_failed_iff {stdin : Text} {choice : SourceChoice} :
    (∃ failure, load d stdin choice = .failed failure) ↔
      ∃ given, choice = .path (some given) ∧ CannotLoad d (.ofText given.toList) := by
  cases choice with
  | sample =>
      simp [load]
  | stdin =>
      simp [load]
  | path given =>
      cases given with
      | none =>
          simp [load]
      | some given =>
          simp [load, exists_loadPath_eq_failed_iff]

end Command
end SourceAudit
