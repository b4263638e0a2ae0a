import SourceAudit.Proofs.Ignore.Heredity
import SourceAudit.Proofs.Ignore.Precedence

/-!
# Faults of ignore files

## Which fault is reported

The ignore files are read one after the other, and the first that cannot be read decides.  Only when
all are read are their lines made rules, and the first line that is no rule decides.
-/

namespace SourceAudit

theorem IgnoreRule.ofLine?_nil : ofLine? [] = .ok none := rfl

namespace IgnoreRules

variable {d : Disk} {root : Path}

theorem ofLines_eq_error_iff {lines : List Text} {fault : RuleFault} :
    ofLines lines = .error fault ↔ IsFirstFault IgnoreRule.ofLine? lines fault := by
  apply eq_error_iff_isFirstFault
  · intro fault h
    cases h
  · intro line rest fault
    have hline : (if line.isEmpty then .ok none else IgnoreRule.ofLine? line) =
        IgnoreRule.ofLine? line := by
      cases line with
      | nil =>
          exact IgnoreRule.ofLine?_nil.symm
      | cons c more =>
          rfl
    rw [ofLines_cons, hline, bind_eq_error_iff]
    simp only [map_eq_error_iff, exists_and_right]

theorem scopedLines_eq_error_iff {names : List Text} {fault : ReadFault} :
    scopedLines d root names = .error fault ↔ d.readText (root.below names) = .error fault :=
  map_eq_error_iff

theorem collectLines_eq_error_iff {files : List (List Text)} {fault : ReadFault} :
    collectLines d root files = .error fault ↔ IsFirstFault (scopedLines d root) files fault := by
  apply eq_error_iff_isFirstFault
  · intro fault h
    cases h
  · intro names others fault
    rw [collectLines_cons, bind_eq_error_iff]
    simp only [map_eq_error_iff, exists_and_right]

theorem exists_linesOf_eq_error_iff {files : List (List Text)} (hfiles : filesOf d root = .ok files) :
    (∃ fault, linesOf d root = .error fault) ↔
      ∃ names ∈ files, ∃ fault, d.readText (root.below names) = .error fault := by
  have hlines : linesOf d root = collectLines d root files := by
    unfold linesOf
    rw [hfiles]
    rfl
  simp only [hlines, collectLines_eq_error_iff, ← scopedLines_eq_error_iff]
  constructor
  · intro h
    rcases h with ⟨fault, front, names, back, rfl, _, hfault⟩
    exact ⟨names, by simp, fault, hfault⟩
  · intro h
    rcases h with ⟨names, hnames, fault, hfault⟩
    exact exists_isFirstFault hnames hfault

/-- A line that is no rule is reported only if all ignore files could be read. -/
theorem load_eq_badRule_iff {fault : RuleFault} :
    load d root = .error (.badRule fault) ↔
      ∃ lines, linesOf d root = .ok lines ∧ IsFirstFault IgnoreRule.ofLine? lines fault := by
  simp only [← ofLines_eq_error_iff]
  rw [load_eq_match]
  cases linesOf d root with
  | error fault =>
      simp
  | ok lines =>
      cases hrules : ofLines lines <;> simp [hrules]

theorem load_eq_unreadable_iff {fault : ReadFault} :
    load d root = .error (.unreadable fault) ↔ linesOf d root = .error fault := by
  rw [load_eq_match]
  cases linesOf d root with
  | error fault =>
      simp
  | ok lines =>
      cases hrules : ofLines lines <;> simp [hrules]

end IgnoreRules
end SourceAudit
