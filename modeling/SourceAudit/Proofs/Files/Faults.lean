import SourceAudit.Files.Reading
import SourceAudit.Files.Writing

/-!
# Faults of file operations

## The null character

A path with a null character is refused before anything is looked up, and no look-up refuses any
other path for this reason.  A file with such a path is not written; whether that is what is reported
depends on whether the folders around it can be made, which are made first.
-/

namespace SourceAudit

def Path.holdsNull (p : Path) : Bool :=
  p.names.any (·.contains '\x00')

theorem Path.holdsNull_of_parent {p : Path} (h : p.parent.holdsNull = true) :
    p.holdsNull = true := by
  rcases List.any_eq_true.mp h with ⟨name, hname, hnull⟩
  exact List.any_eq_true.mpr ⟨name, List.dropLast_subset _ hname, hnull⟩

namespace Place

theorem follow_ne_nullCharacter (p : Place) (names : List Text) :
    p.follow names ≠ .error .nullCharacter := by
  induction names generalizing p with
  | nil =>
      intro h
      cases h
  | cons name later ih =>
      unfold follow
      split
      · exact ih p
      · split
        · exact ih p.parent
        · split
          · simp
          · split
            · exact ih _
            · split <;> simp
            · simp
            · split <;> simp

theorem resolve_ne_nullCharacter (links : Nat) (p : Place) (names : List Text) :
    p.resolve links names ≠ .error .nullCharacter := by
  induction links generalizing p names with
  | zero =>
      unfold resolve
      cases hfollow : p.follow names with
      | error fault =>
          intro h
          cases h
          exact follow_ne_nullCharacter p names hfollow
      | ok stop =>
          cases stop <;> simp
  | succ links ih =>
      unfold resolve
      cases hfollow : p.follow names with
      | error fault =>
          intro h
          cases h
          exact follow_ne_nullCharacter p names hfollow
      | ok stop =>
          cases stop with
          | found what =>
              simp
          | atLink place target later =>
              exact ih _ _

end Place

namespace Disk

variable {d : Disk} {p : Path}

/-!
# Looking up
-/

theorem find_eq_nullCharacter_iff :
    d.find p = .error .nullCharacter ↔ p.holdsNull = true := by
  unfold find Path.holdsNull
  constructor
  · intro h
    split at h
    · assumption
    · split at h
      · exact absurd h (Place.resolve_ne_nullCharacter _ _ _)
      · exact absurd h (Place.resolve_ne_nullCharacter _ _ _)
  · intro h
    rw [if_pos h]

theorem resolve_eq_nullCharacter_iff :
    d.resolve p = .error .nullCharacter ↔ p.holdsNull = true := by
  unfold resolve
  constructor
  · intro h
    split at h
    · assumption
    · split at h
      · cases h
      · exact find_eq_nullCharacter_iff.mp h
  · intro h
    exact if_pos h

theorem find_of_resolve {what : Found} {links : Nat} (h : d.resolve p = .ok (what, links)) :
    d.find p = .ok (what, links) := by
  unfold resolve at h
  split at h
  · cases h
  · split at h
    · cases h
    · exact h

theorem list_eq_nullCharacter_iff :
    d.list p = .error .nullCharacter ↔ p.holdsNull = true := by
  rw [← resolve_eq_nullCharacter_iff (d := d)]
  unfold list
  split <;> simp_all

theorem list_of_folder? {found : Place × Nat} (h : d.folder? p = .ok (some found)) :
    d.list p = .ok found := by
  unfold folder? at h
  unfold list
  split at h
  · rename_i place links hresolve
    cases h
    rw [hresolve]
  · cases h
  · split at h <;> cases h

theorem exists?_of_folder? {found : Place × Nat} (h : d.folder? p = .ok (some found)) :
    d.exists? p = .ok true := by
  unfold folder? at h
  unfold exists?
  split at h
  · rename_i place links hresolve
    rw [hresolve]
  · cases h
  · split at h <;> cases h

theorem isFolder_eq_false_of_holdsNull (h : p.holdsNull = true) : d.isFolder p = false := by
  unfold isFolder folder?
  rw [resolve_eq_nullCharacter_iff.mpr h]
  rfl

/-!
# Making folders and writing
-/

theorem makeFolder_eq_nullCharacter_iff :
    d.makeFolder p = .error .nullCharacter ↔ p.holdsNull = true := by
  unfold makeFolder
  cases hlast : p.names.getLast? with
  | none =>
      rw [List.getLast?_eq_none_iff] at hlast
      simp [Path.holdsNull, hlast]
  | some name =>
      dsimp only
      by_cases hnull : p.holdsNull = true
      · rw [if_pos (show p.names.any (·.contains '\x00') = true from hnull)]
        exact ⟨fun _ => hnull, fun _ => rfl⟩
      · rw [if_neg (show ¬p.names.any (·.contains '\x00') = true from hnull)]
        constructor
        · intro h
          cases hlist : d.list p.parent with
          | error fault =>
              rw [hlist] at h
              cases h
              exact absurd (Path.holdsNull_of_parent (list_eq_nullCharacter_iff.mp hlist)) hnull
          | ok found =>
              rw [hlist] at h
              dsimp only at h
              split at h
              · cases h
              · split at h
                · cases h
                · split at h <;> cases h
        · intro h
          exact absurd h hnull

theorem ensureFolders_of_holdsNull (h : p.holdsNull = true) :
    d.ensureFolders p = (d, some (.nullCharacter, p)) := by
  have hnames : (⟨p.top, p.names.reverse.reverse⟩ : Path) = p := by
    rw [List.reverse_reverse]
  unfold ensureFolders ensureFoldersTo
  dsimp only
  rw [hnames, makeFolder_eq_nullCharacter_iff.mpr h, isFolder_eq_false_of_holdsNull h]
  rfl

theorem ensureFoldersTo_ne_nullCharacter {top : Text} {names : List Text}
    (h : names.any (·.contains '\x00') = false) (place : Path) :
    (d.ensureFoldersTo top names).2 ≠ some (.nullCharacter, place) := by
  -- Without the character a folder can fail to be made for other reasons only.
  have hmake : ∀ (d : Disk) {names : List Text}, names.any (·.contains '\x00') = false →
      d.makeFolder ⟨top, names.reverse⟩ ≠ .error .nullCharacter := by
    intro d names hnames heq
    have hnull := makeFolder_eq_nullCharacter_iff.mp heq
    rw [Path.holdsNull, List.any_reverse, hnames] at hnull
    cases hnull
  have hfault : ∀ {d : Disk} {fault : FileFault} {place' : Path}, fault ≠ .nullCharacter →
      (if d.isFolder place' then none else some (fault, place')) ≠
        some (FileFault.nullCharacter, place) := by
    intro d fault place' hne heq
    split at heq
    · cases heq
    · cases heq
      exact hne rfl
  induction names generalizing d with
  | nil =>
      unfold ensureFoldersTo
      dsimp only
      split
      · simp
      · rename_i hnames
        cases hnames
      · rename_i hfirst _
        apply hfault
        intro heq
        rw [heq] at hfirst
        exact hmake d h hfirst
  | cons name around ih =>
      have haround : around.any (·.contains '\x00') = false := by
        rw [List.any_cons, Bool.or_eq_false_iff] at h
        exact h.2
      unfold ensureFoldersTo
      dsimp only
      split
      · simp
      · rename_i hcons
        cases hcons
        split
        · rename_i heq
          have hinner := ih (d := d) haround
          rw [heq] at hinner
          exact hinner
        · split
          · simp
          · rename_i hsecond
            apply hfault
            intro heq
            rw [heq] at hsecond
            exact hmake _ h hsecond
      · rename_i hfirst _
        apply hfault
        intro heq
        rw [heq] at hfirst
        exact hmake d h hfirst

/-- The bytes of a file do not matter for whether it can be written. -/
theorem publish_snd (bytes : List UInt8) : (d.publish p bytes).2 = (d.publish p []).2 := by
  unfold publish write
  split
  · rfl
  · rename_i prepared _
    cases hresolve : prepared.resolve p with
    | error fault =>
        rfl
    | ok found =>
        rcases found with ⟨_ | _ | _, links⟩ <;> rfl

theorem write_eq_nullCharacter_iff {bytes : List UInt8} :
    d.write p bytes = .error .nullCharacter ↔ p.holdsNull = true := by
  rw [← resolve_eq_nullCharacter_iff (d := d)]
  unfold write
  split <;> simp_all

/-- A file is refused for the null character in its path, unless the folders on the way cannot be
made for another reason. -/
theorem publish_nullCharacter_iff (bytes : List UInt8) :
    (∃ place, (d.publish p bytes).2 = some (.nullCharacter, place)) ↔
      p.holdsNull = true ∧
        (p.parent.holdsNull = true ∨ (d.ensureFolders p.parent).2 = none) := by
  by_cases hparent : p.parent.holdsNull = true
  · have hpublish : (d.publish p bytes).2 = some (.nullCharacter, p.parent) := by
      unfold publish
      rw [ensureFolders_of_holdsNull hparent]
    constructor
    · intro _
      exact ⟨Path.holdsNull_of_parent hparent, Or.inl hparent⟩
    · intro _
      exact ⟨p.parent, hpublish⟩
  · have hfolders : ∀ place, (d.ensureFolders p.parent).2 ≠ some (.nullCharacter, place) := by
      intro place
      apply ensureFoldersTo_ne_nullCharacter
      rw [List.any_reverse]
      exact Bool.eq_false_iff.mpr hparent
    unfold publish
    rcases hmade : d.ensureFolders p.parent with ⟨prepared, _ | ⟨fault, place⟩⟩
    · dsimp only
      cases hwrite : prepared.write p bytes with
      | error fault =>
          constructor
          · intro h
            rcases h with ⟨place, heq⟩
            cases heq
            exact ⟨write_eq_nullCharacter_iff.mp hwrite, Or.inr rfl⟩
          · intro h
            rw [write_eq_nullCharacter_iff.mpr h.1] at hwrite
            cases hwrite
            exact ⟨p, rfl⟩
      | ok written =>
          constructor
          · intro h
            rcases h with ⟨place, heq⟩
            cases heq
          · intro h
            rw [write_eq_nullCharacter_iff.mpr h.1] at hwrite
            cases hwrite
    · rw [hmade] at hfolders
      constructor
      · intro h
        rcases h with ⟨other, heq⟩
        exact absurd heq (hfolders other)
      · intro h
        rcases h.2 with hnull | hnone
        · exact absurd hnull hparent
        · cases hnone

end Disk
end SourceAudit
