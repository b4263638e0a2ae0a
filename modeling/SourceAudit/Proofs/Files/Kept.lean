import SourceAudit.Proofs.Files.Writing

/-!
# Files that are kept

## Folders come first

Before a file is written the folders that lead to it are made, and these stay even if the file
cannot be written.  A folder is made where its name is free and holds nothing, so the files of the
tree are the same afterwards.  A link is no file of its own, and the files behind it are counted
where they are.
-/

namespace SourceAudit
namespace Folder

/-- The names that lead to the files in a folder and below, each with its bytes. -/
def regularFiles : Folder → List (List Text × List UInt8)
  | empty => []
  | file name bytes later => ([name], bytes) :: later.regularFiles
  | folder name inside later =>
      inside.regularFiles.map (fun file => (name :: file.1, file.2)) ++ later.regularFiles
  | link _ _ later => later.regularFiles

variable {f around inside inside' : Folder} {name : Text} {names : List Text}

theorem regularFiles_put_empty (h : f.find? name = none) :
    (f.put name (.folder .empty)).regularFiles = f.regularFiles := by
  induction f with
  | empty =>
      rfl
  | file other bytes later ih =>
      unfold find? at h
      split at h
      · cases h
      · rename_i hother
        rw [put, if_neg hother, regularFiles, regularFiles, ih h]
  | folder other inside later _ ih =>
      unfold find? at h
      split at h
      · cases h
      · rename_i hother
        rw [put, if_neg hother, regularFiles, regularFiles, ih h]
  | link other target later ih =>
      unfold find? at h
      split at h
      · cases h
      · rename_i hother
        rw [put, if_neg hother, regularFiles, regularFiles, ih h]

theorem regularFiles_put_folder (h : f.find? name = some (.folder inside))
    (hsame : inside'.regularFiles = inside.regularFiles) :
    (f.put name (.folder inside')).regularFiles = f.regularFiles := by
  induction f with
  | empty =>
      cases h
  | file other bytes later ih =>
      unfold find? at h
      split at h
      · cases h
      · rename_i hother
        rw [put, if_neg hother, regularFiles, regularFiles, ih h]
  | folder other within later _ ih =>
      unfold find? at h
      split at h
      · rename_i hother
        cases h
        rw [put, if_pos hother, cons, regularFiles, regularFiles, hsame, hother]
      · rename_i hother
        rw [put, if_neg hother, regularFiles, regularFiles, ih h]
  | link other target later ih =>
      unfold find? at h
      split at h
      · cases h
      · rename_i hother
        rw [put, if_neg hother, regularFiles, regularFiles, ih h]

theorem regularFiles_putAt (h : f.folderAt? names = some around) (hfree : around.find? name = none) :
    (f.putAt name (.folder .empty) names).regularFiles = f.regularFiles := by
  induction names generalizing f with
  | nil =>
      cases h
      exact regularFiles_put_empty hfree
  | cons step steps ih =>
      rcases exists_of_folderAt?_cons h with ⟨inside, hstep, hsteps⟩
      rw [putAt, hstep]
      exact regularFiles_put_folder hstep (ih hsteps)

end Folder

namespace Disk

/-- Whether one disk has the same files with the same bytes as another, and the same working
directory. -/
structure KeepsFiles (d d' : Disk) : Prop where
  here : d'.here = d.here
  regularFiles : d'.root.regularFiles = d.root.regularFiles

variable {d d' d'' : Disk} {p : Path}

theorem KeepsFiles.refl (d : Disk) : d.KeepsFiles d :=
  ⟨rfl, rfl⟩

theorem KeepsFiles.trans (h : d.KeepsFiles d') (h' : d'.KeepsFiles d'') : d.KeepsFiles d'' :=
  ⟨h'.here.trans h.here, h'.regularFiles.trans h.regularFiles⟩

/-!
# What a look-up finds
-/

theorem isIn_of_resolve {what : Found} {links : Nat} (h : d.resolve p = .ok (what, links)) :
    what.IsIn d.root := by
  have htop : d.top.IsIn d.root := ⟨rfl, trivial⟩
  have hfind := find_of_resolve h
  unfold find at hfind
  split at hfind
  · cases hfind
  · split at hfind
    · exact htop.of_reaches (Place.reaches_of_resolve hfind)
    · exact htop.of_reaches (Place.reaches_of_resolve hfind)

theorem isIn_of_list {place : Place} {links : Nat} (h : d.list p = .ok (place, links)) :
    place.IsIn d.root := by
  unfold list at h
  split at h
  · rename_i hresolve
    cases h
    exact isIn_of_resolve hresolve
  · cases h
  · cases h
  · cases h

/-!
# Folders that are made
-/

theorem keepsFiles_of_makeFolder (h : d.makeFolder p = .ok d') : d.KeepsFiles d' := by
  unfold makeFolder at h
  split at h
  · cases h
  · split at h
    · cases h
    · split at h
      · cases h
      · rename_i place _ hlist
        split at h
        · cases h
        · split at h
          · cases h
          · split at h
            · cases h
            · rename_i hfree
              cases h
              exact ⟨rfl, Folder.regularFiles_putAt (isIn_of_list hlist).folderAt?_names hfree⟩

theorem keepsFiles_ensureFoldersTo (d : Disk) (top : Text) (names : List Text) :
    d.KeepsFiles (d.ensureFoldersTo top names).1 := by
  induction names with
  | nil =>
      unfold ensureFoldersTo
      dsimp only
      split
      · rename_i hmake
        exact keepsFiles_of_makeFolder hmake
      · rename_i hnames
        cases hnames
      · exact KeepsFiles.refl d
  | cons name around ih =>
      unfold ensureFoldersTo
      dsimp only
      split
      · rename_i hmake
        exact keepsFiles_of_makeFolder hmake
      · rename_i hnames
        cases hnames
        split
        · rename_i hensure
          rw [hensure] at ih
          exact ih
        · rename_i hensure
          rw [hensure] at ih
          split
          · rename_i hmake
            exact ih.trans (keepsFiles_of_makeFolder hmake)
          · exact ih
      · exact KeepsFiles.refl d

/-- What is made before a file cannot be written leaves all files as they are. -/
theorem keepsFiles_of_publish {bytes : List UInt8} {fault : PathFault}
    (h : d.publish p bytes = (d', some fault)) : d.KeepsFiles d' := by
  have hfolders := keepsFiles_ensureFoldersTo d p.parent.top p.parent.names.reverse
  unfold publish ensureFolders at h
  split at h
  · rename_i hensure
    cases h
    rw [hensure] at hfolders
    exact hfolders
  · rename_i hensure
    rw [hensure] at hfolders
    split at h
    · cases h
      exact hfolders
    · cases h

end Disk
end SourceAudit
