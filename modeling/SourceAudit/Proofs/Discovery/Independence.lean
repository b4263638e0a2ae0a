import SourceAudit.Proofs.Files.Trees
import SourceAudit.Proofs.Files.Faults
import SourceAudit.Proofs.Ignore.Precedence

/-!
# What the walk does not depend on

## Trees that differ in one file

The rules of a folder come from its ignore files, and the walk asks for names and rules only.  So
two trees that differ in the bytes of one file that is no ignore file have the same rules and the
same survey, in whatever order their folders are listed.
-/

namespace SourceAudit

def Entry.bytes? : Entry → Option (List UInt8)
  | .file bytes => some bytes
  | .folder _ => none
  | .link _ => none

namespace Folder

def bytesAt? (path : List Text) (f : Folder) : Option (List UInt8) :=
  (f.entryAt? path).bind Entry.bytes?

/-- Whether two trees have the same entries and differ at most in the bytes of the file at a path. -/
structure SameBut (target : List Text) (f g : Folder) : Prop where
  isFolderAt? : ∀ path, f.isFolderAt? path = g.isFolderAt? path
  bytesAt? : ∀ path, path ≠ target → f.bytesAt? path = g.bytesAt? path

variable {f g later : Folder} {name : Text} {entry : Entry} {path : List Text}

theorem exists_bytesAt?_of_isFolderAt? (htree : f.IsTree) (hnames : f.HasProperNames)
    (h : f.isFolderAt? path = some false) : ∃ bytes, f.bytesAt? path = some bytes := by
  rw [isFolderAt?_eq_map] at h
  rcases Option.map_eq_some_iff.mp h with ⟨entry, hentry, hkind⟩
  unfold bytesAt?
  rw [hentry]
  cases entry with
  | file bytes =>
      exact ⟨bytes, rfl⟩
  | folder inside =>
      cases hkind
  | link target =>
      exact absurd rfl (ne_link_of_entryAt? htree hnames hentry target)

theorem entryAt?_eq_some_of_bytesAt? {bytes : List UInt8} (h : f.bytesAt? path = some bytes) :
    f.entryAt? path = some (.file bytes) := by
  unfold bytesAt? at h
  rcases Option.bind_eq_some_iff.mp h with ⟨entry, hentry, hbytes⟩
  cases entry with
  | file other =>
      cases hbytes
      exact hentry
  | folder inside =>
      cases hbytes
  | link target =>
      cases hbytes

theorem exists_entryAt?_of_isFolderAt? {isFolder : Bool}
    (h : f.isFolderAt? path = some isFolder) :
    ∃ entry, f.entryAt? path = some entry ∧ entry.isFolder = isFolder := by
  rw [isFolderAt?_eq_map] at h
  exact Option.map_eq_some_iff.mp h

theorem SameBut.read_eq {target : List Text} (h : f.SameBut target g) (hne : path ≠ target)
    (hentry : f.entryAt? path = some entry) :
    ∃ other, g.entryAt? path = some other ∧ entry.read = other.read := by
  have hshape : g.isFolderAt? path = some entry.isFolder := by
    rw [← h.isFolderAt?, isFolderAt?_eq_map, hentry]
    rfl
  rcases exists_entryAt?_of_isFolderAt? hshape with ⟨other, hother, hkind⟩
  have hbytes : entry.bytes? = other.bytes? := by
    have hsame := h.bytesAt? path hne
    unfold Folder.bytesAt? at hsame
    rw [hentry, hother] at hsame
    exact hsame
  refine ⟨other, hother, ?_⟩
  cases entry <;> cases other <;> simp_all [Entry.read, Entry.bytes?, Entry.isFolder]

theorem isSome_isFolderAt?_cons_iff (hname : name ∉ later.entryNames) :
    ((cons name entry later).isFolderAt? path).isSome = true ↔
      path = [name] ∨
      (∃ inside more, entry = .folder inside ∧ path = name :: more ∧
        (inside.isFolderAt? more).isSome = true) ∨
      (later.isFolderAt? path).isSome = true := by
  constructor
  · intro h
    rcases Option.isSome_iff_exists.mp h with ⟨isFolder, hfound⟩
    rcases exists_of_isFolderAt? hfound with ⟨other, more, rfl, _⟩
    by_cases hother : name = other
    · rw [← hother] at hfound ⊢
      by_cases hmore : more = []
      · left
        rw [hmore]
      · right
        left
        rcases (isFolderAt?_cons_iff find?_cons_self hmore).mp hfound with
          ⟨inside, hentry, hinside⟩
        exact ⟨inside, more, hentry, rfl, by rw [hinside]; rfl⟩
    · right
      right
      rw [isFolderAt?_cons_of_ne hother] at h
      exact h
  · intro h
    rcases h with rfl | ⟨inside, more, rfl, rfl, hinside⟩ | hlater
    · rw [isFolderAt?_cons_self]
      rfl
    · rcases Option.isSome_iff_exists.mp hinside with ⟨isFolder, hfound⟩
      have hmore : more ≠ [] := by
        rcases exists_of_isFolderAt? hfound with ⟨_, _, rfl, _⟩
        exact List.cons_ne_nil _ _
      rw [(isFolderAt?_cons_iff find?_cons_self hmore).mpr ⟨inside, rfl, hfound⟩]
      rfl
    · rcases Option.isSome_iff_exists.mp hlater with ⟨isFolder, hfound⟩
      rcases exists_of_isFolderAt? hfound with ⟨other, more, rfl, hother⟩
      rw [isFolderAt?_cons_of_ne]
      · exact hlater
      · intro heq
        exact hname (heq ▸ hother)

end Folder

/-!
# Ignore files of a tree
-/

theorem Path.sortNames_eq_of_perm {paths paths' : List (List Text)} (h : paths.Perm paths') :
    sortNames paths = sortNames paths' := by
  have hperm : (sortNames paths).Perm (sortNames paths') :=
    (List.mergeSort_perm paths _).trans (h.trans (List.mergeSort_perm paths' _).symm)
  apply hperm.eq_of_pairwise _ (pairwise_sortNames paths) (pairwise_sortNames paths')
  intro a b _ _ hba hab
  rcases isOrder_namesBefore.total a b with hbefore | heq | hbehind
  · rw [hbefore] at hab
    cases hab
  · exact heq
  · rw [hbehind] at hba
    cases hba

namespace IgnoreRules

open Folder

variable {d d' : Disk} {root : Path} {tree tree' : Folder} {target : List Text}

/-- Whether a path is that of an ignore file of a folder with the given names. -/
def IsIgnoreFile (names : List Text) (f : Folder) (path : List Text) : Prop :=
  ∃ rest, path = names ++ rest ∧ (f.isFolderAt? rest).isSome = true ∧
    rest.getLast? = some fileName

theorem not_isIgnoreFile_empty {names path : List Text} : ¬IsIgnoreFile names .empty path := by
  intro h
  rcases h with ⟨rest, _, hfound, _⟩
  rcases Option.isSome_iff_exists.mp hfound with ⟨isFolder, hfound⟩
  rcases exists_of_isFolderAt? hfound with ⟨_, _, _, hname⟩
  cases hname

theorem isIgnoreFile_cons_iff {names path : List Text} {name : Text} {entry : Entry}
    {later : Folder} (hname : name ∉ later.entryNames) :
    IsIgnoreFile names (.cons name entry later) path ↔
      (name = fileName ∧ path = names ++ [name]) ∨
      (∃ inside, entry = .folder inside ∧ IsIgnoreFile (names ++ [name]) inside path) ∨
      IsIgnoreFile names later path := by
  unfold IsIgnoreFile
  simp only [isSome_isFolderAt?_cons_iff hname]
  constructor
  · intro h
    rcases h with ⟨rest, hpath, rfl | ⟨inside, more, hentry, rfl, hinside⟩ | hlater, hlast⟩
    · left
      exact ⟨Option.some.inj hlast, hpath⟩
    · right
      left
      refine ⟨inside, hentry, more, by rw [hpath, List.append_assoc]; rfl, hinside, ?_⟩
      rcases Option.isSome_iff_exists.mp hinside with ⟨isFolder, hfound⟩
      rcases exists_of_isFolderAt? hfound with ⟨_, _, rfl, _⟩
      rw [List.getLast?_cons_cons] at hlast
      exact hlast
    · right
      right
      exact ⟨rest, hpath, hlater, hlast⟩
  · intro h
    rcases h with ⟨hfile, hpath⟩ | ⟨inside, hentry, more, hpath, hinside, hlast⟩ |
      ⟨rest, hpath, hlater, hlast⟩
    · exact ⟨[name], hpath, Or.inl rfl, congrArg some hfile⟩
    · refine ⟨name :: more, by rw [hpath, List.append_assoc]; rfl,
        Or.inr (Or.inl ⟨inside, more, hentry, rfl, hinside⟩), ?_⟩
      rw [List.getLast?_cons, hlast]
      rfl
    · exact ⟨rest, hpath, Or.inr (Or.inr hlater), hlast⟩

/-- The ignore files of a tree are its entries of that name. -/
theorem mem_filesBelow_iff {links : Nat} {place : Place} {names path : List Text} {f : Folder}
    (hf : f.IsTree) : path ∈ filesBelow links place names f ↔ IsIgnoreFile names f path := by
  induction f generalizing place names with
  | empty =>
      simp [filesBelow, not_isIgnoreFile_empty]
  | file name bytes later ih =>
      rcases hf with ⟨hname, hlater⟩
      rw [show Folder.file name bytes later = .cons name (.file bytes) later from rfl,
        isIgnoreFile_cons_iff hname, ← @ih place names hlater]
      show path ∈ (if name = fileName then [names ++ [name]] else []) ++
        filesBelow links place names later ↔ _
      by_cases hfile : name = fileName <;> simp [hfile]
  | folder name inside later ihInside ihLater =>
      rcases hf with ⟨hname, hinside, hlater⟩
      rw [show Folder.folder name inside later = .cons name (.folder inside) later from rfl,
        isIgnoreFile_cons_iff hname, ← @ihLater place names hlater]
      show path ∈ (if name = fileName then [names ++ [name]] else []) ++
        filesBelow links (place.enter name inside) (names ++ [name]) inside ++
        filesBelow links place names later ↔ _
      by_cases hfile : name = fileName <;> simp [hfile, ihInside hinside]
  | link name target later ih =>
      exact hf.elim

theorem exists_of_mem_filesBelow {links : Nat} {place : Place} {names path : List Text}
    {f : Folder} (hf : f.IsTree) (h : path ∈ filesBelow links place names f) :
    ∃ name more, path = names ++ name :: more ∧ name ∈ f.entryNames := by
  rcases (mem_filesBelow_iff hf).mp h with ⟨rest, hpath, hfound, _⟩
  rcases Option.isSome_iff_exists.mp hfound with ⟨isFolder, hfound⟩
  rcases exists_of_isFolderAt? hfound with ⟨name, more, rfl, hname⟩
  exact ⟨name, more, hpath, hname⟩

theorem ne_of_mem_filesBelow {links : Nat} {place : Place} {names more path : List Text}
    {name : Text} {later : Folder} (hlater : later.IsTree) (hname : name ∉ later.entryNames)
    (h : path ∈ filesBelow links place names later) : names ++ name :: more ≠ path := by
  intro heq
  rcases exists_of_mem_filesBelow hlater h with ⟨other, _, hpath, hother⟩
  rw [hpath] at heq
  have hsame := (List.cons.inj (List.append_cancel_left heq)).1
  exact hname (hsame ▸ hother)

theorem nodup_filesBelow (links : Nat) (place : Place) (names : List Text) {f : Folder}
    (hf : f.IsTree) : (filesBelow links place names f).Nodup := by
  induction f generalizing place names with
  | empty =>
      exact List.nodup_nil
  | file name bytes later ih =>
      rcases hf with ⟨hname, hlater⟩
      show ((if name = fileName then [names ++ [name]] else []) ++
        filesBelow links place names later).Nodup
      split
      · exact List.nodup_cons.mpr ⟨fun hmem => ne_of_mem_filesBelow hlater hname hmem rfl,
          ih place names hlater⟩
      · exact ih place names hlater
  | folder name inside later ihInside ihLater =>
      rcases hf with ⟨hname, hinside, hlater⟩
      have hboth : (filesBelow links (place.enter name inside) (names ++ [name]) inside ++
          filesBelow links place names later).Nodup := by
        apply List.nodup_append.mpr
        refine ⟨ihInside _ _ hinside, ihLater _ _ hlater, ?_⟩
        intro path hpath other hother heq
        rcases exists_of_mem_filesBelow hinside hpath with ⟨next, more, rfl, _⟩
        rw [List.append_assoc] at heq
        exact ne_of_mem_filesBelow hlater hname hother heq
      show ((if name = fileName then [names ++ [name]] else []) ++
        filesBelow links (place.enter name inside) (names ++ [name]) inside ++
        filesBelow links place names later).Nodup
      split
      · apply List.nodup_cons.mpr
        refine ⟨?_, hboth⟩
        intro hmem
        rcases List.mem_append.mp hmem with hmem | hmem
        · rcases exists_of_mem_filesBelow hinside hmem with ⟨next, more, hpath, _⟩
          rw [List.append_assoc] at hpath
          cases List.append_cancel_left hpath
        · exact ne_of_mem_filesBelow hlater hname hmem rfl
      · exact hboth
  | link name target later ih =>
      exact hf.elim

theorem mem_filesOf_iff (h : d.HoldsTree root tree) {files : List (List Text)}
    (hfiles : filesOf d root = .ok files) {path : List Text} :
    path ∈ files ↔ IsIgnoreFile [] tree path := by
  rcases h.found with ⟨place, links, hfolder, htree⟩
  unfold filesOf at hfiles
  rw [hfolder] at hfiles
  cases hfiles
  rw [htree, ← mem_filesBelow_iff h.isTree]
  exact (List.mergeSort_perm _ _).mem_iff

theorem collectLines_congr {files : List (List Text)}
    (h : ∀ names ∈ files, d.readText (root.below names) = d'.readText (root.below names)) :
    collectLines d root files = collectLines d' root files := by
  induction files with
  | nil =>
      rfl
  | cons names others ih =>
      rcases List.forall_mem_cons.mp h with ⟨hfirst, hothers⟩
      rw [collectLines_cons, collectLines_cons, ih hothers]
      unfold scopedLines
      rw [hfirst]

/-!
# The same rules
-/

section Same

variable (h : d.HoldsTree root tree) (h' : d'.HoldsTree root tree')
  (hsame : tree.SameBut target tree')

include h h' hsame

theorem filesOf_eq_of_sameBut : filesOf d root = filesOf d' root := by
  rcases h.found with ⟨place, links, hfolder, htree⟩
  rcases h'.found with ⟨place', links', hfolder', htree'⟩
  unfold filesOf
  rw [hfolder, hfolder']
  show Except.ok (Path.sortNames (filesBelow links place [] place.current)) =
    .ok (Path.sortNames (filesBelow links' place' [] place'.current))
  rw [htree, htree', Path.sortNames_eq_of_perm]
  apply (List.perm_ext_iff_of_nodup (nodup_filesBelow _ _ _ h.isTree)
    (nodup_filesBelow _ _ _ h'.isTree)).mpr
  intro path
  rw [mem_filesBelow_iff h.isTree, mem_filesBelow_iff h'.isTree]
  unfold IsIgnoreFile
  simp only [hsame.isFolderAt?]

theorem readText_eq_of_sameBut {path : List Text} (hne : path ≠ target)
    (hpath : (tree.isFolderAt? path).isSome = true) :
    d.readText (root.below path) = d'.readText (root.below path) := by
  rcases Option.isSome_iff_exists.mp hpath with ⟨isFolder, hfound⟩
  rcases exists_entryAt?_of_isFolderAt? hfound with ⟨entry, hentry, _⟩
  rcases hsame.read_eq hne hentry with ⟨other, hother, hread⟩
  rw [h.readText_below hentry, h'.readText_below hother]
  unfold Disk.textAt
  rw [hread]

theorem linesOf_eq_of_sameBut (htarget : target.getLast? ≠ some fileName) :
    linesOf d root = linesOf d' root := by
  have hfiles := filesOf_eq_of_sameBut h h' hsame
  unfold linesOf
  rw [← hfiles]
  cases hfound : filesOf d root with
  | error fault =>
      rfl
  | ok files =>
      apply collectLines_congr
      intro names hnames
      rcases (mem_filesOf_iff h hfound).mp hnames with ⟨rest, rfl, hpath, hlast⟩
      apply readText_eq_of_sameBut h h' hsame _ hpath
      intro heq
      exact htarget (heq ▸ hlast)

/-- The bytes of a file that is no ignore file do not matter for the rules. -/
theorem load_eq_of_sameBut (htarget : target.getLast? ≠ some fileName) :
    load d root = load d' root := by
  rw [load_eq_match, load_eq_match, linesOf_eq_of_sameBut h h' hsame htarget]

end Same

theorem IsSource.getLast?_ne {rules : IgnoreRules} (h : rules.IsSource tree target) :
    target.getLast? ≠ some fileName := by
  intro hlast
  have hending := h.hasEnding
  rw [hlast] at hending
  revert hending
  decide

end IgnoreRules

theorem discover_eq_of_sameBut {d d' : Disk} {root : Path} {tree tree' : Folder}
    {target : List Text} (h : d.HoldsTree root tree) (h' : d'.HoldsTree root tree')
    (hsame : tree.SameBut target tree') (rules : IgnoreRules) :
    discover d rules root = discover d' rules root := by
  rcases h.found with ⟨place, links, hfolder, rfl⟩
  rcases h'.found with ⟨place', links', hfolder', rfl⟩
  exact discover_eq_of_same_entries (Disk.list_of_folder? hfolder) (Disk.list_of_folder? hfolder')
    h.isTree h'.isTree rules hsame.isFolderAt?

end SourceAudit
