import SourceAudit.Files.Reading
import SourceAudit.Proofs.Discovery.Pruning
import SourceAudit.Proofs.Discovery.Walk
import SourceAudit.Proofs.Files.Faults

/-!
# Trees on a disk

## Reading below a folder

A path below a folder is looked up from the folder on, however the folder itself is reached.  In a
tree without links the look-up goes through the folders that the names lead to.  So what is read at
a path below a folder depends on the entry at the path alone, except that a name can be too long to
be looked up.
-/

namespace SourceAudit

/-- Whether a look-up takes a name as it stands: it is neither empty nor made of dots that stand for
a folder, and it holds no null character. -/
def IsProperName (name : Text) : Prop :=
  name ≠ [] ∧ name ≠ ['.'] ∧ name ≠ ['.', '.'] ∧ '\x00' ∉ name

namespace Folder

def entryAt? : List Text → Folder → Option Entry
  | [], _ => none
  | [name], f => f.find? name
  | name :: next :: later, f =>
      match f.find? name with
      | some (.folder inside) => inside.entryAt? (next :: later)
      | _ => none

/-- Whether all entries of a folder and below have proper names. -/
def HasProperNames : Folder → Prop
  | empty => True
  | file name _ later => IsProperName name ∧ later.HasProperNames
  | folder name inside later =>
      IsProperName name ∧ inside.HasProperNames ∧ later.HasProperNames
  | link name _ later => IsProperName name ∧ later.HasProperNames

variable {f : Folder} {name : Text} {names : List Text} {entry : Entry}

theorem isFolderAt?_eq_map (path : List Text) (f : Folder) :
    f.isFolderAt? path = (f.entryAt? path).map Entry.isFolder := by
  induction path generalizing f with
  | nil =>
      rfl
  | cons name more ih =>
      cases more with
      | nil =>
          rfl
      | cons next later =>
          unfold isFolderAt? entryAt?
          cases f.find? name with
          | none =>
              rfl
          | some entry =>
              cases entry with
              | folder inside =>
                  exact ih inside
              | file bytes =>
                  rfl
              | link target =>
                  rfl

theorem exists_of_entryAt?_cons (h : f.entryAt? (name :: names) = some entry) :
    ∃ first, f.find? name = some first ∧
      ((names = [] ∧ entry = first) ∨
        ∃ inside, first = .folder inside ∧ inside.entryAt? names = some entry) := by
  cases names with
  | nil =>
      exact ⟨entry, h, Or.inl ⟨rfl, rfl⟩⟩
  | cons next later =>
      unfold entryAt? at h
      split at h
      · rename_i inside hfind
        exact ⟨.folder inside, hfind, Or.inr ⟨inside, rfl, h⟩⟩
      · cases h

theorem isProperName_of_find? (hnames : f.HasProperNames) (h : f.find? name = some entry) :
    IsProperName name := by
  have hstep : ∀ {other : Text} {first : Entry} {later : Folder}, IsProperName other →
      (later.find? name = some entry → IsProperName name) →
      (if other = name then some first else later.find? name) = some entry →
      IsProperName name := by
    intro other first later hother ih hfind
    by_cases hname : other = name
    · exact hname ▸ hother
    · rw [if_neg hname] at hfind
      exact ih hfind
  induction f with
  | empty =>
      cases h
  | file other bytes later ih =>
      exact hstep hnames.1 (ih hnames.2) h
  | folder other inside later _ ih =>
      exact hstep hnames.1 (ih hnames.2.2) h
  | link other target later ih =>
      exact hstep hnames.1 (ih hnames.2) h

theorem isTree_of_find? (htree : f.IsTree) (hnames : f.HasProperNames)
    (h : f.find? name = some entry) :
    (∀ target, entry ≠ .link target) ∧
      ∀ inside, entry = .folder inside → inside.IsTree ∧ inside.HasProperNames := by
  induction f with
  | empty =>
      cases h
  | file other bytes later ih =>
      unfold find? at h
      split at h
      · cases h
        exact ⟨by simp, by simp⟩
      · exact ih htree.2 hnames.2 h
  | folder other inside later _ ih =>
      unfold find? at h
      split at h
      · cases h
        refine ⟨by simp, ?_⟩
        intro same heq
        cases heq
        exact ⟨htree.2.1, hnames.2.1⟩
      · exact ih htree.2.2 hnames.2.2 h
  | link other target later ih =>
      exact htree.elim

theorem ne_nil_of_entryAt? (h : f.entryAt? names = some entry) : names ≠ [] := by
  intro hnil
  rw [hnil] at h
  cases h

theorem isProperName_of_entryAt? (htree : f.IsTree) (hnames : f.HasProperNames)
    (h : f.entryAt? names = some entry) : ∀ name ∈ names, IsProperName name := by
  induction names generalizing f with
  | nil =>
      intro name hname
      cases hname
  | cons first rest ih =>
      rcases exists_of_entryAt?_cons h with ⟨found, hfind, hlast⟩
      refine List.forall_mem_cons.mpr ⟨isProperName_of_find? hnames hfind, ?_⟩
      rcases hlast with ⟨rfl, _⟩ | ⟨inside, rfl, hinside⟩
      · simp
      · rcases (isTree_of_find? htree hnames hfind).2 inside rfl with ⟨htree', hnames'⟩
        exact ih htree' hnames' hinside

theorem ne_link_of_entryAt? (htree : f.IsTree) (hnames : f.HasProperNames)
    (h : f.entryAt? names = some entry) (target : Text) : entry ≠ .link target := by
  induction names generalizing f with
  | nil =>
      cases h
  | cons first rest ih =>
      rcases exists_of_entryAt?_cons h with ⟨found, hfind, hlast⟩
      have hfound := isTree_of_find? htree hnames hfind
      rcases hlast with ⟨_, rfl⟩ | ⟨inside, rfl, hinside⟩
      · exact hfound.1 target
      · exact ih (hfound.2 inside rfl).1 (hfound.2 inside rfl).2 hinside

theorem joinNames_ne_nil_of_entryAt? (htree : f.IsTree) (hnames : f.HasProperNames)
    (h : f.entryAt? names = some entry) : Path.joinNames names ≠ [] := by
  rcases List.exists_cons_of_ne_nil (ne_nil_of_entryAt? h) with ⟨name, more, rfl⟩
  rcases Path.exists_joinNames_eq name more with ⟨rest, hjoin⟩
  have hname := isProperName_of_entryAt? htree hnames h name List.mem_cons_self
  rw [hjoin]
  simp [hname.1]

end Folder

/-!
# Following names
-/

def Found.read : Found → Except FileFault (List UInt8)
  | .file _ _ bytes => .ok bytes
  | .folder _ => .error .isFolder
  | .absent _ _ => .error .missing

def Entry.read : Entry → Except FileFault (List UInt8)
  | .file bytes => .ok bytes
  | .folder _ => .error .isFolder
  | .link _ => .error .missing

namespace Place

variable {place q : Place} {names more : List Text} {entry : Entry}

theorem follow_cons {name : Text} (hname : IsProperName name) (later : List Text) :
    place.follow (name :: later) =
      if nameLimit < byteSize name then .error .nameTooLong
      else
        match place.current.find? name with
        | some (.folder inside) => (place.enter name inside).follow later
        | some (.file bytes) =>
            if later.isEmpty then .ok (.found (.file place name bytes)) else .error .notFolder
        | some (.link target) => .ok (.atLink place target later)
        | none =>
            if later.isEmpty then .ok (.found (.absent place name)) else .error .missing := by
  rcases hname with ⟨hnil, hdot, hdots, _⟩
  rw [follow, if_neg (by simp [hnil, hdot])]
  exact if_neg hdots

/-- In a tree without links an entry is found behind its names, if none of them is too long. -/
theorem follow_of_entryAt? (htree : place.current.IsTree)
    (hnames : place.current.HasProperNames) (h : place.current.entryAt? names = some entry) :
    (∃ name ∈ names, nameLimit < byteSize name) ∧ place.follow names = .error .nameTooLong ∨
      (¬∃ name ∈ names, nameLimit < byteSize name) ∧
        ∃ what, place.follow names = .ok (.found what) ∧ what.read = entry.read := by
  induction names generalizing place with
  | nil =>
      cases h
  | cons name later ih =>
      rcases Folder.exists_of_entryAt?_cons h with ⟨found, hfind, hlast⟩
      rw [follow_cons (Folder.isProperName_of_find? hnames hfind), hfind]
      simp only [List.mem_cons, exists_eq_or_imp]
      by_cases hlong : nameLimit < byteSize name
      · left
        exact ⟨Or.inl hlong, if_pos hlong⟩
      · rw [if_neg hlong]
        rcases hlast with ⟨rfl, rfl⟩ | ⟨inside, rfl, hinside⟩
        · right
          refine ⟨by simpa using hlong, ?_⟩
          cases entry with
          | file bytes =>
              exact ⟨_, rfl, rfl⟩
          | folder inside =>
              exact ⟨_, rfl, rfl⟩
          | link target =>
              exact absurd rfl ((Folder.isTree_of_find? htree hnames hfind).1 target)
        · rcases (Folder.isTree_of_find? htree hnames hfind).2 inside rfl with ⟨htree', hnames'⟩
          rcases ih (show (place.enter name inside).current.IsTree from htree') hnames' hinside with
            ⟨hmem, hfollow⟩ | ⟨hmem, hfollow⟩
          · left
            exact ⟨Or.inr hmem, hfollow⟩
          · right
            exact ⟨by simpa [hlong] using hmem, hfollow⟩

theorem follow_append {stop : Stop} (more : List Text) (h : place.follow names = .ok stop) :
    (∀ q, stop = .found (.folder q) → place.follow (names ++ more) = q.follow more) ∧
      ∀ q target later, stop = .atLink q target later →
        place.follow (names ++ more) = .ok (.atLink q target (later ++ more)) := by
  induction names generalizing place with
  | nil =>
      cases h
      constructor
      · intro q hq
        cases hq
        rfl
      · intro q target later hq
        cases hq
  | cons name later ih =>
      rw [List.cons_append]
      rw [follow] at h ⊢
      by_cases hskip : name = [] ∨ name = ['.']
      · rw [if_pos hskip] at h ⊢
        exact ih h
      · rw [if_neg hskip] at h ⊢
        by_cases hup : name = ['.', '.']
        · rw [if_pos hup] at h ⊢
          exact ih h
        · rw [if_neg hup] at h ⊢
          by_cases hlong : nameLimit < byteSize name
          · rw [if_pos hlong] at h
            cases h
          · rw [if_neg hlong] at h ⊢
            cases hfind : place.current.find? name with
            | none =>
                rw [hfind] at h
                dsimp only at h
                split at h
                · cases h
                  simp
                · cases h
            | some entry =>
                rw [hfind] at h
                cases entry with
                | folder inside =>
                    exact ih h
                | file bytes =>
                    dsimp only at h
                    split at h
                    · cases h
                      simp
                    · cases h
                | link target =>
                    cases h
                    simp

theorem resolve_append {links left : Nat} (more : List Text)
    (h : place.resolve links names = .ok (.folder q, left)) :
    place.resolve links (names ++ more) = q.resolve left more := by
  induction links generalizing place names with
  | zero =>
      unfold resolve at h
      cases hfollow : place.follow names with
      | error fault =>
          rw [hfollow] at h
          cases h
      | ok stop =>
          rw [hfollow] at h
          cases stop with
          | found what =>
              cases h
              unfold resolve
              rw [(follow_append more hfollow).1 q rfl]
          | atLink at' target later =>
              cases h
  | succ links ih =>
      unfold resolve at h
      cases hfollow : place.follow names with
      | error fault =>
          rw [hfollow] at h
          cases h
      | ok stop =>
          rw [hfollow] at h
          cases stop with
          | found what =>
              cases h
              unfold resolve
              rw [(follow_append more hfollow).1 q rfl]
          | atLink at' target later =>
              rw [resolve, (follow_append more hfollow).2 _ _ _ rfl]
              dsimp only at h ⊢
              rw [← List.append_assoc]
              exact ih h

end Place

/-!
# Reading below a folder
-/

namespace Disk

/-- Whether a path leads to a tree without links. -/
structure HoldsTree (d : Disk) (root : Path) (tree : Folder) : Prop where
  found : ∃ place links, d.folder? root = .ok (some (place, links)) ∧ place.current = tree
  isTree : tree.IsTree
  hasProperNames : tree.HasProperNames

/-- Whether one of the names of a path is too long to be looked up. -/
def HasLongName (names : List Text) : Prop :=
  ∃ name ∈ names, Place.nameLimit < Place.byteSize name

instance (names : List Text) : Decidable (HasLongName names) :=
  inferInstanceAs (Decidable (∃ name ∈ names, _))

def textAt (root : Path) (names : List Text) (entry : Entry) : Except ReadFault Text :=
  if HasLongName names then .error (.file .nameTooLong (root.below names))
  else
    match entry.read with
    | .error fault => .error (.file fault (root.below names))
    | .ok bytes => textOfBytes bytes

variable {d : Disk} {root : Path} {tree : Folder} {names : List Text} {entry : Entry}

theorem find_of_folder? {found : Place × Nat} (h : d.folder? root = .ok (some found)) :
    d.find root = .ok (.folder found.1, found.2) := by
  unfold folder? at h
  split at h
  · rename_i hresolve
    cases h
    exact find_of_resolve hresolve
  · cases h
  · split at h <;> cases h

/-- A path below a folder is looked up from the folder on. -/
theorem find_below {found : Place × Nat} (h : d.folder? root = .ok (some found))
    (hnames : ∀ name ∈ names, '\x00' ∉ name) :
    d.find (root.below names) = found.1.resolve found.2 names := by
  have hroot := find_of_folder? h
  have hnull : (root.below names).names.any (·.contains '\x00') =
      root.names.any (·.contains '\x00') := by
    have hnone : names.any (·.contains '\x00') = false := by
      rw [List.any_eq_false]
      intro name hname hcontains
      exact hnames name hname (List.contains_iff_mem.mp hcontains)
    show (root.names ++ names).any _ = _
    rw [List.any_append, hnone, Bool.or_false]
  unfold find at hroot ⊢
  rw [hnull]
  split at hroot
  · cases hroot
  · rename_i hplain
    rw [if_neg hplain]
    show (if root.top.isEmpty then d.top.resolve linkLimit (d.here ++ (root.names ++ names))
      else d.top.resolve linkLimit (root.names ++ names)) = _
    split at hroot
    · rename_i htop
      rw [if_pos htop, ← List.append_assoc]
      exact Place.resolve_append names hroot
    · rename_i htop
      rw [if_neg htop]
      exact Place.resolve_append names hroot

theorem HoldsTree.read_below (h : d.HoldsTree root tree)
    (hentry : tree.entryAt? names = some entry) :
    d.read (root.below names) =
      if HasLongName names then .error .nameTooLong else entry.read := by
  rcases h.found with ⟨place, links, hfolder, rfl⟩
  have hproper := Folder.isProperName_of_entryAt? h.isTree h.hasProperNames hentry
  unfold read
  rw [find_below hfolder fun name hname => (hproper name hname).2.2.2]
  unfold Place.resolve
  rcases Place.follow_of_entryAt? h.isTree h.hasProperNames hentry with
    ⟨hlong, hfollow⟩ | ⟨hshort, what, hfollow, hread⟩
  · rw [if_pos (show HasLongName names from hlong), hfollow]
  · rw [if_neg (show ¬HasLongName names from hshort), hfollow, ← hread]
    cases what <;> rfl

/-- The text at a path below a tree depends on the entry there alone. -/
theorem HoldsTree.readText_below (h : d.HoldsTree root tree)
    (hentry : tree.entryAt? names = some entry) :
    d.readText (root.below names) = textAt root names entry := by
  unfold readText textAt
  rw [h.read_below hentry]
  by_cases hlong : HasLongName names
  · rw [if_pos hlong, if_pos hlong]
  · rw [if_neg hlong]
    exact (if_neg hlong).symm

end Disk
end SourceAudit
