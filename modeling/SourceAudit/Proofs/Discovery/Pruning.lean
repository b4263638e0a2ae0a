import SourceAudit.Discovery
import SourceAudit.Proofs.Ignore.Heredity
import SourceAudit.Proofs.Text.Cut

/-!
# Pruning loses nothing

## The walk and the filter

The walk does not enter a folder that the rules ignore.  With rules that only ignore and hold no set
of characters, every file below such a folder is ignored on its own.  The walk then finds the same
sources as a filter on all files of the tree.
-/

namespace SourceAudit

/-- A name that an entry of a folder can have, without a line feed. -/
structure IsEntryName (name : Text) : Prop where
  ne_nil : name ≠ []
  ne_dot : name ≠ ['.']
  no_slash : '/' ∉ name
  no_feed : '\n' ∉ name

/-- A name in a path that is written with no more slashes and dots than it needs. -/
structure IsPathName (name : Text) : Prop where
  ne_nil : name ≠ []
  ne_dot : name ≠ ['.']
  no_slash : '/' ∉ name

theorem IsEntryName.isPathName {name : Text} (h : IsEntryName name) : IsPathName name :=
  ⟨h.ne_nil, h.ne_dot, h.no_slash⟩

/-!
# Paths of names
-/

namespace Path

theorem exists_joinNames_eq (name : Text) (names : List Text) :
    ∃ more, joinNames (name :: names) = name ++ more := by
  by_cases hnames : names = []
  · exact ⟨[], by rw [hnames, joinNames_singleton, List.append_nil]⟩
  · exact ⟨'/' :: joinNames names, joinNames_cons hnames⟩

theorem mem_joinNames {names : List Text} {c : Char} (h : c ∈ joinNames names) :
    c = '/' ∨ ∃ name ∈ names, c ∈ name := by
  induction names with
  | nil =>
      cases h
  | cons name rest ih =>
      by_cases hrest : rest = []
      · rw [hrest, joinNames_singleton] at h
        exact Or.inr ⟨name, List.mem_cons_self, h⟩
      · rw [joinNames_cons hrest] at h
        rcases List.mem_append.mp h with hname | hmore
        · exact Or.inr ⟨name, List.mem_cons_self, hname⟩
        · rcases List.mem_cons.mp hmore with hslash | hlater
          · exact Or.inl hslash
          · rcases ih hlater with hslash | ⟨other, hother, hc⟩
            · exact Or.inl hslash
            · exact Or.inr ⟨other, List.mem_cons_of_mem name hother, hc⟩

theorem joinNames_ne_nil {names : List Text} (hne : names ≠ [])
    (hnames : ∀ name ∈ names, IsPathName name) : joinNames names ≠ [] := by
  cases names with
  | nil =>
      exact absurd rfl hne
  | cons name rest =>
      rcases exists_joinNames_eq name rest with ⟨more, hmore⟩
      intro hnil
      rw [hmore] at hnil
      exact (hnames name List.mem_cons_self).ne_nil (List.append_eq_nil_iff.mp hnil).1

theorem getLast?_joinNames {names : List Text} (hnames : ∀ name ∈ names, IsPathName name) :
    ∀ c ∈ (joinNames names).getLast?, c ≠ '/' := by
  induction names with
  | nil =>
      intro c hc
      cases hc
  | cons name rest ih =>
      have hrestNames : ∀ other ∈ rest, IsPathName other :=
        fun other hother => hnames other (List.mem_cons_of_mem name hother)
      by_cases hrest : rest = []
      · rw [hrest, joinNames_singleton]
        intro c hc hslash
        rw [hslash] at hc
        exact (hnames name List.mem_cons_self).no_slash (List.mem_of_getLast? hc)
      · rw [joinNames_cons hrest, List.getLast?_append_of_ne_nil name (List.cons_ne_nil _ _),
          List.getLast?_cons_of_ne_nil (joinNames_ne_nil hrest hrestNames)]
        exact ih hrestNames

end Path

namespace IgnoreRules

/-!
# Rules on paths of names
-/

theorem relative_append {name : Text} (h : IsPathName name) (more : Text) :
    relative (name ++ more) = name ++ more := by
  rcases name with _ | ⟨first, rest⟩
  · exact absurd rfl h.ne_nil
  · have hfirst : first ≠ '/' := by
      intro hslash
      exact h.no_slash (hslash ▸ List.mem_cons_self)
    unfold relative
    split
    · rename_i heq
      exact absurd (List.cons.inj heq).1 hfirst
    · rename_i heq
      rcases rest with _ | ⟨second, later⟩
      · have hdot := (List.cons.inj heq).1
        exact absurd (by rw [hdot]) h.ne_dot
      · have hslash := (List.cons.inj (List.cons.inj heq).2).1
        have hmem : '/' ∈ first :: second :: later := by
          rw [← hslash]
          simp
        exact absurd hmem h.no_slash
    · rfl

theorem relative_joinNames {names : List Text} (hnames : ∀ name ∈ names, IsPathName name)
    (more : Text) (hne : names ≠ []) :
    relative (Path.joinNames names ++ more) = Path.joinNames names ++ more := by
  cases names with
  | nil =>
      exact absurd rfl hne
  | cons name rest =>
      rcases Path.exists_joinNames_eq name rest with ⟨later, hlater⟩
      rw [hlater, List.append_assoc]
      exact relative_append (hnames name List.mem_cons_self) (later ++ more)

theorem trimSlashes_joinNames {names : List Text} (hnames : ∀ name ∈ names, IsPathName name) :
    trimSlashes (Path.joinNames names) = Path.joinNames names := by
  have hhead : (Path.joinNames names).dropWhile (· == '/') = Path.joinNames names := by
    cases names with
    | nil =>
        rfl
    | cons name rest =>
        have hname := hnames name List.mem_cons_self
        rcases Path.exists_joinNames_eq name rest with ⟨later, hlater⟩
        rw [hlater]
        rcases name with _ | ⟨first, more⟩
        · exact absurd rfl hname.ne_nil
        · have hfirst : first ≠ '/' := by
            intro hslash
            exact hname.no_slash (hslash ▸ List.mem_cons_self)
          exact List.dropWhile_cons_of_neg (by simpa using hfirst)
  unfold trimSlashes
  rw [hhead]
  apply Text.dropEndWhile_eq_self
  intro c hc
  simpa using Path.getLast?_joinNames hnames c hc

theorem isIgnored_joinNames (rules : IgnoreRules) {names : List Text} (hne : names ≠ [])
    (hnames : ∀ name ∈ names, IsPathName name) (isFolder : Bool) :
    rules.isIgnored (Path.joinNames names) isFolder =
      (rules.ignoresPath (Path.joinNames names) ||
        (isFolder && rules.ignoresPath (Path.joinNames names ++ ['/']))) := by
  unfold isIgnored
  rw [trimSlashes_joinNames hnames]
  exact if_neg (by simpa using Path.joinNames_ne_nil hne hnames)

/-- Hereditary rules that ignore a folder ignore every file below it. -/
theorem IsHereditary.isIgnored_append {rules : IgnoreRules} (h : rules.IsHereditary)
    {names more : List Text} (hne : names ≠ []) (hmore : more ≠ [])
    (hnames : ∀ name ∈ names ++ more, IsEntryName name)
    (hfolder : rules.isIgnored (Path.joinNames names) true = true) :
    rules.isIgnored (Path.joinNames (names ++ more)) false = true := by
  have houter : ∀ name ∈ names, IsEntryName name :=
    fun name hname => hnames name (List.mem_append_left more hname)
  have hfeed : '\n' ∉ Path.joinNames names := by
    intro hmem
    rcases Path.mem_joinNames hmem with hslash | ⟨name, hname, hc⟩
    · cases hslash
    · exact (houter name hname).no_feed hc
  have hpath : ∀ name ∈ names ++ more, IsPathName name :=
    fun name hname => (hnames name hname).isPathName
  have houterPath : ∀ name ∈ names, IsPathName name :=
    fun name hname => (houter name hname).isPathName
  rw [isIgnored_joinNames rules (by simp [hne]) hpath]
  rw [isIgnored_joinNames rules hne houterPath] at hfolder
  simp only [Bool.true_and, Bool.or_eq_true, h.ignoresPath_iff] at hfolder
  rw [Bool.false_and, Bool.or_false, h.ignoresPath_iff]
  have hrelative := relative_joinNames houterPath ['/'] hne
  have hrelativeOwn := relative_joinNames houterPath [] hne
  have hrelativeBelow := relative_joinNames hpath [] (by simp [hne])
  rw [List.append_nil] at hrelativeOwn hrelativeBelow
  rw [hrelative, hrelativeOwn] at hfolder
  rw [hrelativeBelow, Path.joinNames_append hne hmore]
  rcases hfolder with ⟨rule, hrule, hhit⟩ | ⟨rule, hrule, hhit⟩
  · exact ⟨rule, hrule, h.hit_below rule hrule hfeed (Or.inl hhit) _⟩
  · exact ⟨rule, hrule, h.hit_below rule hrule hfeed (Or.inr hhit) _⟩

/-- Whether a path is that of a source that the rules let through and that lies in no folder of a
version control system. -/
def keepsSource (rules : IgnoreRules) (path : List Text) : Bool :=
  path.getLast?.any (Path.hasEnding Survey.sourceEnding) &&
    !path.dropLast.contains Survey.controlFolder &&
    !rules.isIgnored (Path.joinNames path) false

end IgnoreRules

/-!
# Files of a tree
-/

namespace Folder

/-- A tree without links whose entries have names without line feeds. -/
def IsPlain : Folder → Prop
  | empty => True
  | file name _ later => IsEntryName name ∧ later.IsPlain
  | folder name inside later => IsEntryName name ∧ inside.IsPlain ∧ later.IsPlain
  | link _ _ _ => False

def filePaths (names : List Text) : Folder → List (List Text)
  | empty => []
  | file name _ later => (names ++ [name]) :: later.filePaths names
  | folder name inside later => inside.filePaths (names ++ [name]) ++ later.filePaths names
  | link name _ later => (names ++ [name]) :: later.filePaths names

theorem exists_append_of_mem_filePaths {f : Folder} {names path : List Text} (hf : f.IsPlain)
    (h : path ∈ f.filePaths names) :
    ∃ more, more ≠ [] ∧ path = names ++ more ∧ ∀ name ∈ more, IsEntryName name := by
  induction f generalizing names with
  | empty =>
      cases h
  | file name bytes later ih =>
      rcases hf with ⟨hname, hlater⟩
      rcases List.mem_cons.mp h with hpath | hpath
      · refine ⟨[name], by simp, hpath, ?_⟩
        intro other hother
        rw [List.mem_singleton.mp hother]
        exact hname
      · exact ih hlater hpath
  | folder name inside later ihInside ihLater =>
      rcases hf with ⟨hname, hinside, hlater⟩
      rcases List.mem_append.mp h with hpath | hpath
      · rcases ihInside hinside hpath with ⟨more, _, hmore, hnames⟩
        refine ⟨name :: more, by simp, by simp [hmore], ?_⟩
        intro other hother
        rcases List.mem_cons.mp hother with hsame | hbelow
        · rw [hsame]
          exact hname
        · exact hnames other hbelow
      · exact ihLater hlater hpath
  | link name target later ih =>
      exact hf.elim

end Folder

/-!
# The walk
-/

namespace Survey

variable {rules : IgnoreRules}

theorem filter_filePaths_controlFolder {inside : Folder} (hinside : inside.IsPlain)
    (names : List Text) :
    (inside.filePaths (names ++ [controlFolder])).filter rules.keepsSource = [] := by
  apply List.filter_eq_nil_iff.mpr
  intro path hpath
  rcases Folder.exists_append_of_mem_filePaths hinside hpath with ⟨more, hmore, rfl, _⟩
  have hmem : (names ++ [controlFolder] ++ more).dropLast.contains controlFolder = true := by
    rw [List.dropLast_append_of_ne_nil hmore]
    simp
  unfold IgnoreRules.keepsSource
  rw [hmem]
  simp

theorem filter_filePaths_ignored (hrules : rules.IsHereditary) {inside : Folder}
    (hinside : inside.IsPlain) {names : List Text} (hne : names ≠ [])
    (hnames : ∀ name ∈ names, IsEntryName name)
    (hignored : rules.isIgnored (Path.joinNames names) true = true) :
    (inside.filePaths names).filter rules.keepsSource = [] := by
  apply List.filter_eq_nil_iff.mpr
  intro path hpath
  rcases Folder.exists_append_of_mem_filePaths hinside hpath with ⟨more, hmore, rfl, hbelow⟩
  have hall : ∀ name ∈ names ++ more, IsEntryName name := by
    intro name hname
    rcases List.mem_append.mp hname with hname | hname
    · exact hnames name hname
    · exact hbelow name hname
  simp [IgnoreRules.keepsSource, hrules.isIgnored_append hne hmore hall hignored]

theorem files_ofFile (names : List Text) (name : Text) (hcontrol : controlFolder ∉ names) :
    (ofFile rules names name).files = [names ++ [name]].filter rules.keepsSource := by
  unfold ofFile
  cases hignored : rules.isIgnored (Path.joinNames (names ++ [name])) false with
  | true =>
      simp [IgnoreRules.keepsSource, hignored]
  | false =>
      cases hending : Path.hasEnding sourceEnding name with
      | true =>
          simp [IgnoreRules.keepsSource, hignored, hending, hcontrol]
      | false =>
          simp [IgnoreRules.keepsSource, hignored, hending, none]

/-- The walk finds the files that the rules let through one by one. -/
theorem files_walk (hrules : rules.IsHereditary)
    (atLink : Place → List Text → Text → Text → Survey) (place : Place) {names : List Text}
    (hnames : ∀ name ∈ names, IsEntryName name) (hcontrol : controlFolder ∉ names) {f : Folder}
    (hf : f.IsPlain) :
    (walk rules atLink place names f).files = (f.filePaths names).filter rules.keepsSource := by
  induction f generalizing place names with
  | empty =>
      rfl
  | file name bytes later ih =>
      rcases hf with ⟨_, hlater⟩
      show (ofFile rules names name).files ++ (walk rules atLink place names later).files = _
      rw [files_ofFile names name hcontrol, ih place hnames hcontrol hlater, ← List.filter_append]
      rfl
  | folder name inside later ihInside ihLater =>
      rcases hf with ⟨hname, hinside, hlater⟩
      have hfolderNames : ∀ other ∈ names ++ [name], IsEntryName other := by
        intro other hother
        rcases List.mem_append.mp hother with hother | hother
        · exact hnames other hother
        · rw [List.mem_singleton.mp hother]
          exact hname
      have hfolder : (ofFolder rules names name fun _ =>
          walk rules atLink (place.enter name inside) (names ++ [name]) inside).files =
            (inside.filePaths (names ++ [name])).filter rules.keepsSource := by
        unfold ofFolder
        by_cases hgit : name = controlFolder
        · rw [if_pos hgit, hgit, filter_filePaths_controlFolder hinside]
          rfl
        · rw [if_neg hgit]
          by_cases hignored : rules.isIgnored (Path.joinNames (names ++ [name])) true = true
          · rw [if_pos hignored,
              filter_filePaths_ignored hrules hinside (by simp) hfolderNames hignored]
          · rw [if_neg hignored]
            apply ihInside _ hfolderNames _ hinside
            intro hmem
            rcases List.mem_append.mp hmem with hmem | hmem
            · exact hcontrol hmem
            · exact hgit (List.mem_singleton.mp hmem).symm
      show (ofFolder rules names name _).files ++ (walk rules atLink place names later).files = _
      rw [hfolder, ihLater place hnames hcontrol hlater, ← List.filter_append]
      rfl
  | link name target later ih =>
      exact hf.elim

end Survey

/-- In a tree without links, with rules of lines that are not negated and hold no set of characters,
the sources found are the files of the tree that the rules do not ignore, outside of the folders of
a version control system. -/
theorem files_discover {d : Disk} {root : Path} {place : Place} {links : Nat}
    (hlist : d.list root = .ok (place, links)) (htree : place.current.IsPlain)
    {lines : List Text} {rules : IgnoreRules} (hrules : IgnoreRules.ofLines lines = .ok rules)
    (hsign : ∀ line ∈ lines, line.head? ≠ some '!')
    (hset : ∀ line ∈ lines, IgnoreRule.lineHoldsSet line = false) :
    (discover d rules root).map Survey.files =
      .ok (Path.sortNames ((place.current.filePaths []).filter rules.keepsSource)) := by
  have hhereditary := IgnoreRules.isHereditary_of_ofLines hrules hsign hset
  unfold discover
  rw [hlist]
  show Except.ok (Path.sortNames (Survey.walk rules _ place [] place.current).files) = _
  rw [Survey.files_walk hhereditary _ place (by simp) (by simp) htree]

/-- A folder with a source, next to an ignored folder with another source. -/
theorem files_discover_ignored_folder :
    let tree : Folder := .folder ['b'] (.file ['x', '.', 'p', 'y'] [] .empty)
      (.file ['a', '.', 'p', 'y'] [] .empty)
    ∃ rules, IgnoreRules.ofLines [['b', '/']] = .ok rules ∧
      (discover ⟨tree, []⟩ rules ⟨[], []⟩).map Survey.files =
        .ok (Path.sortNames ((tree.filePaths []).filter rules.keepsSource)) ∧
      (tree.filePaths []).filter rules.keepsSource = [[['a', '.', 'p', 'y']]] := by
  intro tree
  have hfolder : IsEntryName ['b'] := ⟨by decide, by decide, by decide, by decide⟩
  have hinside : IsEntryName ['x', '.', 'p', 'y'] := ⟨by decide, by decide, by decide, by decide⟩
  have hsource : IsEntryName ['a', '.', 'p', 'y'] := ⟨by decide, by decide, by decide, by decide⟩
  have htree : tree.IsPlain := ⟨hfolder, ⟨hinside, trivial⟩, hsource, trivial⟩
  have hlist : Disk.list ⟨tree, []⟩ ⟨[], []⟩ = .ok (⟨tree, []⟩, Disk.linkLimit) := rfl
  have hsign : ∀ line ∈ [['b', '/']], line.head? ≠ some '!' := by
    decide
  have hset : ∀ line ∈ [['b', '/']], IgnoreRule.lineHoldsSet line = false := by
    decide
  refine ⟨_, rfl, ?_, rfl⟩
  exact files_discover hlist htree rfl hsign hset

end SourceAudit
