import SourceAudit.Discovery
import SourceAudit.Proofs.Files.Order

/-!
# What the walk finds

## Entries met on the way

In a tree without links the walk meets the entries whose enclosing folders are all entered, each of
them once.  The sources and the number of ignored entries can be read off the entries that are met,
and whether an entry is met depends on its path alone.  So nothing depends on the order in which the
folders are listed.
-/

namespace SourceAudit

/-!
# Entries of a tree
-/

def Entry.isFolder : Entry → Bool
  | .folder _ => true
  | .file _ => false
  | .link _ => false

namespace Folder

def entryNames : Folder → List Text
  | empty => []
  | file name _ later => name :: later.entryNames
  | folder name _ later => name :: later.entryNames
  | link name _ later => name :: later.entryNames

/-- A tree without links in which the entries of a folder have different names. -/
def IsTree : Folder → Prop
  | empty => True
  | file name _ later => name ∉ later.entryNames ∧ later.IsTree
  | folder name inside later => name ∉ later.entryNames ∧ inside.IsTree ∧ later.IsTree
  | link _ _ _ => False

def isFolderAt? : List Text → Folder → Option Bool
  | [], _ => none
  | [name], f => (f.find? name).map Entry.isFolder
  | name :: next :: later, f =>
      match f.find? name with
      | some (.folder inside) => inside.isFolderAt? (next :: later)
      | _ => none

variable {f g inside later : Folder} {name other : Text} {entry : Entry} {more path : List Text}
  {isFolder : Bool}

theorem find?_cons :
    (cons name entry later).find? other =
      if name = other then some entry else later.find? other := by
  cases entry <;> rfl

theorem mem_entryNames_of_find? (h : f.find? name = some entry) : name ∈ f.entryNames := by
  have hstep : ∀ {other : Text} {first : Entry} {later : Folder},
      (later.find? name = some entry → name ∈ later.entryNames) →
      (if other = name then some first else later.find? name) = some entry →
      name ∈ other :: later.entryNames := by
    intro other first later ih hfind
    by_cases hname : other = name
    · rw [hname]
      exact List.mem_cons_self
    · rw [if_neg hname] at hfind
      exact List.mem_cons_of_mem other (ih hfind)
  induction f with
  | empty =>
      cases h
  | file other bytes later ih =>
      exact hstep ih h
  | folder other inside later _ ih =>
      exact hstep ih h
  | link other target later ih =>
      exact hstep ih h

theorem isFolderAt?_congr (h : f.find? name = g.find? name) :
    f.isFolderAt? (name :: more) = g.isFolderAt? (name :: more) := by
  cases more with
  | nil =>
      unfold isFolderAt?
      rw [h]
  | cons next later =>
      unfold isFolderAt?
      rw [h]

theorem find?_cons_self : (cons name entry later).find? name = some entry := by
  rw [find?_cons, if_pos rfl]

theorem isFolderAt?_cons_self :
    (cons name entry later).isFolderAt? [name] = some entry.isFolder := by
  unfold isFolderAt?
  rw [find?_cons_self]
  rfl

theorem isFolderAt?_cons_of_ne (hne : name ≠ other) :
    (cons name entry later).isFolderAt? (other :: more) =
      later.isFolderAt? (other :: more) := by
  apply isFolderAt?_congr
  rw [find?_cons, if_neg hne]

theorem exists_of_isFolderAt? (h : f.isFolderAt? path = some isFolder) :
    ∃ name more, path = name :: more ∧ name ∈ f.entryNames := by
  rcases path with _ | ⟨name, more⟩
  · cases h
  · cases hfind : f.find? name with
    | none =>
        cases more with
        | nil =>
            simp [isFolderAt?, hfind] at h
        | cons next later =>
            simp [isFolderAt?, hfind] at h
    | some entry =>
        exact ⟨name, more, rfl, mem_entryNames_of_find? hfind⟩

theorem isFolderAt?_cons_iff (hfind : f.find? name = some entry) (hmore : more ≠ []) :
    f.isFolderAt? (name :: more) = some isFolder ↔
      ∃ inside, entry = .folder inside ∧ inside.isFolderAt? more = some isFolder := by
  rcases more with _ | ⟨next, later⟩
  · exact absurd rfl hmore
  · show (match f.find? name with
      | some (.folder inside) => inside.isFolderAt? (next :: later)
      | _ => none) = some isFolder ↔ _
    rw [hfind]
    cases entry <;> simp

end Folder

/-!
# Entries that are met
-/

namespace IgnoreRules

/-- Whether a folder is entered. -/
def Enters (rules : IgnoreRules) (path : List Text) : Prop :=
  path.getLast? ≠ some Survey.controlFolder ∧
    rules.isIgnored (Path.joinNames path) true = false

instance (rules : IgnoreRules) (path : List Text) : Decidable (rules.Enters path) :=
  inferInstanceAs (Decidable (_ ∧ _))

/-- Whether all folders are entered that lead from a folder to a path below it. -/
def Reaches (rules : IgnoreRules) (around path : List Text) : Prop :=
  ∀ front back, path = front ++ back → front ≠ [] → back ≠ [] → rules.Enters (around ++ front)

/-- Whether a path is that of a source that the walk has to find: an entry with the right ending
that is no folder and is not ignored, and to which only folders lead that are entered. -/
structure IsSource (rules : IgnoreRules) (tree : Folder) (path : List Text) : Prop where
  isFile : tree.isFolderAt? path = some false
  hasEnding : path.getLast?.any (Path.hasEnding Survey.sourceEnding) = true
  kept : rules.isIgnored (Path.joinNames path) false = false
  reached : rules.Reaches [] path

/-- Whether a path is that of an entry that the walk has to count: one that is ignored and is no
folder of a version control system, and to which only folders lead that are entered. -/
def IsSkipped (rules : IgnoreRules) (tree : Folder) (path : List Text) : Prop :=
  ∃ isFolder, tree.isFolderAt? path = some isFolder ∧
    rules.isIgnored (Path.joinNames path) isFolder = true ∧
    (isFolder = true → path.getLast? ≠ some Survey.controlFolder) ∧ rules.Reaches [] path

variable {rules : IgnoreRules} {around more : List Text} {name : Text}

theorem reaches_singleton : rules.Reaches around [name] := by
  intro front back hsplit hfront hback
  rcases List.append_eq_singleton_iff.mp hsplit.symm with ⟨hnil, _⟩ | ⟨_, hnil⟩
  · exact absurd hnil hfront
  · exact absurd hnil hback

theorem reaches_cons_iff (hmore : more ≠ []) :
    rules.Reaches around (name :: more) ↔
      rules.Enters (around ++ [name]) ∧ rules.Reaches (around ++ [name]) more := by
  constructor
  · intro h
    constructor
    · exact h [name] more rfl (by simp) hmore
    · intro front back hsplit _ hback
      rw [List.append_assoc]
      exact h (name :: front) back (by rw [hsplit, List.cons_append]) (by simp) hback
  · intro h front back hsplit hfront hback
    rcases front with _ | ⟨first, front⟩
    · exact absurd rfl hfront
    · rcases List.cons.inj hsplit with ⟨rfl, hrest⟩
      by_cases hnil : front = []
      · rw [hnil]
        exact h.1
      · have hinner := h.2 front back hrest hnil hback
        rw [List.append_assoc] at hinner
        exact hinner

end IgnoreRules

namespace Survey

variable {rules : IgnoreRules}

/-- The paths of the entries that a walk meets, each with whether it is a folder. -/
def visits (rules : IgnoreRules) (names : List Text) : Folder → List (List Text × Bool)
  | .empty => []
  | .file name _ later => (names ++ [name], false) :: visits rules names later
  | .folder name inside later =>
      (names ++ [name], true) ::
        ((if rules.Enters (names ++ [name]) then visits rules (names ++ [name]) inside else []) ++
          visits rules names later)
  | .link name _ later => (names ++ [name], false) :: visits rules names later

/-- Whether an entry is met at a path, behind the names of the folder that is walked. -/
def Meets (rules : IgnoreRules) (names : List Text) (f : Folder) (met : List Text × Bool) : Prop :=
  ∃ rest, met.1 = names ++ rest ∧ f.isFolderAt? rest = some met.2 ∧ rules.Reaches names rest

theorem not_meets_empty {names : List Text} {met : List Text × Bool} :
    ¬Meets rules names .empty met := by
  intro h
  rcases h with ⟨rest, _, hrest, _⟩
  rcases Folder.exists_of_isFolderAt? hrest with ⟨_, _, _, hname⟩
  cases hname

theorem meets_cons_iff {names : List Text} {name : Text} {entry : Entry} {later : Folder}
    (hname : name ∉ later.entryNames) {met : List Text × Bool} :
    Meets rules names (.cons name entry later) met ↔
      met = (names ++ [name], entry.isFolder) ∨
      (∃ inside, entry = .folder inside ∧ rules.Enters (names ++ [name]) ∧
        Meets rules (names ++ [name]) inside met) ∨
      Meets rules names later met := by
  rcases met with ⟨path, isFolder⟩
  constructor
  · intro h
    rcases h with ⟨rest, hpath, hrest, hreach⟩
    rcases Folder.exists_of_isFolderAt? hrest with ⟨other, more, rfl, _⟩
    by_cases hother : name = other
    · rw [← hother] at hpath hrest hreach
      by_cases hmore : more = []
      · left
        rw [hmore] at hpath hrest
        rw [Folder.isFolderAt?_cons_self] at hrest
        rw [show path = names ++ [name] from hpath, Option.some.inj hrest]
      · right
        left
        rcases (Folder.isFolderAt?_cons_iff Folder.find?_cons_self hmore).mp hrest with
          ⟨inside, hentry, hinside⟩
        rcases (IgnoreRules.reaches_cons_iff hmore).mp hreach with ⟨henters, hreaches⟩
        refine ⟨inside, hentry, henters, more, ?_, hinside, hreaches⟩
        rw [show path = names ++ name :: more from hpath, List.append_assoc]
        rfl
    · right
      right
      rw [Folder.isFolderAt?_cons_of_ne hother] at hrest
      exact ⟨other :: more, hpath, hrest, hreach⟩
  · intro h
    rcases h with hhere | ⟨inside, rfl, henters, more, hpath, hinside, hreach⟩ |
      ⟨rest, hpath, hrest, hreach⟩
    · cases hhere
      exact ⟨[name], rfl, Folder.isFolderAt?_cons_self, IgnoreRules.reaches_singleton⟩
    · have hmore : more ≠ [] := by
        rcases Folder.exists_of_isFolderAt? hinside with ⟨_, _, rfl, _⟩
        exact List.cons_ne_nil _ _
      refine ⟨name :: more, ?_, ?_, (IgnoreRules.reaches_cons_iff hmore).mpr ⟨henters, hreach⟩⟩
      · rw [hpath, List.append_assoc]
        rfl
      · exact (Folder.isFolderAt?_cons_iff Folder.find?_cons_self hmore).mpr
          ⟨inside, rfl, hinside⟩
    · refine ⟨rest, hpath, ?_, hreach⟩
      rcases Folder.exists_of_isFolderAt? hrest with ⟨other, more, rfl, hother⟩
      rw [Folder.isFolderAt?_cons_of_ne]
      · exact hrest
      · intro heq
        exact hname (heq ▸ hother)

theorem mem_visits_iff {names : List Text} {f : Folder} (hf : f.IsTree)
    {met : List Text × Bool} : met ∈ visits rules names f ↔ Meets rules names f met := by
  induction f generalizing names with
  | empty =>
      simp [visits, not_meets_empty]
  | file name bytes later ih =>
      rcases hf with ⟨hname, hlater⟩
      rw [show Folder.file name bytes later = .cons name (.file bytes) later from rfl,
        meets_cons_iff hname, ← ih hlater]
      show met ∈ (names ++ [name], false) :: visits rules names later ↔ _
      simp [Entry.isFolder]
  | folder name inside later ihInside ihLater =>
      rcases hf with ⟨hname, hinside, hlater⟩
      rw [show Folder.folder name inside later = .cons name (.folder inside) later from rfl,
        meets_cons_iff hname, ← ihLater hlater]
      show met ∈ (names ++ [name], true) :: ((if rules.Enters (names ++ [name]) then
        visits rules (names ++ [name]) inside else []) ++ visits rules names later) ↔ _
      by_cases henters : rules.Enters (names ++ [name])
      · simp [Entry.isFolder, henters, ihInside hinside]
      · simp [Entry.isFolder, henters]
  | link name target later ih =>
      exact hf.elim

theorem exists_of_mem_visits {names : List Text} {f : Folder} (hf : f.IsTree)
    {met : List Text × Bool} (h : met ∈ visits rules names f) :
    ∃ name more, met.1 = names ++ name :: more ∧ name ∈ f.entryNames := by
  rcases (mem_visits_iff hf).mp h with ⟨rest, hpath, hrest, _⟩
  rcases Folder.exists_of_isFolderAt? hrest with ⟨name, more, rfl, hname⟩
  exact ⟨name, more, hpath, hname⟩

theorem ne_of_mem_visits {names more : List Text} {name : Text} {later : Folder}
    (hname : name ∉ later.entryNames) (hlater : later.IsTree) {other : List Text × Bool}
    (hother : other ∈ visits rules names later) : names ++ name :: more ≠ other.1 := by
  intro heq
  rcases exists_of_mem_visits hlater hother with ⟨otherName, _, hpath, hmem⟩
  rw [hpath] at heq
  have hsame := (List.cons.inj (List.append_cancel_left heq)).1
  exact hname (hsame ▸ hmem)

theorem pairwise_visits (names : List Text) {f : Folder} (hf : f.IsTree) :
    (visits rules names f).Pairwise fun met other => met.1 ≠ other.1 := by
  induction f generalizing names with
  | empty =>
      exact List.Pairwise.nil
  | file name bytes later ih =>
      rcases hf with ⟨hname, hlater⟩
      exact List.pairwise_cons.mpr ⟨fun _ => ne_of_mem_visits hname hlater, ih names hlater⟩
  | folder name inside later ihInside ihLater =>
      rcases hf with ⟨hname, hinside, hlater⟩
      have hinner : ∀ met ∈ (if rules.Enters (names ++ [name]) then
          visits rules (names ++ [name]) inside else []),
          ∃ next more, met.1 = names ++ name :: next :: more := by
        intro met hmet
        split at hmet
        · rcases exists_of_mem_visits hinside hmet with ⟨next, more, hpath, _⟩
          exact ⟨next, more, by rw [hpath, List.append_assoc]; rfl⟩
        · cases hmet
      apply List.pairwise_cons.mpr
      constructor
      · intro other hother heq
        rcases List.mem_append.mp hother with hother | hother
        · rcases hinner other hother with ⟨next, more, hpath⟩
          rw [hpath] at heq
          have hcons := List.append_cancel_left heq
          cases hcons
        · exact ne_of_mem_visits hname hlater hother heq
      · apply List.pairwise_append.mpr
        refine ⟨?_, ihLater names hlater, ?_⟩
        · split
          · exact ihInside (names ++ [name]) hinside
          · exact List.Pairwise.nil
        · intro met hmet other hother heq
          rcases hinner met hmet with ⟨next, more, hpath⟩
          rw [hpath] at heq
          exact ne_of_mem_visits hname hlater hother heq
  | link name target later ih =>
      exact hf.elim

/-!
# The survey of the entries that are met
-/

def isKept (rules : IgnoreRules) (met : List Text × Bool) : Bool :=
  !met.2 && met.1.getLast?.any (Path.hasEnding sourceEnding) &&
    !rules.isIgnored (Path.joinNames met.1) false

def isCounted (rules : IgnoreRules) (met : List Text × Bool) : Bool :=
  rules.isIgnored (Path.joinNames met.1) met.2 &&
    !(met.2 && decide (met.1.getLast? = some controlFolder))

def tally (rules : IgnoreRules) (mets : List (List Text × Bool)) : Survey where
  files := (mets.filter (isKept rules)).map Prod.fst
  ignored := mets.countP (isCounted rules)

theorem tally_append (mets others : List (List Text × Bool)) :
    tally rules (mets ++ others) = (tally rules mets).and (tally rules others) := by
  unfold tally Survey.and
  rw [List.filter_append, List.map_append, List.countP_append]

theorem ofFile_eq_tally (names : List Text) (name : Text) :
    ofFile rules names name = tally rules [(names ++ [name], false)] := by
  unfold ofFile
  cases hignored : rules.isIgnored (Path.joinNames (names ++ [name])) false with
  | true =>
      simp [tally, isKept, isCounted, hignored]
  | false =>
      cases hending : Path.hasEnding sourceEnding name with
      | true =>
          simp [tally, isKept, isCounted, hignored, hending]
      | false =>
          simp [tally, isKept, isCounted, hignored, hending, none]

theorem ofFolder_eq_tally (names : List Text) (name : Text)
    {mets : List (List Text × Bool)} {inside : Unit → Survey}
    (hinside : inside () = tally rules mets) :
    ofFolder rules names name inside =
      tally rules ((names ++ [name], true) ::
        if rules.Enters (names ++ [name]) then mets else []) := by
  have hfolder : tally rules [(names ++ [name], true)] =
      { files := []
        ignored := if isCounted rules (names ++ [name], true) then 1 else 0 } := by
    simp [tally, isKept, List.countP_cons]
  rw [← List.singleton_append, tally_append, hfolder]
  unfold ofFolder
  by_cases hcontrol : name = controlFolder
  · have henters : ¬rules.Enters (names ++ [name]) := by
      simp [IgnoreRules.Enters, hcontrol]
    rw [if_pos hcontrol, if_neg henters]
    simp [isCounted, hcontrol, none, tally, Survey.and]
  · cases hignored : rules.isIgnored (Path.joinNames (names ++ [name])) true with
    | true =>
        have henters : ¬rules.Enters (names ++ [name]) := by
          simp [IgnoreRules.Enters, hignored]
        rw [if_neg hcontrol, if_pos rfl, if_neg henters]
        simp [isCounted, hcontrol, hignored, tally, Survey.and]
    | false =>
        have henters : rules.Enters (names ++ [name]) := by
          simp [IgnoreRules.Enters, hcontrol, hignored]
        rw [if_neg hcontrol, if_neg Bool.false_ne_true, if_pos henters, hinside]
        simp [isCounted, hignored, Survey.and]

theorem walk_eq_tally (atLink : Place → List Text → Text → Text → Survey) (place : Place)
    (names : List Text) {f : Folder} (hf : f.IsTree) :
    walk rules atLink place names f = tally rules (visits rules names f) := by
  induction f generalizing place names with
  | empty =>
      rfl
  | file name bytes later ih =>
      show (ofFile rules names name).and (walk rules atLink place names later) = _
      rw [ih place names hf.2, ofFile_eq_tally, ← tally_append]
      rfl
  | folder name inside later ihInside ihLater =>
      rcases hf with ⟨_, hinside, hlater⟩
      show (ofFolder rules names name _).and (walk rules atLink place names later) = _
      rw [ihLater place names hlater, ofFolder_eq_tally names name (ihInside _ _ hinside),
        ← tally_append]
      rfl
  | link name target later ih =>
      exact hf.elim

theorem isKept_iff {tree : Folder} {met : List Text × Bool}
    (hmeets : Meets rules [] tree met) :
    isKept rules met = true ↔ met.2 = false ∧ rules.IsSource tree met.1 := by
  rcases met with ⟨path, isFolder⟩
  rcases hmeets with ⟨rest, hpath, hrest, hreach⟩
  rw [← show path = rest from hpath] at hrest hreach
  simp only [isKept, Bool.and_eq_true, Bool.not_eq_true']
  constructor
  · intro h
    rcases h with ⟨⟨rfl, hending⟩, hkept⟩
    exact ⟨rfl, hrest, hending, hkept, hreach⟩
  · intro h
    exact ⟨⟨h.1, h.2.hasEnding⟩, h.2.kept⟩

theorem meets_of_reaches {tree : Folder} {path : List Text} {isFolder : Bool}
    (hfound : tree.isFolderAt? path = some isFolder) (hreach : rules.Reaches [] path) :
    Meets rules [] tree (path, isFolder) :=
  ⟨path, rfl, hfound, hreach⟩

theorem mem_files_tally_iff {tree : Folder} (htree : tree.IsTree) {path : List Text} :
    path ∈ (tally rules (visits rules [] tree)).files ↔ rules.IsSource tree path := by
  unfold tally
  rw [List.mem_map]
  constructor
  · intro h
    rcases h with ⟨met, hmet, rfl⟩
    rcases List.mem_filter.mp hmet with ⟨hvisit, hkept⟩
    exact ((isKept_iff ((mem_visits_iff htree).mp hvisit)).mp hkept).2
  · intro h
    have hmeets := meets_of_reaches h.isFile h.reached
    refine ⟨(path, false), List.mem_filter.mpr ⟨(mem_visits_iff htree).mpr hmeets, ?_⟩, rfl⟩
    exact (isKept_iff hmeets).mpr ⟨rfl, h⟩

theorem mem_counted_iff {tree : Folder} (htree : tree.IsTree) {path : List Text} :
    path ∈ ((visits rules [] tree).filter (isCounted rules)).map Prod.fst ↔
      rules.IsSkipped tree path := by
  rw [List.mem_map]
  constructor
  · intro h
    rcases h with ⟨⟨path, isFolder⟩, hmet, rfl⟩
    rcases List.mem_filter.mp hmet with ⟨hvisit, hcounted⟩
    rcases (mem_visits_iff htree).mp hvisit with ⟨rest, hpath, hrest, hreach⟩
    rw [← show path = rest from hpath] at hrest hreach
    simp only [isCounted, Bool.and_eq_true, Bool.not_eq_true', Bool.and_eq_false_iff,
      decide_eq_false_iff_not] at hcounted
    refine ⟨isFolder, hrest, hcounted.1, ?_, hreach⟩
    intro hfolder
    exact hcounted.2.resolve_left (by simp [hfolder])
  · intro h
    rcases h with ⟨isFolder, hfound, hignored, hcontrol, hreach⟩
    refine ⟨(path, isFolder), List.mem_filter.mpr ⟨?_, ?_⟩, rfl⟩
    · exact (mem_visits_iff htree).mpr (meets_of_reaches hfound hreach)
    · cases isFolder with
      | false =>
          simp [isCounted, hignored]
      | true =>
          simp [isCounted, hignored, hcontrol rfl]

theorem nodup_map_filter_visits {tree : Folder} (htree : tree.IsTree)
    (holds : List Text × Bool → Bool) :
    (((visits rules [] tree).filter holds).map Prod.fst).Nodup :=
  List.pairwise_map.mpr ((pairwise_visits [] htree).filter holds)

end Survey

theorem Path.pairwise_namesBefore_sortNames {paths : List (List Text)} (h : paths.Nodup) :
    (Path.sortNames paths).Pairwise fun a b => Path.namesBefore a b = true := by
  have hnodup : (Path.sortNames paths).Nodup :=
    (List.mergeSort_perm paths _).nodup_iff.mpr h
  apply ((Path.pairwise_sortNames paths).and hnodup).imp
  intro a b hab
  rcases Path.isOrder_namesBefore.total a b with hbefore | heq | hbehind
  · exact hbefore
  · exact absurd heq hab.2
  · rw [hab.1] at hbehind
    cases hbehind

/-- Whether a survey is right for a tree: the files are the sources that a walk has to find, each of
them once and in the order of their paths, and as many entries are counted as a walk has to
count. -/
structure Survey.IsExact (survey : Survey) (rules : IgnoreRules) (tree : Folder) : Prop where
  sorted : survey.files.Pairwise fun a b => Path.namesBefore a b = true
  mem_files_iff : ∀ path, path ∈ survey.files ↔ rules.IsSource tree path
  counted : ∃ skipped : List (List Text), skipped.Nodup ∧
    (∀ path, path ∈ skipped ↔ rules.IsSkipped tree path) ∧ survey.ignored = skipped.length

namespace Survey

variable {rules : IgnoreRules}

theorem isExact_ofPlace {place : Place} (htree : place.current.IsTree) (links : Nat) :
    (ofPlace rules place links).IsExact rules place.current := by
  have hwalk : walk rules (atLink rules Disk.linkLimit links) place [] place.current =
      tally rules (visits rules [] place.current) :=
    walk_eq_tally _ place [] htree
  constructor
  · apply Path.pairwise_namesBefore_sortNames
    rw [hwalk]
    exact nodup_map_filter_visits htree _
  · intro path
    show path ∈ Path.sortNames (walk rules _ place [] place.current).files ↔ _
    rw [hwalk, ← mem_files_tally_iff htree]
    exact (List.mergeSort_perm _ _).mem_iff
  · refine ⟨_, nodup_map_filter_visits htree (isCounted rules), fun path =>
      mem_counted_iff htree, ?_⟩
    show (walk rules _ place [] place.current).ignored = _
    rw [hwalk, List.length_map, ← List.countP_eq_length_filter]
    rfl

theorem IsExact.nodup {survey : Survey} {tree : Folder} (h : survey.IsExact rules tree) :
    survey.files.Nodup := by
  apply h.sorted.imp
  intro a b hab heq
  rw [heq, Path.isOrder_namesBefore.irrefl] at hab
  cases hab

/-- Surveys that are right for trees of the same entries are the same. -/
theorem IsExact.unique {survey survey' : Survey} {tree tree' : Folder}
    (h : survey.IsExact rules tree) (h' : survey'.IsExact rules tree')
    (hsame : ∀ path, tree.isFolderAt? path = tree'.isFolderAt? path) : survey = survey' := by
  have hsource : ∀ path, rules.IsSource tree path ↔ rules.IsSource tree' path := by
    intro path
    constructor
    · intro hpath
      exact ⟨hsame path ▸ hpath.isFile, hpath.hasEnding, hpath.kept, hpath.reached⟩
    · intro hpath
      exact ⟨(hsame path).symm ▸ hpath.isFile, hpath.hasEnding, hpath.kept, hpath.reached⟩
  have hskipped : ∀ path, rules.IsSkipped tree path ↔ rules.IsSkipped tree' path := by
    intro path
    unfold IgnoreRules.IsSkipped
    rw [hsame path]
  have hfiles : survey.files = survey'.files := by
    have hperm : survey.files.Perm survey'.files := by
      apply (List.perm_ext_iff_of_nodup h.nodup h'.nodup).mpr
      intro path
      rw [h.mem_files_iff, h'.mem_files_iff, hsource]
    apply hperm.eq_of_pairwise _ h.sorted h'.sorted
    intro a b _ _ hab hba
    rw [Path.isOrder_namesBefore.asymm hab] at hba
    cases hba
  have hignored : survey.ignored = survey'.ignored := by
    rcases h.counted with ⟨skipped, hdistinct, hmem, hcount⟩
    rcases h'.counted with ⟨skipped', hdistinct', hmem', hcount'⟩
    rw [hcount, hcount']
    apply List.Perm.length_eq
    apply (List.perm_ext_iff_of_nodup hdistinct hdistinct').mpr
    intro path
    rw [hmem, hmem', hskipped]
  rcases survey with ⟨files, ignored⟩
  rcases survey' with ⟨files', ignored'⟩
  rw [show files = files' from hfiles, show ignored = ignored' from hignored]

end Survey

/-- What is found in a tree without links is exactly what a walk has to find, in whatever order the
folders are listed. -/
theorem discover_exact {d : Disk} {root : Path} {place : Place} {links : Nat}
    (hlist : d.list root = .ok (place, links)) (htree : place.current.IsTree)
    (rules : IgnoreRules) :
    ∃ survey, discover d rules root = .ok survey ∧ survey.IsExact rules place.current := by
  refine ⟨Survey.ofPlace rules place links, ?_, Survey.isExact_ofPlace htree links⟩
  unfold discover
  rw [hlist]
  rfl

/-- A source behind its successor, an ignored folder with a source, and a folder of a version
control system. -/
theorem discover_exact_unordered_listing :
    let tree : Folder := .file ['c', '.', 'p', 'y'] []
      (.folder ['b'] (.file ['x', '.', 'p', 'y'] [] .empty)
        (.folder Survey.controlFolder .empty (.file ['a', '.', 'p', 'y'] [] .empty)))
    ∃ rules, IgnoreRules.ofLines [['b', '/']] = .ok rules ∧
      Disk.list ⟨tree, []⟩ ⟨[], []⟩ = .ok (⟨tree, []⟩, Disk.linkLimit) ∧ tree.IsTree ∧
      ∃ survey, discover ⟨tree, []⟩ rules ⟨[], []⟩ = .ok survey ∧
        survey.IsExact rules tree := by
  intro tree
  have hlist : Disk.list ⟨tree, []⟩ ⟨[], []⟩ = .ok (⟨tree, []⟩, Disk.linkLimit) := rfl
  have htree : tree.IsTree := by
    refine ⟨?_, ?_, ⟨?_, trivial⟩, ?_, trivial, ?_, trivial⟩ <;> decide
  exact ⟨_, rfl, hlist, htree, discover_exact hlist htree _⟩

/-- Trees of the same entries are surveyed alike, in whatever order their folders are listed. -/
theorem discover_eq_of_same_entries {d d' : Disk} {root root' : Path} {place place' : Place}
    {links links' : Nat} (hlist : d.list root = .ok (place, links))
    (hlist' : d'.list root' = .ok (place', links')) (htree : place.current.IsTree)
    (htree' : place'.current.IsTree) (rules : IgnoreRules)
    (hsame : ∀ path, place.current.isFolderAt? path = place'.current.isFolderAt? path) :
    discover d rules root = discover d' rules root' := by
  unfold discover
  rw [hlist, hlist']
  show Except.ok (Survey.ofPlace rules place links) = .ok (Survey.ofPlace rules place' links')
  rw [(Survey.isExact_ofPlace htree links).unique (Survey.isExact_ofPlace htree' links') hsame]

end SourceAudit
