import SourceAudit.Proofs.Ignore.Rows

/-!
# Rows below a directory

## The same hits further down

A row with a directory in front hits a path exactly when the row without it hits the part of the
path below the directory.  This holds for clean paths: they have no empty names, save that they may
end in a slash, and no line feeds.  On clean paths the short rows for patterns such as `*` hit what
the rows of the general form hit.
-/

namespace SourceAudit

/-- A path without empty names, a slash at its end apart, and without line feeds. -/
def IsCleanPath (path : Text) : Prop :=
  [] ∉ (path.cutAt '/').dropLast ∧ '\n' ∉ path

theorem IsCleanPath.below {names : List Text} (hnames : names ≠ [])
    (hslash : ∀ name ∈ names, '/' ∉ name) {t : Text}
    (h : IsCleanPath (Path.joinNames names ++ '/' :: t)) : IsCleanPath t := by
  rcases h with ⟨hempty, hbreak⟩
  rw [Path.cutAt_joinNames_append hnames hslash,
    List.dropLast_append_of_ne_nil (Text.cutAt_ne_nil '/' t)] at hempty
  constructor
  · intro hmem
    exact hempty (List.mem_append_right names hmem)
  · intro hmem
    exact hbreak (List.mem_append_right _ (List.mem_cons_of_mem '/' hmem))

theorem isCleanPath_joinNames_append {names : List Text} (hnames : names ≠ [])
    (hne : ∀ name ∈ names, name ≠ []) (hslash : ∀ name ∈ names, '/' ∉ name)
    (hfeed : '\n' ∉ Path.joinNames names) {name : Text} (hname : '/' ∉ name)
    (hnameFeed : '\n' ∉ name) : IsCleanPath (Path.joinNames names ++ '/' :: name) := by
  constructor
  · rw [Path.cutAt_joinNames_append hnames hslash, Text.cutAt_of_not_mem hname,
      List.dropLast_concat]
    intro hmem
    exact hne [] hmem rfl
  · intro hmem
    rcases List.mem_append.mp hmem with hmem | hmem
    · exact hfeed hmem
    · rcases List.mem_cons.mp hmem with hsame | hmem
      · cases hsame
      · exact hnameFeed hmem

theorem IsCleanPath.exists_name {t : Text} (h : IsCleanPath t) (hne : t ≠ []) :
    ∃ name after, t = name ++ after ∧ name ≠ [] ∧ (∀ x ∈ name, x ≠ '/') ∧
      (after = [] ∨ after.head? = some '/') := by
  cases hcut : t.cutAt '/' with
  | nil =>
      exact absurd hcut (Text.cutAt_ne_nil '/' t)
  | cons name rest =>
      have hjoin := Text.join_cutAt '/' t
      rw [hcut] at hjoin
      have hname : ∀ x ∈ name, x ≠ '/' := by
        intro x hx hslash
        have hmem : name ∈ t.cutAt '/' := by
          rw [hcut]
          exact List.mem_cons_self
        rw [hslash] at hx
        exact Text.not_mem_of_mem_cutAt hmem hx
      by_cases hrest : rest = []
      · rw [hrest] at hjoin
        have ht : name ++ [] = t := hjoin
        refine ⟨name, [], ht.symm, ?_, hname, Or.inl rfl⟩
        intro hnil
        rw [hnil] at ht
        exact hne ht.symm
      · rw [Text.join_cons _ _ _ hrest] at hjoin
        refine ⟨name, _, hjoin.symm, ?_, hname, Or.inr rfl⟩
        intro hnil
        apply h.1
        rw [hcut, List.dropLast_cons_of_ne_nil hrest, hnil]
        exact List.mem_cons_self

theorem not_isCleanPath_double_slash (before after : Text) :
    ¬IsCleanPath (before ++ '/' :: '/' :: after) := by
  intro h
  apply h.1
  rw [Text.cutAt_append_cons, Text.cutAt_cons_self]
  rw [List.dropLast_append_of_ne_nil (by simp),
    List.dropLast_cons_of_ne_nil (Text.cutAt_ne_nil '/' after)]
  exact List.mem_append_right _ List.mem_cons_self

namespace IgnoreRule

/-!
# Hits of special rows
-/

theorem hits_of_isAnchored {row : List Piece} {ending : Ending} {path : Text}
    (h : isAnchored row = true) :
    Hits row ending path ↔
      ∃ t after, path = t ++ after ∧ CoversRow row t after ∧ ending.Admits after := by
  constructor
  · intro hhits
    rcases hhits with ⟨before, t, after, hpath, hbefore, hcovers, hadmits⟩
    rw [hbefore h] at hpath
    exact ⟨t, after, hpath, hcovers, hadmits⟩
  · intro hhits
    rcases hhits with ⟨t, after, hpath, hcovers, hadmits⟩
    exact ⟨[], t, after, hpath, fun _ => rfl, hcovers, hadmits⟩

theorem hits_anyChar {path : Text} :
    Hits [.anyChar] .anywhere path ↔ ∃ x ∈ path, x ≠ '\n' := by
  constructor
  · intro h
    rcases h with ⟨before, t, after, rfl, _, hcovers, _⟩
    rcases coversRow_singleton.mp hcovers with ⟨x, rfl, hx⟩
    exact ⟨x, by simp, hx⟩
  · intro h
    rcases h with ⟨x, hmem, hx⟩
    rcases List.append_of_mem hmem with ⟨before, after, hpath⟩
    refine ⟨before, [x], after, hpath, ?_, coversRow_singleton.mpr ⟨x, rfl, hx⟩, True.intro⟩
    intro hanchored
    cases hanchored

theorem exists_depthEnd_iff (forFolders : Bool) (s : Text) :
    (∃ t after, s = t ++ after ∧ CoversRow (depthEnd forFolders).1 t after ∧
      (depthEnd forFolders).2.Admits after) ↔ s.head? = some '/' := by
  cases forFolders with
  | true =>
      constructor
      · intro h
        rcases h with ⟨t, after, rfl, rfl, hadmits⟩
        exact hadmits
      · intro h
        exact ⟨[], s, rfl, rfl, h⟩
  | false =>
      constructor
      · intro h
        rcases h with ⟨t, after, rfl, hcovers, _⟩
        have ht : t = ['/'] := coversRow_singleton.mp hcovers
        rw [ht]
        rfl
      · intro h
        cases s with
        | nil =>
            cases h
        | cons x rest =>
            refine ⟨['/'], rest, ?_, coversRow_singleton.mpr rfl, True.intro⟩
            rw [Option.some.inj h]
            rfl

theorem hits_depthEnd (forFolders : Bool) {path : Text} :
    Hits (depthEnd forFolders).1 (depthEnd forFolders).2 path ↔ '/' ∈ path := by
  have hfree : isAnchored (depthEnd forFolders).1 = false := by
    cases forFolders <;> rfl
  constructor
  · intro h
    rcases h with ⟨before, t, after, rfl, _, hcovers, hadmits⟩
    have hhead := (exists_depthEnd_iff forFolders (t ++ after)).mp
      ⟨t, after, rfl, hcovers, hadmits⟩
    exact List.mem_append_right before (List.mem_of_mem_head? hhead)
  · intro h
    rcases List.append_of_mem h with ⟨before, after, hpath⟩
    rcases (exists_depthEnd_iff forFolders ('/' :: after)).mpr rfl with
      ⟨t, later, hsplit, hcovers, hadmits⟩
    refine ⟨before, t, later, ?_, ?_, hcovers, hadmits⟩
    · rw [hpath, hsplit]
    · intro hanchored
      rw [hfree] at hanchored
      cases hanchored

theorem coversRow_leadingDepth_anyName {t after : Text} :
    CoversRow [.leadingDepth, .anyName] t after ↔
      ∃ u name, t = u ++ name ∧ Piece.leadingDepth.Covers u (name ++ after) ∧
        Piece.anyName.Covers name after := by
  constructor
  · intro h
    rcases h with ⟨u, name, ht, hu, hname⟩
    exact ⟨u, name, ht, hu, coversRow_singleton.mp hname⟩
  · intro h
    rcases h with ⟨u, name, ht, hu, hname⟩
    exact ⟨u, name, ht, hu, coversRow_singleton.mpr hname⟩

theorem hits_anyName_iff {path : Text} (hclean : IsCleanPath path) :
    Hits [.leadingDepth, .anyName] .slashOrEnd path ↔ Hits [.anyChar] .anywhere path := by
  rw [hits_of_isAnchored rfl, hits_anyChar]
  constructor
  · intro h
    rcases h with ⟨t, after, rfl, hcovers, _⟩
    rcases coversRow_leadingDepth_anyName.mp hcovers with ⟨u, name, rfl, _, hne, _⟩
    cases name with
    | nil =>
        exact absurd rfl hne
    | cons x rest =>
        refine ⟨x, by simp, ?_⟩
        intro hx
        apply hclean.2
        rw [← hx]
        simp
  · intro h
    rcases h with ⟨x, hmem, _⟩
    rcases hclean.exists_name (List.ne_nil_of_mem hmem) with
      ⟨name, after, hpath, hne, hname, hafter⟩
    refine ⟨name, after, hpath, ?_, ?_⟩
    · apply coversRow_leadingDepth_anyName.mpr
      refine ⟨[], name, rfl, Or.inl rfl, hne, hname, ?_⟩
      intro y hy
      rcases hafter with rfl | hafter
      · cases hy
      · rw [hafter] at hy
        exact (Option.some.inj hy).symm
    · rcases hafter with rfl | hafter
      · exact Or.inr (Or.inl rfl)
      · exact Or.inl hafter

theorem hits_anyName_depthEnd_iff (forFolders : Bool) {path : Text} (hclean : IsCleanPath path) :
    Hits ([.leadingDepth, .anyName] ++ (depthEnd forFolders).1) (depthEnd forFolders).2 path ↔
      Hits (depthEnd forFolders).1 (depthEnd forFolders).2 path := by
  rw [hits_of_isAnchored rfl, hits_depthEnd]
  constructor
  · intro h
    rcases h with ⟨t, after, rfl, hcovers, hadmits⟩
    rcases coversRow_append.mp hcovers with ⟨u, v, rfl, _, hend⟩
    have hhead := (exists_depthEnd_iff forFolders (v ++ after)).mp ⟨v, after, rfl, hend, hadmits⟩
    rw [List.append_assoc]
    exact List.mem_append_right u (List.mem_of_mem_head? hhead)
  · intro h
    rcases hclean.exists_name (List.ne_nil_of_mem h) with ⟨name, after, rfl, hne, hname, hafter⟩
    have hhead : after.head? = some '/' := by
      rcases hafter with rfl | hafter
      · rw [List.append_nil] at h
        exact absurd rfl (hname '/' h)
      · exact hafter
    rcases (exists_depthEnd_iff forFolders after).mpr hhead with ⟨v, later, rfl, hend, hadmits⟩
    refine ⟨name ++ v, later, (List.append_assoc name v later).symm, ?_, hadmits⟩
    apply coversRow_append.mpr
    refine ⟨name, v, rfl, ?_, hend⟩
    apply coversRow_leadingDepth_anyName.mpr
    refine ⟨[], name, rfl, Or.inl rfl, hne, hname, ?_⟩
    intro y hy
    rw [hhead] at hy
    exact (Option.some.inj hy).symm

theorem not_hits_empty_name (front : List Piece) {path : Text} (hclean : IsCleanPath path) :
    ¬Hits (front ++ [.separator, .named []]) .slash path := by
  intro h
  rcases h with ⟨before, t, after, rfl, _, hcovers, hadmits⟩
  rcases coversRow_append.mp hcovers with ⟨u, v, rfl, _, slash, w, rfl, hslash, hname⟩
  have hw : w = [] := coversRow_singleton.mp hname
  cases after with
  | nil =>
      cases hadmits
  | cons x rest =>
      rw [show slash = ['/'] from hslash, hw, Option.some.inj hadmits] at hclean
      apply not_isCleanPath_double_slash (before ++ u) rest
      simpa using hclean

/-!
# Relocated rows
-/

section Relocation

variable {names : List Text}

/-- Whether a row hits below a directory what another one hits, and both have a pattern if one
has. -/
structure Relocates (names : List Text) (outer inner : List Piece × Ending) : Prop where
  sound : (∀ piece ∈ outer.1, piece.IsSound) ↔ ∀ piece ∈ inner.1, piece.IsSound
  hits : ∀ path, IsCleanPath path → path ≠ Path.joinNames names ++ ['/'] →
    (Hits outer.1 outer.2 path ↔
      ∃ below, below ≠ [] ∧ path = Path.joinNames names ++ '/' :: below ∧
        Hits inner.1 inner.2 below)

def scopedRow (names : List Text) (row : List Piece) : List Piece :=
  .pathStart :: (nameRow false names ++ row)

theorem isSound_scopedRow_iff (names : List Text) (row : List Piece) :
    (∀ piece ∈ scopedRow names row, piece.IsSound) ↔ ∀ piece ∈ row, piece.IsSound := by
  unfold scopedRow
  rw [isSound_cons_iff ⟨_, rfl⟩]
  constructor
  · intro h piece hpiece
    exact h piece (List.mem_append_right _ hpiece)
  · intro h piece hpiece
    rcases List.mem_append.mp hpiece with hpiece | hpiece
    · exact isSound_of_mem_nameRow hpiece
    · exact h piece hpiece

theorem hits_scopedRow (hnames : names ≠ []) {row : List Piece} {ending : Ending} {path : Text} :
    Hits (scopedRow names row) ending path ↔
      ∃ t after, path = Path.joinNames names ++ (t ++ after) ∧ CoversRow row t after ∧
        ending.Admits after := by
  rw [hits_of_isAnchored rfl]
  constructor
  · intro h
    rcases h with ⟨_, after, rfl, ⟨start, w, rfl, hstart, hrow⟩, hadmits⟩
    rcases coversRow_append.mp hrow with ⟨u, v, rfl, hu, hv⟩
    rw [show start = [] from hstart, (coversRow_nameRow hnames).mp hu]
    exact ⟨v, after, by simp, hv, hadmits⟩
  · intro h
    rcases h with ⟨t, after, rfl, hcovers, hadmits⟩
    refine ⟨Path.joinNames names ++ t, after, by simp, ⟨[], _, rfl, rfl, ?_⟩, hadmits⟩
    apply coversRow_append.mpr
    exact ⟨_, t, rfl, (coversRow_nameRow hnames).mpr rfl, hcovers⟩

/-- A row below a directory hits what another one, which is tied to the start, hits below the
directory, if it covers the same texts with a slash in front. -/
theorem hits_scopedRow_of_coversRow (hnames : names ≠ []) {outer inner : List Piece}
    {ending : Ending} (hanchored : isAnchored inner = true)
    (hcovers : ∀ t after, CoversRow outer t after ↔ ∃ u, t = '/' :: u ∧ CoversRow inner u after)
    {path : Text} :
    Hits (scopedRow names outer) ending path ↔
      ∃ below, path = Path.joinNames names ++ '/' :: below ∧ Hits inner ending below := by
  rw [hits_scopedRow hnames]
  constructor
  · intro h
    rcases h with ⟨t, after, rfl, hrow, hadmits⟩
    rcases (hcovers t after).mp hrow with ⟨u, rfl, hu⟩
    exact ⟨u ++ after, rfl, (hits_of_isAnchored hanchored).mpr ⟨u, after, rfl, hu, hadmits⟩⟩
  · intro h
    rcases h with ⟨below, rfl, hhits⟩
    rcases (hits_of_isAnchored hanchored).mp hhits with ⟨u, after, rfl, hu, hadmits⟩
    exact ⟨'/' :: u, after, rfl, (hcovers _ after).mpr ⟨u, rfl, hu⟩, hadmits⟩

theorem relocates_of_coversRow (hnames : names ≠ []) {outer inner : List Piece} {ending : Ending}
    (hanchored : isAnchored inner = true)
    (hcovers : ∀ t after, CoversRow outer t after ↔ ∃ u, t = '/' :: u ∧ CoversRow inner u after)
    (hsound : (∀ piece ∈ outer, piece.IsSound) ↔ ∀ piece ∈ inner, piece.IsSound) :
    Relocates names (scopedRow names outer, ending) (inner, ending) where
  sound := (isSound_scopedRow_iff names outer).trans hsound
  hits := by
    intro path _ hpath
    rw [hits_scopedRow_of_coversRow hnames hanchored hcovers]
    constructor
    · intro h
      rcases h with ⟨below, hbelow, hhits⟩
      refine ⟨below, ?_, hbelow, hhits⟩
      intro hnil
      rw [hnil] at hbelow
      exact hpath hbelow
    · intro h
      rcases h with ⟨below, _, hbelow, hhits⟩
      exact ⟨below, hbelow, hhits⟩

theorem coversRow_separator {row : List Piece} {t after : Text} :
    CoversRow (.separator :: row) t after ↔
      ∃ u, t = '/' :: u ∧ CoversRow (.pathStart :: row) u after := by
  constructor
  · intro h
    rcases h with ⟨slash, u, rfl, hslash, hrow⟩
    rw [show slash = ['/'] from hslash]
    exact ⟨u, rfl, [], u, rfl, rfl, hrow⟩
  · intro h
    rcases h with ⟨_, rfl, start, u, rfl, hstart, hrow⟩
    rw [show start = [] from hstart]
    exact ⟨['/'], u, rfl, rfl, hrow⟩

theorem relocates_pathStart (hnames : names ≠ []) (row : List Piece) (ending : Ending) :
    Relocates names (scopedRow names (.separator :: row), ending) (.pathStart :: row, ending) := by
  apply relocates_of_coversRow hnames rfl
  · intro t after
    exact coversRow_separator
  · rw [isSound_cons_iff ⟨_, rfl⟩, isSound_cons_iff ⟨_, rfl⟩]

theorem coversRow_innerDepth {row : List Piece} {t after : Text} :
    CoversRow (.innerDepth :: .separator :: row) t after ↔
      ∃ u, t = '/' :: u ∧ CoversRow (.leadingDepth :: row) u after := by
  constructor
  · intro h
    rcases h with ⟨inner, _, rfl, hinner, slash, v, rfl, hslash, hrow⟩
    rw [show slash = ['/'] from hslash]
    rcases hinner with rfl | ⟨part, hne, hbreak, rfl⟩
    · exact ⟨v, rfl, [], v, rfl, Or.inl rfl, hrow⟩
    · refine ⟨part ++ ['/'] ++ v, by simp, part ++ ['/'], v, rfl, ?_, hrow⟩
      exact Or.inr ⟨part, hne, hbreak, rfl⟩
  · intro h
    rcases h with ⟨_, rfl, leading, v, rfl, hleading, hrow⟩
    rcases hleading with rfl | ⟨part, hne, hbreak, rfl⟩
    · exact ⟨[], '/' :: v, rfl, Or.inl rfl, ['/'], v, rfl, rfl, hrow⟩
    · refine ⟨'/' :: part, '/' :: v, by simp, ?_, ['/'], v, rfl, rfl, hrow⟩
      exact Or.inr ⟨part, hne, hbreak, rfl⟩

theorem relocates_leadingDepth (hnames : names ≠ []) (row : List Piece) (ending : Ending) :
    Relocates names (scopedRow names (.innerDepth :: .separator :: row), ending)
      (.leadingDepth :: row, ending) := by
  apply relocates_of_coversRow hnames rfl
  · intro t after
    exact coversRow_innerDepth
  · rw [isSound_cons_iff ⟨_, rfl⟩, isSound_cons_iff ⟨_, rfl⟩, isSound_cons_iff ⟨_, rfl⟩]

theorem Relocates.congr (hnames : IsPlainScope names) {outer inner inner' : List Piece × Ending}
    (h : Relocates names outer inner)
    (hsound : (∀ piece ∈ inner.1, piece.IsSound) ↔ ∀ piece ∈ inner'.1, piece.IsSound)
    (hhits : ∀ path, IsCleanPath path →
      (Hits inner.1 inner.2 path ↔ Hits inner'.1 inner'.2 path)) :
    Relocates names outer inner' where
  sound := h.sound.trans hsound
  hits := by
    intro path hclean hpath
    rw [h.hits path hclean hpath]
    constructor
    · intro hbelow
      rcases hbelow with ⟨below, hne, rfl, hinner⟩
      have hcleanBelow := hclean.below hnames.ne_nil hnames.no_slash
      exact ⟨below, hne, rfl, (hhits below hcleanBelow).mp hinner⟩
    · intro hbelow
      rcases hbelow with ⟨below, hne, rfl, hinner⟩
      have hcleanBelow := hclean.below hnames.ne_nil hnames.no_slash
      exact ⟨below, hne, rfl, (hhits below hcleanBelow).mpr hinner⟩

theorem relocates_anyChar (hnames : IsPlainScope names) :
    Relocates names (scopedRow names [.separator], .anywhere) ([.anyChar], .anywhere) where
  sound := by
    rw [isSound_scopedRow_iff, isSound_cons_iff ⟨_, rfl⟩, isSound_cons_iff ⟨_, rfl⟩]
  hits := by
    intro path hclean hpath
    rw [hits_scopedRow hnames.ne_nil]
    constructor
    · intro h
      rcases h with ⟨t, after, rfl, hcovers, _⟩
      have ht : t = ['/'] := coversRow_singleton.mp hcovers
      rw [ht] at hclean hpath ⊢
      have hcleanBelow := hclean.below hnames.ne_nil hnames.no_slash
      cases after with
      | nil =>
          exact absurd rfl hpath
      | cons x rest =>
          refine ⟨x :: rest, by simp, rfl, hits_anyChar.mpr ⟨x, List.mem_cons_self, ?_⟩⟩
          intro hx
          apply hcleanBelow.2
          rw [hx]
          exact List.mem_cons_self
    · intro h
      rcases h with ⟨below, _, rfl, _⟩
      exact ⟨['/'], below, rfl, coversRow_singleton.mpr rfl, True.intro⟩

theorem relocates_of_not_hits (hnames : IsPlainScope names) {outer inner : List Piece × Ending}
    (hsound : (∀ piece ∈ outer.1, piece.IsSound) ↔ ∀ piece ∈ inner.1, piece.IsSound)
    (houter : ∀ path, IsCleanPath path → ¬Hits outer.1 outer.2 path)
    (hinner : ∀ path, IsCleanPath path → ¬Hits inner.1 inner.2 path) :
    Relocates names outer inner where
  sound := hsound
  hits := by
    intro path hclean _
    constructor
    · intro h
      exact absurd h (houter path hclean)
    · intro h
      rcases h with ⟨below, _, rfl, hbelow⟩
      exact absurd hbelow (hinner below (hclean.below hnames.ne_nil hnames.no_slash))

end Relocation
end IgnoreRule
end SourceAudit
