import SourceAudit.Proofs.Ignore.Trimming

/-!
# Rules stay below their directory

## One name and a slash

The rule of a line in a directory hits nothing outside the directory.  With a name of the directory
in front, the row of the rule is tied to the start, and whatever the line adds begins with a slash.

A line that is a slash only adds nothing.  If the directory has a single name, the rewritten line is
that name with a slash behind.  It is read like any name with a slash behind, at every depth.
-/

namespace SourceAudit
namespace IgnoreRule

/-!
# Behind a name
-/

theorem RowOf.head?_eq_slash {forFolders separated : Bool} {segments : List Text}
    {row : List Piece} {ending : Ending} (h : RowOf forFolders separated segments row ending)
    (hseparated : separated = true) {t after : Text} (hrow : CoversRow row t after)
    (hadmits : ending.Admits after) : (t ++ after).head? = some '/' := by
  induction h generalizing t with
  | lastDepth separated =>
      exact (exists_depthEnd_iff forFolders (t ++ after)).mp ⟨t, after, rfl, hrow, hadmits⟩
  | lastName separated hlast hname =>
      rw [hseparated] at hrow
      rcases hrow with ⟨slash, v, rfl, hslash, _⟩
      rw [show slash = ['/'] from hslash]
      rfl
  | depth separated hrest hothers ih =>
      rcases hrow with ⟨u, v, rfl, hu, hv⟩
      rcases hu with rfl | ⟨part, _, _, rfl⟩
      · exact ih rfl hv hadmits
      · rfl
  | name separated hsegment hname hrest hothers ih =>
      rw [hseparated] at hrow
      rcases hrow with ⟨slash, v, rfl, hslash, _⟩
      rw [show slash = ['/'] from hslash]
      rfl

section Confinement

variable {names : List Text} {line : Text}

/-- A rule whose segments begin with the names of a directory hits only below the directory. -/
theorem prefix_of_hits (hnames : IsPlainScope names) {forFolders : Bool} {segments : List Text}
    (hne : segments ≠ []) {row : List Piece} {ending : Ending}
    (hpieces : pieces forFolders (names ++ segments) = .ok (row, ending)) {path : Text}
    (hhits : Hits row ending path) : Path.joinNames names ++ ['/'] <+: path := by
  rw [pieces_names_append hnames forFolders hne] at hpieces
  rcases exists_of_map_eq_ok hpieces with ⟨found, hfound, hrow⟩
  cases hrow
  rcases (hits_scopedRow hnames.ne_nil).mp hhits with ⟨t, after, rfl, hcovers, hadmits⟩
  have hhead := (rowOf_of_piecesFrom hne hfound).head?_eq_slash rfl hcovers hadmits
  rcases List.head?_eq_some_iff.mp hhead with ⟨below, hbelow⟩
  rw [hbelow]
  exact ⟨below, by simp⟩

theorem exists_segmentsOf_eq_append (hnames : IsPlainScope names) {rest : Text}
    (hrest : rest ≠ [] ∨ names.length ≠ 1) :
    ∃ segments, segments ≠ [] ∧
      segmentsOf (Path.joinNames names ++ '/' :: rest) = names ++ segments := by
  refine ⟨collapse (openEnd (rest.cutAt '/')), ?_, ?_⟩
  · intro hnil
    rw [collapse_eq_nil_iff, openEnd_eq_nil_iff] at hnil
    exact Text.cutAt_ne_nil '/' rest hnil
  · -- Only a lone name, or one with a slash behind, would get `**` in front.
    have hanchor : anchor (names ++ rest.cutAt '/') = names ++ rest.cutAt '/' := by
      cases names with
      | nil =>
          exact absurd rfl hnames.ne_nil
      | cons first others =>
          apply anchor_eq_self (hnames.name_ne_nil first List.mem_cons_self)
          · simp [Text.cutAt_ne_nil]
          · intro h
            rcases List.append_eq_singleton_iff.mp h with ⟨hothers, hcut⟩ | ⟨_, hcut⟩
            · rcases hrest with hne | hlength
              · exact cutAt_ne_of_ne_nil hne hcut
              · rw [hothers] at hlength
                exact hlength rfl
            · exact Text.cutAt_ne_nil '/' rest hcut
    unfold segmentsOf
    rw [Path.cutAt_joinNames_append hnames.ne_nil hnames.no_slash, hanchor,
      openEnd_append names (Text.cutAt_ne_nil '/' rest),
      collapse_append (IsPlainScope.ne_anyDepth hnames)]

/-!
# Lines of a directory
-/

/-- Whether the pattern of a line is a slash with nothing but blanks behind. -/
def IsLoneSlash (line : Text) : Prop :=
  ∃ blanks, (splitNegation line).2 = '/' :: blanks ∧ Text.isAllBlank blanks = true

theorem isAllBlank_belowScope_iff {pattern : Text} :
    Text.isAllBlank (belowScope pattern) = true ↔
      ∃ blanks, pattern = '/' :: blanks ∧ Text.isAllBlank blanks = true := by
  unfold belowScope
  by_cases hhead : pattern.head? = some '/'
  · rcases List.head?_eq_some_iff.mp hhead with ⟨rest, rfl⟩
    rw [if_pos hhead]
    simp
  · rw [if_neg hhead]
    apply iff_of_false
    · intro hblank
      split at hblank
      · rename_i hinner
        rcases hasInnerSlash_iff.mp hinner with ⟨front, behind, rfl, _⟩
        exact ne_slash_of_isAllBlank hblank '/' (by simp) rfl
      · exact ne_slash_of_isAllBlank hblank '/' (by simp) rfl
    · intro h
      rcases h with ⟨blanks, rfl, _⟩
      exact hhead rfl

theorem ofLine?_eq_none_of_isAllBlank (h : line.isAllBlank = true) : ofLine? line = .ok none := by
  unfold ofLine?
  rw [(trimmed_eq_nil_iff line).mpr h]
  rfl

theorem ofLine?_eq_none_of_comment (h : line.head? = some '#') : ofLine? line = .ok none := by
  have hvoid : isVoid (trimmed line) = true := by
    unfold isVoid
    cases htrimmed : trimmed line with
    | nil =>
        rfl
    | cons c rest =>
        rcases trimmed_prefix line with ⟨back, hback⟩
        rw [← hback, htrimmed] at h
        rw [Option.some.inj h]
        rfl
  unfold ofLine?
  rw [if_pos hvoid]

theorem exists_splitSign_trimmed_eq (hnames : IsPlainScope names) {rule : IgnoreRule}
    (hrule : ofLine? (scopedLine (Path.joinNames names) line) = .ok (some rule)) :
    ∃ rest, (splitSign (trimmed (scopedLine (Path.joinNames names) line))).2 =
        Path.joinNames names ++ '/' :: rest ∧ (rest = [] ↔ IsLoneSlash line) := by
  have hscope := joinNames_ne_nil_of_isPlainScope hnames
  have hunscoped : line.isAllBlank = false ∧ line.head? ≠ some '#' := by
    constructor
    · by_contra hblank
      rw [Bool.not_eq_false] at hblank
      rw [scopedLine_eq_self (Or.inr (Or.inl hblank)),
        ofLine?_eq_none_of_isAllBlank hblank] at hrule
      cases hrule
    · intro hcomment
      rw [scopedLine_eq_self (Or.inr (Or.inr hcomment)),
        ofLine?_eq_none_of_comment hcomment] at hrule
      cases hrule
  refine ⟨trimmed (belowScope (splitNegation line).2), ?_,
    (trimmed_eq_nil_iff _).trans isAllBlank_belowScope_iff⟩
  rw [scopedLine_eq hscope hunscoped.1 hunscoped.2, scopedPattern_eq_append, ← List.append_assoc,
    trimmed_append_slash]
  rcases splitSign_eq line with ⟨pattern, rfl, _, hsplit⟩ | ⟨_, _, hsplit⟩
  · rw [hsplit]
    rfl
  · rw [hsplit]
    rcases splitSign_eq (Path.joinNames names ++ '/' :: trimmed (belowScope line)) with
      ⟨pattern, hpattern, _, _⟩ | ⟨_, hplain, _⟩
    · rcases IsPlainScope.exists_head hnames with ⟨c, hc, _⟩
      have hsign := (hnames.first_ne c hc).1
      have hhead := congrArg List.head? hpattern
      rw [List.head?_append, hc] at hhead
      exact absurd (Option.some.inj hhead) hsign
    · exact congrArg Prod.snd hplain

theorem pieces_folder {name : Text} (hname : IsPlainScope [name]) :
    pieces (isForFolders (name ++ ['/'])) (segmentsOf (name ++ ['/'])) =
      .ok ([.leadingDepth, .named (name.map .literal)], .slash) := by
  have hdepth := IsPlainScope.ne_anyDepth hname name List.mem_cons_self
  have hplain := hname.no_wildcard name List.mem_cons_self
  have hcut : (name ++ ['/']).cutAt '/' = [name, []] := by
    rw [Text.cutAt_append_cons, Text.cutAt_of_not_mem (hname.no_slash name List.mem_cons_self)]
    rfl
  have hsegments : segmentsOf (name ++ ['/']) = [anyDepth, name, anyDepth] := by
    unfold segmentsOf
    rw [hcut, anchor_folder (hname.name_ne_nil name List.mem_cons_self), if_neg hdepth]
    show collapse [anyDepth, name, anyDepth] = _
    rw [collapse_cons_cons, if_neg fun h => hdepth h.2, collapse_cons_cons,
      if_neg fun h => hdepth h.1]
    rfl
  have hstar : ([name, anyDepth] : List Text) ≠ [['*'], anyDepth] := by
    intro h
    rw [(List.cons.inj h).1] at hplain
    exact (hplain '*' List.mem_cons_self).1 rfl
  unfold isForFolders
  rw [hsegments, hcut, pieces_depth _ (by simp) (by simp) hstar,
    piecesFrom_name _ _ hdepth (by simp), namePiece_of_plain hplain]
  rfl

theorem hits_leadingDepth_iff {name path : Text} {ending : Ending} :
    Hits [.leadingDepth, .named (name.map .literal)] ending path ↔
      ∃ front after, path = front ++ (name ++ after) ∧
        (front = [] ∨ ∃ outer, outer ≠ [] ∧ '\n' ∉ outer ∧ front = outer ++ ['/']) ∧
        ending.Admits after := by
  rw [hits_of_isAnchored rfl]
  constructor
  · intro h
    rcases h with ⟨_, after, rfl, ⟨front, v, rfl, hfront, hv⟩, hadmits⟩
    have hname : v = name := Glob.covers_map_literal.mp (coversRow_singleton.mp hv)
    refine ⟨front, after, by simp [hname], ?_, hadmits⟩
    rcases hfront with hnil | ⟨outer, hne, hfeed, hfront⟩
    · exact Or.inl hnil
    · exact Or.inr ⟨outer, hne, fun hmem => hfeed '\n' hmem rfl, hfront⟩
  · intro h
    rcases h with ⟨front, after, rfl, hfront, hadmits⟩
    refine ⟨front ++ name, after, by simp, ⟨front, name, rfl, ?_, ?_⟩, hadmits⟩
    · rcases hfront with hnil | ⟨outer, hne, hfeed, hfront⟩
      · exact Or.inl hnil
      · refine Or.inr ⟨outer, hne, ?_, hfront⟩
        intro x hx hsame
        rw [hsame] at hx
        exact hfeed hx
    · exact coversRow_singleton.mpr (Glob.covers_map_literal.mpr rfl)

/-- The rule of a line below a directory hits nothing outside the directory.  Only a lone slash in
a directory with a single name makes a rule that hits the directories of that name anywhere. -/
theorem hit?_scopedLine_confined (hnames : IsPlainScope names) {rule : IgnoreRule}
    (hrule : ofLine? (scopedLine (Path.joinNames names) line) = .ok (some rule)) :
    (¬(IsLoneSlash line ∧ names.length = 1) →
      ∀ path, (rule.hit? path).isSome = true → Path.joinNames names ++ ['/'] <+: path) ∧
    (IsLoneSlash line ∧ names.length = 1 →
      ∀ path, (rule.hit? path).isSome = true ↔
        ∃ front below, path = front ++ (Path.joinNames names ++ '/' :: below) ∧
          (front = [] ∨ ∃ outer, outer ≠ [] ∧ '\n' ∉ outer ∧ front = outer ++ ['/'])) := by
  rcases exists_splitSign_trimmed_eq hnames hrule with ⟨rest, hpattern, hlone⟩
  rcases exists_of_ofLine?_eq hrule with ⟨row, body, ending, hpieces, hbody, rfl⟩
  have hfree := isAnchor_tail_of_pieces hpieces
  rw [hpattern] at hpieces
  constructor
  · intro hcase path hhit
    have hrest : rest ≠ [] ∨ names.length ≠ 1 := by
      by_cases hlength : names.length = 1
      · exact Or.inl fun hnil => hcase ⟨hlone.mp hnil, hlength⟩
      · exact Or.inr hlength
    rcases exists_segmentsOf_eq_append hnames hrest with ⟨segments, hne, hsegments⟩
    rw [hsegments] at hpieces
    exact prefix_of_hits hnames hne hpieces ((isSome_hit?_iff hbody hfree _ _ path).mp hhit)
  · intro hcase path
    rcases List.length_eq_one_iff.mp hcase.2 with ⟨name, rfl⟩
    rw [hlone.mpr hcase.1, Path.joinNames_singleton, pieces_folder hnames] at hpieces
    cases hpieces
    rw [isSome_hit?_iff hbody hfree, hits_leadingDepth_iff, Path.joinNames_singleton]
    constructor
    · intro h
      rcases h with ⟨front, after, hpath, hfront, hadmits⟩
      rcases List.head?_eq_some_iff.mp hadmits with ⟨below, rfl⟩
      exact ⟨front, below, hpath, hfront⟩
    · intro h
      rcases h with ⟨front, below, hpath, hfront⟩
      exact ⟨front, '/' :: below, hpath, hfront, rfl⟩

/-- A slash with a blank behind, in a directory of two names and in one of a single name. -/
theorem hit?_scopedLine_confined_slash :
    (∃ rule, ofLine? (scopedLine (Path.joinNames [['a'], ['s']]) ['/', ' ']) = .ok (some rule) ∧
      ∀ path, (rule.hit? path).isSome = true → ['a', '/', 's', '/'] <+: path) ∧
    ∃ rule, ofLine? (scopedLine (Path.joinNames [['s']]) ['/', ' ']) = .ok (some rule) ∧
      (rule.hit? ['a', '/', 's', '/']).isSome = true := by
  have hlone : IsLoneSlash ['/', ' '] := ⟨[' '], rfl, by decide⟩
  have htwo : IsPlainScope [['a'], ['s']] := by
    refine ⟨by simp, by simp, by simp, by simp, ?_⟩
    intro c hc
    cases hc
    decide
  have hsingle : IsPlainScope [['s']] := by
    refine ⟨by simp, by simp, by simp, by simp, ?_⟩
    intro c hc
    cases hc
    decide
  obtain ⟨below, hbelow⟩ : ∃ rule,
      ofLine? (scopedLine (Path.joinNames [['a'], ['s']]) ['/', ' ']) = .ok (some rule) :=
    ⟨_, rfl⟩
  obtain ⟨anywhere, hanywhere⟩ : ∃ rule,
      ofLine? (scopedLine (Path.joinNames [['s']]) ['/', ' ']) = .ok (some rule) :=
    ⟨_, rfl⟩
  constructor
  · exact ⟨below, hbelow, (hit?_scopedLine_confined htwo hbelow).1 fun h => absurd h.2 (by decide)⟩
  · refine ⟨anywhere, hanywhere, ?_⟩
    apply ((hit?_scopedLine_confined hsingle hanywhere).2 ⟨hlone, rfl⟩ _).mpr
    exact ⟨['a', '/'], [], rfl, Or.inr ⟨['a'], by decide, by decide, rfl⟩⟩

/-- A lone slash in the directory `sub` makes a rule that ignores what is in a directory `sub`
elsewhere. -/
theorem exists_hit?_outside :
    ∃ rule, ofLine? (scopedLine ['s', 'u', 'b'] ['/']) = .ok (some rule) ∧ rule.ignores = true ∧
      (rule.hit? ['o', 't', 'h', 'e', 'r', '/', 's', 'u', 'b', '/', 'a', '.', 'p', 'y']).isSome =
        true ∧
      ¬['s', 'u', 'b', '/'] <+:
        ['o', 't', 'h', 'e', 'r', '/', 's', 'u', 'b', '/', 'a', '.', 'p', 'y'] :=
  ⟨_, rfl, rfl, rfl, by decide⟩

end Confinement
end IgnoreRule
end SourceAudit
