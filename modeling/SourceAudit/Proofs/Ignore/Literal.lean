import SourceAudit.Proofs.Ignore.Precedence
import SourceAudit.Proofs.Ignore.Wildcards
import SourceAudit.Proofs.Text.Words

/-!
# Directories in a pattern

## Which names are taken literally

The names of a directory go into a pattern as they are.  If the only ignore file of a tree names one
file, its rule ignores the files of that name below the directory of the ignore file, and nothing
elsewhere, exactly when the names of the directory mean themselves in a pattern.

Even then the rule does not see every file below the directory: what stands for the directories in
between holds no line feed.
-/

namespace SourceAudit

/-- A file name of letters, digits and dots. -/
structure IsPlainFileName (name : Text) : Prop where
  ne_nil : name ≠ []
  ne_dot : name ≠ ['.']
  plain : ∀ c ∈ name, c.isAlphanum = true ∨ c = '.'

namespace IsPlainFileName

variable {name : Text}

theorem not_mem (h : IsPlainFileName name) {c : Char} (hc : c.isAlphanum = false)
    (hdot : c ≠ '.') : c ∉ name := by
  intro hmem
  rcases h.plain c hmem with halphanum | hsame
  · rw [halphanum] at hc
    cases hc
  · exact hdot hsame

theorem head?_ne (h : IsPlainFileName name) {c : Char} (hc : c.isAlphanum = false)
    (hdot : c ≠ '.') : name.head? ≠ some c :=
  fun hhead => h.not_mem hc hdot (List.mem_of_mem_head? hhead)

theorem isPathName (h : IsPlainFileName name) : IsPathName name :=
  ⟨h.ne_nil, h.ne_dot, h.not_mem (by decide) (by decide)⟩

theorem isPathName_append (h : IsPlainFileName name) {names : List Text}
    (hnames : ∀ other ∈ names, IsPathName other) : ∀ other ∈ names ++ [name], IsPathName other :=
  List.forall_mem_append.mpr ⟨hnames, List.forall_mem_singleton.mpr h.isPathName⟩

theorem isPlainName (h : IsPlainFileName name) : IsPlainName name := by
  intro c hc
  refine ⟨?_, ?_, ?_, ?_⟩ <;>
  · rintro rfl
    exact h.not_mem (by decide) (by decide) hc

theorem ne_anyDepth (h : IsPlainFileName name) : name ≠ IgnoreRule.anyDepth := by
  rintro rfl
  exact h.not_mem (show '*'.isAlphanum = false by decide) (by decide) List.mem_cons_self

theorem ne_star (h : IsPlainFileName name) : name ≠ ['*'] := by
  rintro rfl
  exact h.not_mem (show '*'.isAlphanum = false by decide) (by decide) List.mem_cons_self

theorem isBlank_eq_false (h : IsPlainFileName name) : ∀ c ∈ name, Text.isBlank c = false := by
  intro c hc
  rcases h.plain c hc with halphanum | rfl
  · exact Text.isBlank_eq_false_of_isAlphanum halphanum
  · decide

end IsPlainFileName

/-!
# Names behind others
-/

namespace Path

theorem prefix_of_joinNames_prefix {names path : List Text} (hne : names ≠ [])
    (hslash : ∀ name ∈ names, '/' ∉ name) (hpath : path ≠ [])
    (hpathSlash : ∀ name ∈ path, '/' ∉ name)
    (h : joinNames names ++ ['/'] <+: joinNames path) : names <+: path := by
  rcases h with ⟨below, hbelow⟩
  rw [List.append_assoc] at hbelow
  have hcut := congrArg (Text.cutAt '/') hbelow
  rw [List.singleton_append, cutAt_joinNames_append hne hslash, cutAt_joinNames hpath hpathSlash]
    at hcut
  exact ⟨_, hcut⟩

end Path

namespace IgnoreRule

theorem exists_cutAt_of_admits {name after : Text} (hslash : '/' ∉ name)
    (h : Ending.slashOrEnd.Admits after) :
    ∃ other back, (name ++ after).cutAt '/' = other :: back ∧
      (other = name ∨ back = [] ∧ other = name ++ ['\n']) := by
  rcases h with hhead | rfl | rfl
  · rcases List.head?_eq_some_iff.mp hhead with ⟨below, rfl⟩
    refine ⟨name, Text.cutAt '/' below, ?_, Or.inl rfl⟩
    rw [Text.cutAt_append_cons, Text.cutAt_of_not_mem hslash]
    rfl
  · refine ⟨name, [], ?_, Or.inl rfl⟩
    rw [List.append_nil, Text.cutAt_of_not_mem hslash]
  · refine ⟨name ++ ['\n'], [], Text.cutAt_of_not_mem ?_, Or.inr ⟨rfl, rfl⟩⟩
    simp [hslash]

theorem exists_admits_of_joinNames (name : Text) (back : List Text) :
    ∃ after, Path.joinNames (name :: back) = name ++ after ∧ Ending.slashOrEnd.Admits after := by
  by_cases hback : back = []
  · rw [hback, Path.joinNames_singleton]
    exact ⟨[], (List.append_nil name).symm, Or.inr (Or.inl rfl)⟩
  · exact ⟨'/' :: Path.joinNames back, Path.joinNames_cons hback, Or.inl rfl⟩

theorem hits_joinNames_iff {name : Text} (hslash : '/' ∉ name) {names : List Text}
    (hne : names ≠ []) (hnamesSlash : ∀ other ∈ names, '/' ∉ other) (hnil : [] ∉ names.dropLast) :
    Hits [.leadingDepth, .named (name.map .literal)] .slashOrEnd (Path.joinNames names) ↔
      ∃ front other back, names = front ++ other :: back ∧ '\n' ∉ Path.joinNames front ∧
        (other = name ∨ back = [] ∧ other = name ++ ['\n']) := by
  rw [hits_leadingDepth_iff]
  constructor
  · intro h
    rcases h with ⟨front, after, hpath, hfront, hadmits⟩
    rcases exists_cutAt_of_admits hslash hadmits with ⟨other, back, hcut, hother⟩
    have hnames := congrArg (Text.cutAt '/') hpath
    rw [Path.cutAt_joinNames hne hnamesSlash] at hnames
    rcases hfront with rfl | ⟨outer, _, hfeed, rfl⟩
    · refine ⟨[], other, back, ?_, List.not_mem_nil, hother⟩
      rw [hnames, List.nil_append, hcut, List.nil_append]
    · refine ⟨Text.cutAt '/' outer, other, back, ?_, ?_, hother⟩
      · rw [hnames, List.append_assoc, List.singleton_append, Text.cutAt_append_cons, hcut]
      · unfold Path.joinNames
        rw [Text.join_cutAt]
        exact hfeed
  · intro h
    rcases h with ⟨front, other, back, rfl, hfeed, hother⟩
    obtain ⟨after, hlast, hadmits⟩ : ∃ after,
        Path.joinNames (other :: back) = name ++ after ∧ Ending.slashOrEnd.Admits after := by
      rcases hother with rfl | ⟨rfl, rfl⟩
      · exact exists_admits_of_joinNames other back
      · exact ⟨['\n'], Path.joinNames_singleton _, Or.inr (Or.inr rfl)⟩
    cases front with
    | nil =>
        exact ⟨[], after, hlast, Or.inl rfl, hadmits⟩
    | cons first rest =>
        refine ⟨Path.joinNames (first :: rest) ++ ['/'], after, ?_, Or.inr ⟨_, ?_, hfeed, rfl⟩,
          hadmits⟩
        · rw [Path.joinNames_append (by simp) (by simp), hlast, List.append_assoc]
          rfl
        · intro hjoin
          rcases Path.exists_joinNames_eq first rest with ⟨more, hmore⟩
          rw [hmore] at hjoin
          apply hnil
          rw [List.dropLast_append_of_ne_nil (by simp)]
          exact List.mem_append_left _ (by simp [(List.append_eq_nil_iff.mp hjoin).1])

/-!
# The line of a file name below a directory
-/

section Line

variable {names : List Text} {name : Text}

theorem scopedPattern_fileName (hnames : names ≠ []) (hname : IsPlainFileName name) :
    scopedPattern (Path.joinNames names) name = Path.joinNames (names ++ [anyDepth, name]) := by
  have hinner : hasInnerSlash name ≠ true := by
    intro hinner
    have hmem : '/' ∈ name.dropEndWhile (· == '/') := List.contains_iff_mem.mp hinner
    exact hname.isPathName.no_slash ((Text.dropEndWhile_prefix _ name).subset hmem)
  unfold scopedPattern
  rw [if_neg (hname.head?_ne (by decide) (by decide)), if_neg hinner,
    Path.joinNames_append hnames (by simp)]
  simp [Path.joinNames_cons, anyDepth]

theorem scopedLine_fileName (hnames : names ≠ []) (hscope : Path.joinNames names ≠ [])
    (hname : IsPlainFileName name) :
    scopedLine (Path.joinNames names) name = Path.joinNames (names ++ [anyDepth, name]) := by
  have hblank : Text.isAllBlank name = false := by
    apply isAllBlank_eq_false hname.ne_nil
    intro c hc
    exact hname.isBlank_eq_false c (List.mem_of_getLast? hc)
  rw [scopedLine_eq hscope hblank (hname.head?_ne (by decide) (by decide))]
  rcases splitSign_eq name with ⟨pattern, rfl, _, _⟩ | ⟨_, _, hsplit⟩
  · exact absurd rfl (hname.head?_ne (show '!'.isAlphanum = false by decide) (by decide))
  · rw [hsplit]
    exact scopedPattern_fileName hnames hname

variable (hne : names ≠ []) (hnames : ∀ other ∈ names, IsPathName other)
  (hname : IsPlainFileName name)

include hnames

theorem head?_fileName_line (hne : names ≠ []) (last : Text) :
    (Path.joinNames (names ++ [anyDepth, last])).head? = (Path.joinNames names).head? := by
  rw [Path.joinNames_append hne (by simp),
    List.head?_append_of_ne_nil _ (Path.joinNames_ne_nil hne hnames)]

include hname

theorem cutAt_fileName_line :
    (Path.joinNames (names ++ [anyDepth, name])).cutAt '/' = names ++ [anyDepth, name] := by
  apply Path.cutAt_joinNames (by simp)
  intro other hother
  rcases List.mem_append.mp hother with hother | hother
  · exact (hnames other hother).no_slash
  · rcases List.mem_cons.mp hother with rfl | hother
    · decide
    · rw [List.mem_singleton.mp hother]
      exact hname.isPathName.no_slash

theorem isForFolders_fileName_line :
    isForFolders (Path.joinNames (names ++ [anyDepth, name])) = false := by
  unfold isForFolders
  rw [cutAt_fileName_line hnames hname, List.getLast?_append_of_ne_nil _ (by simp)]
  simpa using hname.ne_nil

include hne

theorem segmentsOf_fileName_line :
    segmentsOf (Path.joinNames (names ++ [anyDepth, name])) =
      collapse (names ++ [anyDepth, name]) := by
  have hanchor : anchor (names ++ [anyDepth, name]) = names ++ [anyDepth, name] := by
    cases names with
    | nil =>
        exact absurd rfl hne
    | cons first rest =>
        apply anchor_eq_self (hnames first List.mem_cons_self).ne_nil
        · simp
        · intro h
          have hlength := congrArg List.length h
          simp at hlength
  have hopen : openEnd (names ++ [anyDepth, name]) = names ++ [anyDepth, name] := by
    unfold openEnd
    rw [List.getLast?_append_of_ne_nil _ (by simp)]
    exact if_neg (by simpa using hname.ne_nil)
  unfold segmentsOf
  rw [cutAt_fileName_line hnames hname, hanchor, hopen]

omit hnames in
theorem isBlank_last_fileName_line :
    ∀ c ∈ (Path.joinNames (names ++ [anyDepth, name])).getLast?, Text.isBlank c = false := by
  intro c hc
  rw [Path.joinNames_append hne (by simp), Path.joinNames_cons (by simp),
    Path.joinNames_singleton, List.getLast?_append_of_ne_nil _ (by simp),
    List.getLast?_cons_of_ne_nil (by simp), List.getLast?_append_of_ne_nil _ (by simp),
    List.getLast?_cons_of_ne_nil hname.ne_nil] at hc
  exact hname.isBlank_eq_false c (List.mem_of_getLast? hc)

theorem exists_row_of_ignores {rule : IgnoreRule}
    (hrule : ofLine? (Path.joinNames (names ++ [anyDepth, name])) = .ok (some rule))
    (hsign : rule.ignores = true) :
    (∀ c ∈ (Path.joinNames names).head?, c ≠ '!' ∧ c ≠ '#') ∧
      ∃ row ending, pieces false (collapse (names ++ [anyDepth, name])) = .ok (row, ending) ∧
        ∀ path, (rule.hit? path).isSome = true ↔ Hits row ending path := by
  have hhead := head?_fileName_line hnames hne name
  have htrimmed := trimmed_eq_self (isBlank_last_fileName_line hne hname)
  rcases exists_of_ofLine?_eq hrule with ⟨row, body, ending, hpieces, hbody, rfl⟩
  have hhit := isSome_hit?_iff hbody (isAnchor_tail_of_pieces hpieces)
  rw [htrimmed] at hpieces hsign
  rcases splitSign_eq (Path.joinNames (names ++ [anyDepth, name])) with
    ⟨pattern, _, hsplit, _⟩ | ⟨hbang, hsplit, _⟩
  · rw [hsplit] at hsign
    cases hsign
  · rw [hsplit, isForFolders_fileName_line hnames hname,
      segmentsOf_fileName_line hne hnames hname] at hpieces
    refine ⟨?_, row, ending, hpieces, hhit _ _⟩
    intro c hc
    rw [← hhead] at hc
    constructor
    · rintro rfl
      exact hbang hc
    · rintro rfl
      rw [ofLine?_eq_none_of_comment hc] at hrule
      cases hrule

theorem exists_rule_of_isPlainScope (hscope : IsPlainScope names) :
    ∃ rule, ofLine? (Path.joinNames (names ++ [anyDepth, name])) = .ok (some rule) ∧
      rule.ignores = true ∧
      ∀ path, (rule.hit? path).isSome = true ↔
        ∃ below, path = Path.joinNames names ++ '/' :: below ∧
          Hits [.leadingDepth, .named (name.map .literal)] .slashOrEnd below := by
  have hpieces : pieces false (names ++ [anyDepth, name]) =
      .ok (scopedRow names [.innerDepth, .separator, .named (name.map .literal)],
        .slashOrEnd) := by
    rw [pieces_names_append hscope false (by simp), piecesFrom_depth false true (by simp),
      piecesFrom_singleton, if_neg hname.ne_anyDepth, namePiece_of_plain hname.isPlainName]
    rfl
  have hcollapse : collapse (names ++ [anyDepth, name]) = names ++ [anyDepth, name] := by
    rw [collapse_append (IsPlainScope.ne_anyDepth hscope), collapse_cons_cons,
      if_neg fun h => hname.ne_anyDepth h.2]
    rfl
  obtain ⟨body, hbody⟩ : ∃ body, patternOf
      (scopedRow names [.innerDepth, .separator, .named (name.map .literal)]) = .ok body := by
    rw [exists_patternOf_iff, isSound_scopedRow_iff, isSound_cons_iff ⟨_, rfl⟩,
      isSound_cons_iff ⟨_, rfl⟩, isSound_cons_iff (isSound_named_literals name)]
    simp
  refine ⟨⟨true, body, .slashOrEnd⟩, ?_, rfl, ?_⟩
  · have hend : ∀ c ∈ name.getLast?, Text.isBlank c = false :=
      fun c hc => hname.isBlank_eq_false c (List.mem_of_getLast? hc)
    have hline := ofLine?_scopedPattern hscope hname.ne_nil hend
    rw [scopedPattern_fileName hne hname, isForFolders_fileName_line hnames hname,
      segmentsOf_fileName_line hne hnames hname, hcollapse, hpieces] at hline
    rw [hline, outcomeOf_of_ok true hbody]
  · intro path
    rw [isSome_hit?_iff hbody (isAnchor_tail_of_pieces hpieces)]
    apply hits_scopedRow_of_coversRow hne rfl
    intro t after
    exact coversRow_innerDepth

end Line

/-- Below a plain directory, a pattern that ends in a plain name hits what it hits at the top. -/
theorem exists_hits_below {front segments : List Text} {last : Text} (hscope : IsPlainScope front)
    (hcollapsed : ∀ rest, segments = anyDepth :: rest → rest.head? ≠ some anyDepth)
    (hend : segments.getLast? = some last) (hlast : last ≠ anyDepth) (hstar : last ≠ ['*'])
    {row : List Piece} {ending : Ending}
    (hpieces : pieces false (front ++ segments) = .ok (row, ending)) :
    ∃ inner, pieces false segments = .ok (inner, ending) ∧
      ∀ path, Hits row ending path ↔
        ∃ below, path = Path.joinNames front ++ '/' :: below ∧ Hits inner ending below := by
  have hne : segments ≠ [] := by
    rintro rfl
    cases hend
  cases segments with
  | nil =>
      exact absurd rfl hne
  | cons first rest =>
      by_cases hfirst : first = anyDepth
      · rw [hfirst] at hcollapsed hend hpieces ⊢
        have hrest : rest ≠ [] := by
          rintro rfl
          exact hlast (Option.some.inj hend).symm
        have hany : rest ≠ [['*']] := by
          rintro rfl
          exact hstar (Option.some.inj hend).symm
        have hanyBelow : rest ≠ [['*'], anyDepth] := by
          rintro rfl
          exact hlast (Option.some.inj hend).symm
        rw [pieces_names_depth hscope false hrest (hcollapsed rest rfl)] at hpieces
        rcases exists_of_map_eq_ok hpieces with ⟨others, hothers, hrow⟩
        cases hrow
        refine ⟨.leadingDepth :: others.1, ?_, ?_⟩
        · rw [pieces_depth false hrest hany hanyBelow, hothers]
          rfl
        · intro path
          apply hits_scopedRow_of_coversRow hscope.ne_nil rfl
          intro t after
          exact coversRow_innerDepth
      · have hhead : (first :: rest).head? ≠ some anyDepth :=
          fun h => hfirst (Option.some.inj h)
        rw [pieces_names_name hscope false hne hhead] at hpieces
        rcases exists_of_map_eq_ok hpieces with ⟨others, hothers, hrow⟩
        cases hrow
        refine ⟨.pathStart :: others.1, ?_, ?_⟩
        · rw [pieces_name false hfirst, hothers]
          rfl
        · intro path
          apply hits_scopedRow_of_coversRow hscope.ne_nil rfl
          intro t after
          exact coversRow_separator

section Wild

variable {names : List Text} {name : Text} {row : List Piece} {ending : Ending}

theorem exists_first_wild (h : ¬∀ other ∈ names, IsPlainName other) :
    ∃ front wild back, names = front ++ wild :: back ∧ (∀ other ∈ front, IsPlainName other) ∧
      ¬IsPlainName wild := by
  induction names with
  | nil =>
      exact absurd (by simp) h
  | cons first rest ih =>
      by_cases hfirst : IsPlainName first
      · have hrest : ¬∀ other ∈ rest, IsPlainName other := by
          intro hrest
          exact h (List.forall_mem_cons.mpr ⟨hfirst, hrest⟩)
        rcases ih hrest with ⟨front, wild, back, rfl, hfront, hwild⟩
        exact ⟨first :: front, wild, back, rfl, List.forall_mem_cons.mpr ⟨hfirst, hfront⟩, hwild⟩
      · exact ⟨[], first, rest, rfl, by simp, hfirst⟩

/-- If a name of a directory has wildcards, the line of a file name that hits below the directory
hits elsewhere too. -/
theorem exists_hits_elsewhere (hnames : ∀ other ∈ names, IsPathName other)
    (hname : IsPlainFileName name)
    (hfirst : ∀ c ∈ (Path.joinNames names).head?, c ≠ '!' ∧ c ≠ '#')
    (hwild : ¬∀ other ∈ names, IsPlainName other)
    (hpieces : pieces false (collapse (names ++ [anyDepth, name])) = .ok (row, ending))
    (hhits : Hits row ending (Path.joinNames (names ++ [name]))) :
    ∃ path, (∀ other ∈ path, IsPathName other) ∧ path ≠ [] ∧ ¬names <+: path ∧
      Hits row ending (Path.joinNames path) := by
  rcases exists_first_wild hwild with ⟨front, wild, back, rfl, hfront, hspecial⟩
  have hfrontNames : ∀ other ∈ front, IsPathName other :=
    fun other hother => hnames other (List.mem_append_left _ hother)
  have hwildName : IsPathName wild := hnames wild (List.mem_append_right _ List.mem_cons_self)
  have hback : ∀ other ∈ back ++ [name], IsPathName other := by
    apply hname.isPathName_append
    intro other hother
    exact hnames other (List.mem_append_right _ (List.mem_cons_of_mem wild hother))
  have hend : (back ++ [anyDepth, name]).getLast? = some name := by
    rw [List.getLast?_append_of_ne_nil _ (by simp)]
    rfl
  have hbelow : Path.joinNames (wild :: (back ++ [name])) =
      wild ++ '/' :: Path.joinNames (back ++ [name]) :=
    Path.joinNames_cons (by simp)
  -- Another name in the place of the first one with wildcards.
  have hother : ∀ {inner : List Piece},
      pieces false (collapse (wild :: (back ++ [anyDepth, name]))) = .ok (inner, ending) →
      Hits inner ending (wild ++ '/' :: Path.joinNames (back ++ [name])) →
      ∃ later, (∀ other ∈ later, IsPathName other) ∧ later ≠ [] ∧ later.head? ≠ some wild ∧
        Hits inner ending (Path.joinNames later) := by
    intro inner hinner hwildHits
    rcases exists_hits_other hinner hend hname.ne_anyDepth hname.ne_star hwildName.ne_nil
        hwildName.no_slash hspecial hwildHits with ⟨first, later, hlater, hne, hothers⟩
    refine ⟨first :: later ++ (back ++ [name]), List.forall_mem_append.mpr ⟨hlater, hback⟩,
      by simp, ?_, ?_⟩
    · exact fun h => hne (Option.some.inj h)
    · rw [Path.joinNames_append (by simp) (by simp)]
      exact hothers
  rw [List.append_assoc, List.cons_append] at hhits hpieces
  by_cases hnil : front = []
  · subst hnil
    rw [List.nil_append] at hhits hpieces
    rw [hbelow] at hhits
    rcases hother hpieces hhits with ⟨later, hlater, hne, hhead, hothers⟩
    refine ⟨later, hlater, hne, ?_, hothers⟩
    intro hprefix
    rcases hprefix with ⟨more, rfl⟩
    exact hhead rfl
  · have hscope : IsPlainScope front := by
      refine ⟨hnil, fun other hmem => (hfrontNames other hmem).ne_nil,
        fun other hmem => (hfrontNames other hmem).no_slash, hfront, ?_⟩
      intro c hc
      apply hfirst c
      rw [Path.joinNames_append hnil (by simp),
        List.head?_append_of_ne_nil _ (Path.joinNames_ne_nil hnil hfrontNames)]
      exact hc
    rw [collapse_append (IsPlainScope.ne_anyDepth hscope)] at hpieces
    have hcollapsedEnd : (collapse (wild :: (back ++ [anyDepth, name]))).getLast? = some name := by
      rw [getLast?_collapse, List.getLast?_cons, hend]
      rfl
    rcases exists_hits_below hscope (fun rest hrest => head?_ne_anyDepth_of_collapse hrest)
        hcollapsedEnd hname.ne_anyDepth hname.ne_star hpieces with ⟨inner, hinner, hiff⟩
    rw [Path.joinNames_append hnil (by simp), hbelow] at hhits
    rcases (hiff _).mp hhits with ⟨below, hsame, hinnerHits⟩
    rw [← (List.cons.inj (List.append_cancel_left hsame)).2] at hinnerHits
    rcases hother hinner hinnerHits with ⟨later, hlater, hne, hhead, hothers⟩
    refine ⟨front ++ later, List.forall_mem_append.mpr ⟨hfrontNames, hlater⟩, by simp [hnil],
      ?_, ?_⟩
    · intro hprefix
      rw [List.prefix_append_right_inj] at hprefix
      rcases hprefix with ⟨more, rfl⟩
      exact hhead rfl
    · rw [Path.joinNames_append hnil hne]
      exact (hiff _).mpr ⟨_, rfl, hothers⟩

end Wild
end IgnoreRule

namespace IgnoreRules

open IgnoreRule

/-!
# Rules of one line
-/

section OneLine

variable {names : List Text} {name line : Text}

theorem ignoresPath_toList_iff (first : Option IgnoreRule) (path : Text) :
    ignoresPath ⟨first.toList⟩ path = true ↔
      ∃ rule, first = some rule ∧ rule.ignores = true ∧
        (rule.hit? (relative path)).isSome = true := by
  cases first with
  | none =>
      simp [ignoresPath, decisiveHit]
  | some rule =>
      cases hhit : rule.hit? (relative path) <;>
        simp [ignoresPath, decisiveHit, outweighs, hhit]

theorem isIgnored_toList_iff (first : Option IgnoreRule) (hne : names ≠ [])
    (hnames : ∀ other ∈ names, IsPathName other) (isFolder : Bool) :
    isIgnored ⟨first.toList⟩ (Path.joinNames names) isFolder = true ↔
      ∃ rule, first = some rule ∧ rule.ignores = true ∧
        ((rule.hit? (Path.joinNames names)).isSome = true ∨
          isFolder = true ∧ (rule.hit? (Path.joinNames names ++ ['/'])).isSome = true) := by
  have hown := relative_joinNames hnames [] hne
  rw [List.append_nil] at hown
  rw [isIgnored_joinNames _ hne hnames, Bool.or_eq_true, Bool.and_eq_true,
    ignoresPath_toList_iff, ignoresPath_toList_iff, hown, relative_joinNames hnames ['/'] hne]
  constructor
  · intro h
    rcases h with ⟨rule, hrule, hsign, hhit⟩ | ⟨hfolder, rule, hrule, hsign, hhit⟩
    · exact ⟨rule, hrule, hsign, Or.inl hhit⟩
    · exact ⟨rule, hrule, hsign, Or.inr ⟨hfolder, hhit⟩⟩
  · intro h
    rcases h with ⟨rule, hrule, hsign, hhit | ⟨hfolder, hhit⟩⟩
    · exact Or.inl ⟨rule, hrule, hsign, hhit⟩
    · exact Or.inr ⟨hfolder, rule, hrule, hsign, hhit⟩

theorem ofLines_singleton (hline : line ≠ []) {rules : IgnoreRules} :
    ofLines [line] = .ok rules ↔ ∃ first, ofLine? line = .ok first ∧ rules = ⟨first.toList⟩ := by
  rw [ofLines_cons, if_neg (by simpa using hline)]
  cases ofLine? line with
  | error fault =>
      simp [Except.bind]
  | ok first =>
      simp [Except.bind, Except.map, ofLines, eq_comm]

variable {d : Disk} {root : Path} {t : Text}

theorem linesOf_one_file (hfiles : filesOf d root = .ok [names ++ [fileName]])
    (hread : d.readText (root.below (names ++ [fileName])) = .ok t) :
    linesOf d root = .ok (t.wideLines.map (scopedLine (Path.joinNames names))) := by
  unfold linesOf
  rw [hfiles]
  show collectLines d root [names ++ [fileName]] = _
  rw [collectLines_cons]
  unfold scopedLines
  rw [hread, List.dropLast_concat]
  show Except.ok (_ ++ []) = _
  rw [List.append_nil]

end OneLine

/-!
# A file name below a directory
-/

/-- Whether rules take the names of a directory literally in front of a file name: below the
directory they ignore what lies at the file name or below it, where no line feed comes in between,
and elsewhere they ignore nothing. -/
structure TakesLiterally (rules : IgnoreRules) (names : List Text) (name : Text) : Prop where
  below : ∀ inner isFolder, (∀ other ∈ inner, IsPathName other) →
    (rules.isIgnored (Path.joinNames (names ++ (inner ++ [name]))) isFolder = true ↔
      ∃ front back, inner ++ [name] = front ++ name :: back ∧ '\n' ∉ Path.joinNames front)
  elsewhere : ∀ path isFolder, (∀ other ∈ path, IsPathName other) →
    ¬Path.joinNames names ++ ['/'] <+: Path.joinNames path →
    rules.isIgnored (Path.joinNames path) isFolder = false

section Literal

variable {names : List Text} {name : Text}

theorem name_ne_name_feed (name : Text) : name ≠ name ++ ['\n'] := by
  intro h
  have hlength := congrArg List.length h
  simp at hlength

theorem hits_inner_iff {inner : List Text} (hname : IsPlainFileName name)
    (hinner : ∀ other ∈ inner, IsPathName other) :
    Hits [.leadingDepth, .named (name.map .literal)] .slashOrEnd
        (Path.joinNames (inner ++ [name])) ↔
      ∃ front back, inner ++ [name] = front ++ name :: back ∧ '\n' ∉ Path.joinNames front := by
  have hslash : ∀ other ∈ inner ++ [name], '/' ∉ other :=
    fun other hother => (hname.isPathName_append hinner other hother).no_slash
  have hnil : [] ∉ (inner ++ [name]).dropLast := by
    rw [List.dropLast_concat]
    intro hmem
    exact (hinner [] hmem).ne_nil rfl
  rw [hits_joinNames_iff hname.isPathName.no_slash (by simp) hslash hnil]
  constructor
  · intro h
    rcases h with ⟨front, other, back, hsplit, hfeed, rfl | ⟨rfl, rfl⟩⟩
    · exact ⟨front, back, hsplit, hfeed⟩
    · have hlast := congrArg List.getLast? hsplit
      rw [List.getLast?_concat, List.getLast?_concat] at hlast
      exact absurd (Option.some.inj hlast) (name_ne_name_feed name)
  · intro h
    rcases h with ⟨front, back, hsplit, hfeed⟩
    exact ⟨front, name, back, hsplit, hfeed, Or.inl rfl⟩

theorem hits_of_hits_slash {path : Text} (hname : IsPlainFileName name)
    (h : Hits [.leadingDepth, .named (name.map .literal)] .slashOrEnd (path ++ ['/'])) :
    Hits [.leadingDepth, .named (name.map .literal)] .slashOrEnd path := by
  rw [hits_leadingDepth_iff] at h ⊢
  rcases h with ⟨front, after, hpath, hfront, hadmits⟩
  rcases List.eq_nil_or_concat after with rfl | ⟨rest, c, rfl⟩
  · have hlast := congrArg List.getLast? hpath
    rw [List.append_nil, List.getLast?_concat, List.getLast?_append_of_ne_nil _ hname.ne_nil]
      at hlast
    exact absurd (List.mem_of_getLast? hlast.symm) hname.isPathName.no_slash
  · rw [List.concat_eq_append, ← List.append_assoc, ← List.append_assoc, List.append_assoc front]
      at hpath
    have hends := List.append_inj' hpath rfl
    refine ⟨front, rest, hends.1, hfront, ?_⟩
    cases rest with
    | nil =>
        exact Or.inr (Or.inl rfl)
    | cons x more =>
        rcases hadmits with hhead | hnil | hfeed
        · exact Or.inl hhead
        · cases hnil
        · have hlength := congrArg List.length hfeed
          simp at hlength

/-- In a plain directory, what the line of a file name ignores lies below the directory at the name,
at any depth. -/
theorem isIgnored_fileName_iff (hscope : IsPlainScope names)
    (hnames : ∀ other ∈ names, IsPathName other) (hname : IsPlainFileName name) :
    ∃ rule, ofLine? (Path.joinNames (names ++ [anyDepth, name])) = .ok (some rule) ∧
      ∀ path isFolder, path ≠ [] → (∀ other ∈ path, IsPathName other) →
        (isIgnored ⟨(some rule).toList⟩ (Path.joinNames path) isFolder = true ↔
          ∃ below, Path.joinNames path = Path.joinNames names ++ '/' :: below ∧
            Hits [.leadingDepth, .named (name.map .literal)] .slashOrEnd below) := by
  rcases exists_rule_of_isPlainScope hscope.ne_nil hnames hname hscope with
    ⟨rule, hrule, hsign, hhit⟩
  refine ⟨rule, hrule, ?_⟩
  intro path isFolder hne hpath
  rw [isIgnored_toList_iff _ hne hpath]
  constructor
  · intro h
    rcases h with ⟨other, hsame, _, hother⟩
    rw [← Option.some.inj hsame] at hother
    rcases hother with hown | ⟨_, hslash⟩
    · exact (hhit _).mp hown
    · -- The slash asked for behind a directory is never part of what the name covers.
      rcases (hhit _).mp hslash with ⟨below, hbelow, hhits⟩
      rcases List.eq_nil_or_concat below with rfl | ⟨rest, c, rfl⟩
      · rcases hits_leadingDepth_iff.mp hhits with ⟨front, after, hnil, _⟩
        have hempty := (List.append_eq_nil_iff.mp (List.append_eq_nil_iff.mp hnil.symm).2).1
        exact absurd hempty hname.ne_nil
      · rw [List.concat_eq_append, ← List.cons_append, ← List.append_assoc] at hbelow
        have hends := List.append_inj' hbelow rfl
        rw [List.concat_eq_append, ← hends.2] at hhits
        exact ⟨rest, hends.1, hits_of_hits_slash hname hhits⟩
  · intro h
    exact ⟨rule, rfl, hsign, Or.inl ((hhit _).mpr h)⟩

theorem takesLiterally_of_isPlainScope (hscope : IsPlainScope names)
    (hnames : ∀ other ∈ names, IsPathName other) (hname : IsPlainFileName name) :
    ∃ first, ofLine? (Path.joinNames (names ++ [anyDepth, name])) = .ok first ∧
      TakesLiterally ⟨first.toList⟩ names name := by
  rcases isIgnored_fileName_iff hscope hnames hname with ⟨rule, hrule, hiff⟩
  refine ⟨some rule, hrule, ?_, ?_⟩
  · intro inner isFolder hinner
    have hpath := List.forall_mem_append.mpr ⟨hnames, hname.isPathName_append hinner⟩
    rw [hiff _ isFolder (by simp) hpath, ← hits_inner_iff hname hinner,
      Path.joinNames_append hscope.ne_nil (by simp)]
    constructor
    · intro h
      rcases h with ⟨below, hsame, hhits⟩
      rw [(List.cons.inj (List.append_cancel_left hsame)).2]
      exact hhits
    · intro h
      exact ⟨_, rfl, h⟩
  · intro path isFolder hpath hout
    by_cases hne : path = []
    · rw [hne]
      rfl
    · rw [Bool.eq_false_iff]
      intro hignored
      rcases (hiff path isFolder hne hpath).mp hignored with ⟨below, hbelow, _⟩
      apply hout
      rw [hbelow]
      exact ⟨below, by simp⟩

theorem isPlainScope_of_takesLiterally {first : Option IgnoreRule} (hne : names ≠ [])
    (hnames : ∀ other ∈ names, IsPathName other) (hname : IsPlainFileName name)
    (hfirst : ofLine? (Path.joinNames (names ++ [anyDepth, name])) = .ok first)
    (h : TakesLiterally ⟨first.toList⟩ names name) : IsPlainScope names := by
  have hpath := hname.isPathName_append hnames
  have hslash : ∀ {path : List Text}, (∀ other ∈ path, IsPathName other) →
      ∀ other ∈ path, '/' ∉ other :=
    fun hpath other hother => (hpath other hother).no_slash
  have hhere : isIgnored ⟨first.toList⟩ (Path.joinNames (names ++ [name])) false = true :=
    (h.below [] false (by simp)).mpr ⟨[], [], rfl, List.not_mem_nil⟩
  rcases (isIgnored_toList_iff first (by simp) hpath false).mp hhere with
    ⟨rule, rfl, hsign, hhit | ⟨hfolder, _⟩⟩
  · rcases exists_row_of_ignores hne hnames hname hfirst hsign with
      ⟨hchar, row, ending, hpieces, hiff⟩
    refine ⟨hne, fun other hother => (hnames other hother).ne_nil, hslash hnames, ?_, hchar⟩
    by_contra hwild
    rcases exists_hits_elsewhere hnames hname hchar hwild hpieces ((hiff _).mp hhit) with
      ⟨path, hpathNames, hpathNe, hout, hhits⟩
    have hkept : isIgnored ⟨(some rule).toList⟩ (Path.joinNames path) false = false := by
      apply h.elsewhere path false hpathNames
      intro hprefix
      apply hout
      exact Path.prefix_of_joinNames_prefix hne (hslash hnames) hpathNe (hslash hpathNames) hprefix
    have hignored := (isIgnored_toList_iff (some rule) hpathNe hpathNames false).mpr
      ⟨rule, rfl, hsign, Or.inl ((hiff _).mpr hhits)⟩
    rw [hignored] at hkept
    cases hkept
  · cases hfolder

/-- The only ignore file of a tree, with the name of a file for its only line, has the directory of
the ignore file taken literally exactly when the names of the directory mean themselves in a
pattern. -/
theorem exists_takesLiterally_iff {d : Disk} {root : Path} {t : Text} (hne : names ≠ [])
    (hnames : ∀ other ∈ names, IsPathName other)
    (hfiles : filesOf d root = .ok [names ++ [fileName]])
    (hread : d.readText (root.below (names ++ [fileName])) = .ok t)
    (hlines : t.wideLines = [name]) (hname : IsPlainFileName name) :
    (∃ rules, load d root = .ok rules ∧ rules.TakesLiterally names name) ↔
      IsPlainScope names := by
  have hscope := Path.joinNames_ne_nil hne hnames
  have hline : Path.joinNames (names ++ [anyDepth, name]) ≠ [] := by
    rw [Path.joinNames_append hne (by simp)]
    simp
  have hload : ∀ rules, load d root = .ok rules ↔
      ∃ first, ofLine? (Path.joinNames (names ++ [anyDepth, name])) = .ok first ∧
        rules = ⟨first.toList⟩ := by
    intro rules
    rw [load_eq_ok_iff, linesOf_one_file hfiles hread, hlines, List.map_singleton,
      scopedLine_fileName hne hscope hname, ← ofLines_singleton hline]
    simp
  constructor
  · intro h
    rcases h with ⟨rules, hrules, hliteral⟩
    rcases (hload rules).mp hrules with ⟨first, hfirst, rfl⟩
    exact isPlainScope_of_takesLiterally hne hnames hname hfirst hliteral
  · intro h
    rcases takesLiterally_of_isPlainScope h hnames hname with ⟨first, hfirst, hliteral⟩
    exact ⟨_, (hload _).mpr ⟨first, hfirst, rfl⟩, hliteral⟩

def withGenerated (directory : Text) : Disk :=
  ⟨.folder directory (.file fileName [103, 101, 110, 46, 112, 121, 10] .empty) .empty, []⟩

theorem filesOf_withGenerated (directory : Text) (hdirectory : directory ≠ fileName) :
    filesOf (withGenerated directory) ⟨[], []⟩ = .ok [[directory] ++ [fileName]] := by
  show Except.ok (Path.sortNames ((if directory = fileName then [[directory]] else []) ++
    [[directory, fileName]] ++ [])) = _
  rw [if_neg hdirectory, Path.sortNames_eq_self (by simp)]
  rfl

/-- The directory `s p` is taken literally. -/
theorem exists_takesLiterally_iff_blank :
    ∃ rules, load (withGenerated ['s', ' ', 'p']) ⟨[], []⟩ = .ok rules ∧
      rules.TakesLiterally [['s', ' ', 'p']] ['g', 'e', 'n', '.', 'p', 'y'] := by
  have hscope : IsPlainScope [['s', ' ', 'p']] := by
    refine ⟨by simp, by simp, by simp, by simp, ?_⟩
    intro c hc
    cases hc
    decide
  have hnames : ∀ other ∈ [['s', ' ', 'p']], IsPathName other := by
    intro other hother
    rw [List.mem_singleton.mp hother]
    exact ⟨by decide, by decide, by decide⟩
  have hname : IsPlainFileName ['g', 'e', 'n', '.', 'p', 'y'] :=
    ⟨by decide, by decide, by simp⟩
  have hfiles := filesOf_withGenerated ['s', ' ', 'p'] (by decide)
  exact (exists_takesLiterally_iff (by decide) hnames hfiles rfl rfl hname).mpr hscope

/-- The directory `[ab]` is not: its line `gen.py` ignores the file in a directory `a` instead. -/
theorem exists_not_isIgnored_bracketed :
    ∃ rules, filesOf (withGenerated ['[', 'a', 'b', ']']) ⟨[], []⟩ =
        .ok [[['[', 'a', 'b', ']'], fileName]] ∧
      load (withGenerated ['[', 'a', 'b', ']']) ⟨[], []⟩ = .ok rules ∧
      rules.isIgnored
        (Path.joinNames [['[', 'a', 'b', ']'], ['g', 'e', 'n', '.', 'p', 'y']]) false = false ∧
      rules.isIgnored (Path.joinNames [['a'], ['g', 'e', 'n', '.', 'p', 'y']]) false = true := by
  have hfiles := filesOf_withGenerated ['[', 'a', 'b', ']'] (by decide)
  have hlines : ∃ lines rules,
      linesOf (withGenerated ['[', 'a', 'b', ']']) ⟨[], []⟩ = .ok lines ∧
      ofLines lines = .ok rules ∧
      rules.isIgnored
        (Path.joinNames [['[', 'a', 'b', ']'], ['g', 'e', 'n', '.', 'p', 'y']]) false = false ∧
      rules.isIgnored (Path.joinNames [['a'], ['g', 'e', 'n', '.', 'p', 'y']]) false = true := by
    unfold linesOf
    rw [hfiles]
    exact ⟨_, _, rfl, rfl, rfl, rfl⟩
  rcases hlines with ⟨lines, rules, hlines, hrules, hignored⟩
  exact ⟨rules, hfiles, load_eq_ok_iff.mpr ⟨lines, hlines, hrules⟩, hignored⟩

end Literal
end IgnoreRules
end SourceAudit
