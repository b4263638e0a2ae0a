import SourceAudit.Ignore.Rule
import SourceAudit.Proofs.Ignore.Below

/-!
# Segments of a scoped pattern

## A directory in front

A pattern that is put below a directory has the names of the directory as its first segments.  The
segments of the pattern itself follow, with the depth made explicit as it was without the directory.
Only a name with several slashes behind it is different: it was tied to the start and then stands
below the directory at any depth.  Such a pattern asks for a name that is empty.
-/

namespace SourceAudit

/-- The names of a directory that mean themselves in a pattern: they hold no wildcard and no
escape, and the first one does not begin like a negation or a comment. -/
structure IsPlainScope (names : List Text) : Prop where
  ne_nil : names ≠ []
  name_ne_nil : ∀ name ∈ names, name ≠ []
  no_slash : ∀ name ∈ names, '/' ∉ name
  no_wildcard : ∀ name ∈ names, ∀ c ∈ name, c ≠ '*' ∧ c ≠ '?' ∧ c ≠ '[' ∧ c ≠ '\\'
  first_ne : ∀ c ∈ (Path.joinNames names).head?, c ≠ '!' ∧ c ≠ '#'

namespace IgnoreRule

/-!
# Making the depth explicit
-/

theorem collapse_cons_cons (first second : Text) (rest : List Text) :
    collapse (first :: second :: rest) =
      if first = anyDepth ∧ second = anyDepth then collapse (second :: rest)
      else first :: collapse (second :: rest) := by
  rw [collapse]

theorem collapse_append {names : List Text} (hnames : ∀ name ∈ names, name ≠ anyDepth)
    (segments : List Text) : collapse (names ++ segments) = names ++ collapse segments := by
  induction names with
  | nil =>
      rfl
  | cons name rest ih =>
      have hname := hnames name List.mem_cons_self
      have hrest := ih fun other hother => hnames other (List.mem_cons_of_mem name hother)
      rw [List.cons_append, List.cons_append, ← hrest]
      cases rest ++ segments with
      | nil =>
          rfl
      | cons second later =>
          rw [collapse_cons_cons, if_neg fun h => hname h.1]

theorem head?_collapse (segments : List Text) :
    (collapse segments).head? = segments.head? := by
  induction segments with
  | nil =>
      rfl
  | cons first rest ih =>
      cases rest with
      | nil =>
          rfl
      | cons second later =>
          rw [collapse_cons_cons]
          by_cases h : first = anyDepth ∧ second = anyDepth
          · rw [if_pos h, ih, h.1, h.2]
            rfl
          · rw [if_neg h]
            rfl

theorem collapse_eq_nil_iff (segments : List Text) : collapse segments = [] ↔ segments = [] := by
  rw [← List.head?_eq_none_iff, head?_collapse, List.head?_eq_none_iff]

theorem getLast?_collapse (segments : List Text) :
    (collapse segments).getLast? = segments.getLast? := by
  induction segments with
  | nil =>
      rfl
  | cons first rest ih =>
      cases rest with
      | nil =>
          rfl
      | cons second later =>
          rw [collapse_cons_cons, List.getLast?_cons_cons]
          by_cases h : first = anyDepth ∧ second = anyDepth
          · rw [if_pos h, ih]
          · rw [if_neg h, ← ih]
            cases hc : collapse (second :: later) with
            | nil =>
                exact absurd ((collapse_eq_nil_iff _).mp hc) (by simp)
            | cons third end' =>
                rw [List.getLast?_cons_cons]

theorem head?_ne_anyDepth_of_collapse {segments rest : List Text}
    (h : collapse segments = anyDepth :: rest) : rest.head? ≠ some anyDepth := by
  induction segments generalizing rest with
  | nil =>
      cases h
  | cons first later ih =>
      cases later with
      | nil =>
          rw [← (List.cons.inj h).2]
          simp
      | cons second later =>
          rw [collapse_cons_cons] at h
          by_cases hboth : first = anyDepth ∧ second = anyDepth
          · rw [if_pos hboth] at h
            exact ih h
          · rw [if_neg hboth] at h
            rcases List.cons.inj h with ⟨hfirst, hrest⟩
            rw [← hrest, head?_collapse]
            intro hsecond
            exact hboth ⟨hfirst, Option.some.inj hsecond⟩

theorem eq_replicate_of_collapse_eq {segments : List Text} (h : collapse segments = [anyDepth]) :
    ∃ n, segments = List.replicate (n + 1) anyDepth := by
  induction segments with
  | nil =>
      cases h
  | cons first later ih =>
      cases later with
      | nil =>
          exact ⟨0, h⟩
      | cons second later =>
          rw [collapse_cons_cons] at h
          by_cases hboth : first = anyDepth ∧ second = anyDepth
          · rw [if_pos hboth] at h
            rcases ih h with ⟨n, hn⟩
            refine ⟨n + 1, ?_⟩
            rw [hn, hboth.1]
            rfl
          · rw [if_neg hboth] at h
            have hrest := (collapse_eq_nil_iff _).mp (List.cons.inj h).2
            cases hrest

theorem openEnd_append (names : List Text) {segments : List Text} (hsegments : segments ≠ []) :
    openEnd (names ++ segments) = names ++ openEnd segments := by
  unfold openEnd
  rw [List.getLast?_append_of_ne_nil names hsegments, List.dropLast_append_of_ne_nil hsegments]
  by_cases h : segments.getLast? = some []
  · rw [if_pos h, if_pos h, List.append_assoc]
  · rw [if_neg h, if_neg h]

theorem openEnd_concat_nil (front : List Text) : openEnd (front ++ [[]]) = front ++ [anyDepth] := by
  rw [openEnd_append front (by simp)]
  rfl

theorem getLast?_openEnd_ne (segments : List Text) : (openEnd segments).getLast? ≠ some [] := by
  unfold openEnd
  by_cases h : segments.getLast? = some []
  · rw [if_pos h, List.getLast?_concat]
    simp [anyDepth]
  · rw [if_neg h]
    exact h

theorem openEnd_eq_nil_iff (segments : List Text) : openEnd segments = [] ↔ segments = [] := by
  unfold openEnd
  by_cases h : segments.getLast? = some []
  · rw [if_pos h]
    constructor
    · intro hnil
      simp at hnil
    · intro hnil
      rw [hnil] at h
      cases h
  · rw [if_neg h]

theorem anchor_eq_self {first : Text} {rest : List Text} (hfirst : first ≠ [])
    (hrest : rest ≠ []) (hslash : rest ≠ [[]]) : anchor (first :: rest) = first :: rest := by
  cases first with
  | nil =>
      exact absurd rfl hfirst
  | cons c name =>
      cases rest with
      | nil =>
          exact absurd rfl hrest
      | cons second later =>
          cases second with
          | cons x more =>
              rfl
          | nil =>
              cases later with
              | nil =>
                  exact absurd rfl hslash
              | cons third later =>
                  rfl

theorem anchor_nil_cons (rest : List Text) : anchor ([] :: rest) = rest := rfl

theorem anchor_singleton {only : Text} (h : only ≠ []) :
    anchor [only] = if only = anyDepth then [only] else [anyDepth, only] := by
  cases only with
  | nil =>
      exact absurd rfl h
  | cons c rest =>
      rfl

theorem anchor_folder {only : Text} (h : only ≠ []) :
    anchor [only, []] = if only = anyDepth then [only, []] else [anyDepth, only, []] := by
  cases only with
  | nil =>
      exact absurd rfl h
  | cons c rest =>
      rfl

/-!
# Patterns below a directory
-/

/-- A pattern that has no name besides `**`, with a slash behind the last one.  A slash at the start
makes no name. -/
def IsBareDepth (pattern : Text) : Prop :=
  ∃ n, pattern.cutAt '/' = List.replicate (n + 1) anyDepth ++ [[]] ∨
    pattern.cutAt '/' = [] :: (List.replicate (n + 1) anyDepth ++ [[]])

section Scoped

variable {names : List Text} {pattern : Text}

theorem IsPlainScope.ne_anyDepth (hnames : IsPlainScope names) :
    ∀ name ∈ names, name ≠ anyDepth := by
  intro name hname h
  have hstar := hnames.no_wildcard name hname '*' (by rw [h]; decide)
  exact hstar.1 rfl

theorem collapse_openEnd_anchor_append (hnames : IsPlainScope names) {segments : List Text}
    (hne : segments ≠ []) (hslash : segments ≠ [[]]) :
    collapse (openEnd (anchor (names ++ segments))) = names ++ collapse (openEnd segments) := by
  have hanchor : anchor (names ++ segments) = names ++ segments := by
    cases names with
    | nil =>
        exact absurd rfl hnames.ne_nil
    | cons first rest =>
        apply anchor_eq_self (hnames.name_ne_nil first List.mem_cons_self)
        · simp [hne]
        · intro h
          rcases List.append_eq_singleton_iff.mp h with ⟨_, hsegments⟩ | ⟨_, hsegments⟩
          · exact hslash hsegments
          · exact hne hsegments
  rw [hanchor, openEnd_append names hne,
    collapse_append (IsPlainScope.ne_anyDepth hnames)]

theorem cutAt_ne_of_ne_nil (h : pattern ≠ []) : pattern.cutAt '/' ≠ [[]] := by
  intro hcut
  exact h (Text.cutAt_injective '/' (hcut.trans rfl))

theorem exists_cutAt_eq (pattern : Text) :
    ∃ core k, pattern = core ++ List.replicate k '/' ∧
      (∀ c ∈ core.getLast?, c ≠ '/') ∧ (hasInnerSlash pattern = true ↔ '/' ∈ core) ∧
      pattern.cutAt '/' = core.cutAt '/' ++ List.replicate k [] := by
  rcases Text.eq_dropEndWhile_append '/' pattern with ⟨k, hpattern⟩
  refine ⟨pattern.dropEndWhile (· == '/'), k, hpattern, ?_, ?_, ?_⟩
  · intro c hc
    simpa using Text.getLast?_dropEndWhile (· == '/') pattern c hc
  · unfold hasInnerSlash
    exact List.contains_iff_mem
  · rw [← Text.cutAt_append_replicate, ← hpattern]

theorem head?_append_replicate {core : Text} {k : Nat} (hne : core ++ List.replicate k '/' ≠ [])
    (hhead : (core ++ List.replicate k '/').head? ≠ some '/') : core ≠ [] := by
  intro hcore
  rw [hcore, List.nil_append] at hne hhead
  cases k with
  | zero =>
      exact hne rfl
  | succ k =>
      exact hhead rfl

theorem anchor_cutAt_of_hasInnerSlash (hhead : pattern.head? ≠ some '/')
    (hinner : hasInnerSlash pattern = true) :
    anchor (pattern.cutAt '/') = pattern.cutAt '/' := by
  rcases exists_cutAt_eq pattern with ⟨core, k, hpattern, hlast, hiff, hcut⟩
  obtain ⟨before, after, hsplit⟩ : ∃ before after : Text, core = before ++ '/' :: after :=
    List.append_of_mem (hiff.mp hinner)
  have hcoreCut : core.cutAt '/' = before.cutAt '/' ++ after.cutAt '/' := by
    rw [hsplit, Text.cutAt_append_cons]
  have hafter : (after.cutAt '/').getLast? ≠ some [] := by
    intro h
    rcases Text.getLast?_cutAt_eq_nil h with hnil | hslash
    · rw [hsplit, hnil, List.getLast?_concat] at hlast
      exact hlast '/' rfl rfl
    · rw [hsplit, List.getLast?_append, List.getLast?_cons, hslash] at hlast
      exact hlast '/' rfl rfl
  cases hbefore : before.cutAt '/' with
  | nil =>
      exact absurd hbefore (Text.cutAt_ne_nil '/' before)
  | cons first rest =>
      have hfirst : first ≠ [] := by
        intro hfirst
        apply hhead
        have hempty : (before.cutAt '/').head? = some [] := by
          rw [hbefore, hfirst]
          rfl
        rcases Text.head?_cutAt_eq_nil hempty with hnil | hslash
        · rw [hpattern, hsplit, hnil]
          rfl
        · rw [hpattern, hsplit, List.append_assoc, List.head?_append, hslash]
          rfl
      rw [hcut, hcoreCut, hbefore, List.cons_append, List.cons_append]
      apply anchor_eq_self hfirst
      · simp [Text.cutAt_ne_nil]
      · intro h
        rw [List.append_assoc] at h
        rcases List.append_eq_singleton_iff.mp h with ⟨_, h⟩ | ⟨_, h⟩
        · rcases List.append_eq_singleton_iff.mp h with ⟨h, _⟩ | ⟨h, _⟩
          · exact Text.cutAt_ne_nil '/' after h
          · rw [h] at hafter
            exact hafter rfl
        · exact Text.cutAt_ne_nil '/' after (List.append_eq_nil_iff.mp h).1

theorem cutAt_scopedPattern (hnames : IsPlainScope names) (pattern : Text) :
    (scopedPattern (Path.joinNames names) pattern).cutAt '/' =
      names ++
        if pattern.head? = some '/' then Text.cutAt '/' (pattern.drop 1)
        else if hasInnerSlash pattern then pattern.cutAt '/'
        else anyDepth :: pattern.cutAt '/' := by
  rw [scopedPattern_eq_append, Path.cutAt_joinNames_append hnames.ne_nil hnames.no_slash]
  unfold belowScope
  split
  · rw [List.drop_one]
  · split
    · rfl
    · show names ++ (anyDepth ++ '/' :: pattern).cutAt '/' = _
      rw [Text.cutAt_append_cons]
      rfl

theorem collapse_emptyNames (name : Text) (n : Nat) :
    collapse (name :: (List.replicate (n + 1) [] ++ [anyDepth])) =
      name :: (List.replicate (n + 1) [] ++ [anyDepth]) := by
  have hempty : ∀ segment ∈ List.replicate (n + 1) ([] : Text), segment ≠ anyDepth := by
    intro segment hsegment
    rw [List.eq_of_mem_replicate hsegment]
    decide
  show collapse (name :: [] :: (List.replicate n [] ++ [anyDepth])) = _
  rw [collapse_cons_cons, if_neg fun h => absurd h.2 (by decide)]
  congr 1
  exact collapse_append hempty [anyDepth]

theorem collapse_anchor_emptyNames {name : Text} (hname : name ≠ []) (n : Nat) :
    collapse (openEnd (anchor ([name] ++ List.replicate (n + 2) []))) =
      name :: (List.replicate (n + 1) [] ++ [anyDepth]) := by
  have hanchor : anchor ([name] ++ List.replicate (n + 2) []) =
      (name :: List.replicate (n + 1) []) ++ [[]] := by
    rw [List.replicate_succ']
    apply anchor_eq_self hname
    · simp
    · simp
  rw [hanchor, openEnd_concat_nil]
  exact collapse_emptyNames name n

theorem collapse_depth_emptyNames (name : Text) (n : Nat) :
    collapse (openEnd (anyDepth :: ([name] ++ List.replicate (n + 2) []))) =
      if name = anyDepth then name :: (List.replicate (n + 1) [] ++ [anyDepth])
      else anyDepth :: name :: (List.replicate (n + 1) [] ++ [anyDepth]) := by
  have hopen : openEnd (anyDepth :: ([name] ++ List.replicate (n + 2) [])) =
      anyDepth :: name :: (List.replicate (n + 1) [] ++ [anyDepth]) := by
    rw [List.replicate_succ']
    exact openEnd_concat_nil (anyDepth :: name :: List.replicate (n + 1) [])
  rw [hopen, collapse_cons_cons, collapse_emptyNames]
  simp

theorem segmentsOf_scopedPattern_of_not_hasInnerSlash (hnames : IsPlainScope names)
    (hne : pattern ≠ []) (hhead : pattern.head? ≠ some '/')
    (hinner : hasInnerSlash pattern ≠ true) :
    segmentsOf (scopedPattern (Path.joinNames names) pattern) = names ++ segmentsOf pattern ∨
      ∃ name n, name ≠ anyDepth ∧ isForFolders pattern = true ∧
        segmentsOf pattern = name :: (List.replicate (n + 1) [] ++ [anyDepth]) ∧
        segmentsOf (scopedPattern (Path.joinNames names) pattern) =
          names ++ anyDepth :: segmentsOf pattern := by
  rcases exists_cutAt_eq pattern with ⟨name, k, hpattern, _, hiff, hcut⟩
  have hname : name ≠ [] := by
    rw [hpattern] at hne hhead
    exact head?_append_replicate hne hhead
  rw [Text.cutAt_of_not_mem fun hmem => hinner (hiff.mpr hmem)] at hcut
  have hfolders : isForFolders pattern = (([name] ++ List.replicate k []).getLast? == some []) := by
    unfold isForFolders
    rw [hcut]
  have hscoped : segmentsOf (scopedPattern (Path.joinNames names) pattern) =
      names ++ collapse (openEnd (anyDepth :: pattern.cutAt '/')) := by
    unfold segmentsOf
    rw [cutAt_scopedPattern hnames, if_neg hhead, if_neg hinner]
    apply collapse_openEnd_anchor_append hnames
    · simp
    · simp [anyDepth]
  rw [hscoped]
  unfold segmentsOf
  rw [hcut]
  match k with
  | 0 =>
      left
      rw [List.replicate_zero, List.append_nil, anchor_singleton hname]
      by_cases hdepth : name = anyDepth
      · rw [if_pos hdepth, hdepth]
        rfl
      · rw [if_neg hdepth]
  | 1 =>
      left
      show names ++ collapse (openEnd ([anyDepth, name] ++ [[]])) =
        names ++ collapse (openEnd (anchor [name, []]))
      rw [anchor_folder hname]
      by_cases hdepth : name = anyDepth
      · rw [if_pos hdepth, hdepth]
        rfl
      · rw [if_neg hdepth]
        rfl
  | n + 2 =>
      rw [collapse_anchor_emptyNames hname, collapse_depth_emptyNames]
      by_cases hdepth : name = anyDepth
      · left
        rw [if_pos hdepth]
      · right
        rw [if_neg hdepth]
        refine ⟨name, n, hdepth, ?_, rfl, rfl⟩
        rw [hfolders, List.replicate_succ', ← List.append_assoc, List.getLast?_concat]
        rfl

/-- The segments of a scoped pattern are the names of the directory and the segments of the pattern,
except for a name with several slashes behind it. -/
theorem segmentsOf_scopedPattern (hnames : IsPlainScope names) (hne : pattern ≠ [])
    (hslash : pattern ≠ ['/']) :
    segmentsOf (scopedPattern (Path.joinNames names) pattern) = names ++ segmentsOf pattern ∨
      ∃ name n, name ≠ anyDepth ∧ isForFolders pattern = true ∧
        segmentsOf pattern = name :: (List.replicate (n + 1) [] ++ [anyDepth]) ∧
        segmentsOf (scopedPattern (Path.joinNames names) pattern) =
          names ++ anyDepth :: segmentsOf pattern := by
  by_cases hhead : pattern.head? = some '/'
  · left
    cases pattern with
    | nil =>
        cases hhead
    | cons c rest =>
        have hc : c = '/' := Option.some.inj hhead
        have hrest : rest ≠ [] := by
          intro hrest
          rw [hc, hrest] at hslash
          exact hslash rfl
        unfold segmentsOf
        rw [cutAt_scopedPattern hnames, if_pos hhead, hc, Text.cutAt_cons_self, anchor_nil_cons]
        exact collapse_openEnd_anchor_append hnames (Text.cutAt_ne_nil '/' rest)
          (cutAt_ne_of_ne_nil hrest)
  · by_cases hinner : hasInnerSlash pattern = true
    · left
      unfold segmentsOf
      rw [cutAt_scopedPattern hnames, if_neg hhead, if_pos hinner,
        anchor_cutAt_of_hasInnerSlash hhead hinner]
      exact collapse_openEnd_anchor_append hnames (Text.cutAt_ne_nil '/' pattern)
        (cutAt_ne_of_ne_nil hne)
    · exact segmentsOf_scopedPattern_of_not_hasInnerSlash hnames hne hhead hinner

theorem isForFolders_scopedPattern (hnames : IsPlainScope names) (hne : pattern ≠ [])
    (hslash : pattern ≠ ['/']) :
    isForFolders (scopedPattern (Path.joinNames names) pattern) = isForFolders pattern := by
  have hlast : ∀ (front : List Text) (t : Text),
      (front ++ t.cutAt '/').getLast? = (t.cutAt '/').getLast? :=
    fun front t => List.getLast?_append_of_ne_nil front (Text.cutAt_ne_nil '/' t)
  unfold isForFolders
  rw [cutAt_scopedPattern hnames]
  by_cases hhead : pattern.head? = some '/'
  · rw [if_pos hhead, hlast]
    cases pattern with
    | nil =>
        cases hhead
    | cons c rest =>
        rw [Option.some.inj hhead, Text.cutAt_cons_self]
        exact congrArg (· == some []) (hlast [[]] rest).symm
  · rw [if_neg hhead]
    by_cases hinner : hasInnerSlash pattern = true
    · rw [if_pos hinner, hlast]
    · rw [if_neg hinner]
      have hcons : names ++ anyDepth :: pattern.cutAt '/' =
          (names ++ [anyDepth]) ++ pattern.cutAt '/' := by
        simp
      rw [hcons, hlast]

theorem isBareDepth_of_segmentsOf (hslash : pattern ≠ ['/'])
    (hfolders : isForFolders pattern = true) (h : segmentsOf pattern = [anyDepth]) :
    IsBareDepth pattern := by
  have hlast : (pattern.cutAt '/').getLast? = some [] := by
    simpa [isForFolders] using hfolders
  rcases List.getLast?_eq_some_iff.mp hlast with ⟨front, hcut⟩
  unfold segmentsOf at h
  rcases eq_replicate_of_collapse_eq h with ⟨n, hn⟩
  have hreplicate : ∀ (segments : List Text),
      openEnd (segments ++ [[]]) = List.replicate (n + 1) anyDepth →
        segments = List.replicate n anyDepth := by
    intro segments hsegments
    rw [openEnd_concat_nil, List.replicate_succ'] at hsegments
    exact List.append_cancel_right hsegments
  rw [hcut] at hn
  match front with
  | [] =>
      cases hn
  | [] :: rest =>
      have hrest := hreplicate rest hn
      cases n with
      | zero =>
          exfalso
          apply hslash
          apply Text.cutAt_injective '/'
          rw [hcut, hrest]
          rfl
      | succ n =>
          exact ⟨n, Or.inr (by rw [hcut, hrest]; rfl)⟩
  | (c :: name) :: rest =>
      by_cases hrest : rest = []
      · rw [hrest] at hn hcut
        change openEnd (anchor [c :: name, []]) = _ at hn
        rw [anchor_folder (by simp)] at hn
        by_cases hdepth : c :: name = anyDepth
        · rw [hdepth] at hcut
          exact ⟨0, Or.inl hcut⟩
        · exfalso
          rw [if_neg hdepth] at hn
          have hfront := hreplicate [anyDepth, c :: name] hn
          apply hdepth
          apply List.eq_of_mem_replicate (n := n)
          rw [← hfront]
          simp
      · rw [List.cons_append, anchor_eq_self (by simp) (by simp) (by simp [hrest])] at hn
        have hfront := hreplicate ((c :: name) :: rest) hn
        cases n with
        | zero =>
            cases hfront
        | succ n =>
            exact ⟨n, Or.inl (by rw [hcut, hfront])⟩

theorem collapse_replicate (n : Nat) :
    collapse (List.replicate (n + 1) anyDepth) = [anyDepth] := by
  induction n with
  | zero =>
      rfl
  | succ n ih =>
      rw [List.replicate_succ, List.replicate_succ, collapse_cons_cons, if_pos ⟨rfl, rfl⟩,
        ← List.replicate_succ]
      exact ih

theorem IsBareDepth.segmentsOf_eq (h : IsBareDepth pattern) : segmentsOf pattern = [anyDepth] := by
  have hopen : ∀ n, collapse (openEnd (List.replicate (n + 1) anyDepth ++ [[]])) = [anyDepth] := by
    intro n
    rw [openEnd_concat_nil, ← List.replicate_succ']
    exact collapse_replicate (n + 1)
  unfold segmentsOf
  rcases h with ⟨n, hcut | hcut⟩
  · rw [hcut]
    cases n with
    | zero =>
        rfl
    | succ n =>
        rw [List.replicate_succ, List.cons_append, anchor_eq_self (by decide) (by simp) (by simp),
          ← List.cons_append, ← List.replicate_succ]
        exact hopen (n + 1)
  · rw [hcut, anchor_nil_cons]
    exact hopen n

theorem IsBareDepth.isForFolders (h : IsBareDepth pattern) : isForFolders pattern = true := by
  unfold IgnoreRule.isForFolders
  rcases h with ⟨n, hcut | hcut⟩
  · rw [hcut, List.getLast?_concat]
    rfl
  · rw [hcut, ← List.cons_append, List.getLast?_concat]
    rfl

theorem IsBareDepth.head? (h : IsBareDepth pattern) :
    pattern.head? = some '*' ∨ pattern.head? = some '/' := by
  rcases h with ⟨n, hcut | hcut⟩
  · left
    rw [← Text.join_cutAt '/' pattern, hcut, List.replicate_succ, List.cons_append,
      Text.join_cons _ _ _ (by simp)]
    rfl
  · right
    rw [← Text.join_cutAt '/' pattern, hcut, Text.join_cons _ _ _ (by simp)]
    rfl

theorem IsBareDepth.getLast? (h : IsBareDepth pattern) :
    pattern.getLast? = some '/' := by
  have hlast : (pattern.cutAt '/').getLast? = some [] := by
    simpa [IgnoreRule.isForFolders] using h.isForFolders
  rcases Text.getLast?_cutAt_eq_nil hlast with hnil | hslash
  · rcases h.head? with hhead | hhead <;> simp [hnil] at hhead
  · exact hslash

theorem IsBareDepth.ne_slash (h : IsBareDepth pattern) : pattern ≠ ['/'] := by
  have hcut : Text.cutAt '/' ['/'] = [[], []] := by
    decide
  intro heq
  rw [heq] at h
  rcases h with ⟨n, h | h⟩
  · rw [hcut, List.replicate_succ] at h
    cases h
  · rw [hcut, List.replicate_succ] at h
    cases h

end Scoped
end IgnoreRule
end SourceAudit
