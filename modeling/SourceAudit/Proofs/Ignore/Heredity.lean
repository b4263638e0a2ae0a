import SourceAudit.Ignore.Rules
import SourceAudit.Proofs.Ignore.Rows

/-!
# Heredity of hits

## From a directory to what lies below it

A rule whose pattern holds no set of characters and that hits a directory, by its path or by its
path with a slash behind, also hits every path below the directory.

What such a rule covers can go on below the directory in the same way, with one exception.  When the
match ends behind the slash, at the end of the path, the last name of the pattern covers no
character.  It then consists of stars, and covers the next name of the longer path.
-/

namespace SourceAudit

def GlobPart.isSet : GlobPart → Bool
  | set _ _ => true
  | _ => false

namespace Glob

/-!
# Parts of a segment
-/

theorem partsFrom_cons (state : State) (c : Char) (rest : Text) :
    (∃ later, later ≠ .plain ∧ partsFrom state (c :: rest) = partsFrom later rest) ∨
      ∃ part, (∀ x, part = .literal x → x = c) ∧
        partsFrom state (c :: rest) = (partsFrom .plain rest).map (part :: ·) := by
  cases state with
  | plain =>
      by_cases hescape : c = '\\'
      · rw [partsFrom, if_pos hescape]
        exact Or.inl ⟨.escaped, by simp, rfl⟩
      · by_cases hrun : c = '*'
        · rw [partsFrom, if_neg hescape, if_pos hrun]
          exact Or.inr ⟨.anyRun, by simp, rfl⟩
        · by_cases hone : c = '?'
          · rw [partsFrom, if_neg hescape, if_neg hrun, if_pos hone]
            exact Or.inr ⟨.anyOne, by simp, rfl⟩
          · by_cases hopen : c = '['
            · rw [partsFrom, if_neg hescape, if_neg hrun, if_neg hone, if_pos hopen]
              exact Or.inl ⟨.setOpen, by simp, rfl⟩
            · rw [partsFrom, if_neg hescape, if_neg hrun, if_neg hone, if_neg hopen]
              exact Or.inr ⟨.literal c, by simp, rfl⟩
  | escaped =>
      exact Or.inr ⟨.literal c, by simp, rfl⟩
  | setOpen =>
      by_cases hsign : c = '!' ∨ c = '^'
      · rw [partsFrom, if_pos hsign]
        exact Or.inl ⟨.setNegated, by simp, rfl⟩
      · rw [partsFrom, if_neg hsign]
        exact Or.inl ⟨.inSet false [c], by simp, rfl⟩
  | setNegated =>
      exact Or.inl ⟨.inSet true [c], by simp, rfl⟩
  | inSet negated members =>
      by_cases hclose : c = ']'
      · rw [partsFrom, if_pos hclose]
        exact Or.inr ⟨.set negated members.reverse, by simp, rfl⟩
      · rw [partsFrom, if_neg hclose]
        exact Or.inl ⟨.inSet negated (c :: members), by simp, rfl⟩

theorem partsFrom_eq_nil {state : State} {t : Text} (h : partsFrom state t = .ok []) :
    state = .plain ∧ t = [] := by
  induction t generalizing state with
  | nil =>
      cases state with
      | plain =>
          exact ⟨rfl, rfl⟩
      | _ =>
          cases h
  | cons c rest ih =>
      rcases partsFrom_cons state c rest with ⟨later, hlater, hstep⟩ | ⟨part, _, hstep⟩
      · rw [hstep] at h
        exact absurd (ih h).1 hlater
      · rw [hstep] at h
        rcases exists_of_map_eq_ok h with ⟨parts, _, hnil⟩
        cases hnil

theorem mem_of_literal_mem {state : State} {t : Text} {parts : List GlobPart}
    (h : partsFrom state t = .ok parts) {c : Char} (hc : .literal c ∈ parts) : c ∈ t := by
  induction t generalizing state parts with
  | nil =>
      cases state with
      | plain =>
          cases h
          cases hc
      | _ =>
          cases h
  | cons x rest ih =>
      rcases partsFrom_cons state x rest with ⟨later, _, hstep⟩ | ⟨part, hpart, hstep⟩
      · rw [hstep] at h
        exact List.mem_cons_of_mem x (ih h hc)
      · rw [hstep] at h
        rcases exists_of_map_eq_ok h with ⟨others, hrest, hcons⟩
        rw [← hcons] at hc
        rcases List.mem_cons.mp hc with hfirst | hothers
        · rw [hpart c hfirst.symm]
          exact List.mem_cons_self
        · exact List.mem_cons_of_mem x (ih hrest hothers)

theorem Covers.no_slash {parts : List GlobPart} {t : Text} (h : Covers parts t)
    (hset : ∀ part ∈ parts, part.isSet = false) (hslash : .literal '/' ∉ parts) :
    '/' ∉ t := by
  induction parts generalizing t with
  | nil =>
      cases h
      exact List.not_mem_nil
  | cons part rest ih =>
      rcases h with ⟨u, v, rfl, hpart, hrest⟩
      have hv : '/' ∉ v := by
        apply ih hrest
        · intro other hmem
          exact hset other (List.mem_cons_of_mem part hmem)
        · intro hmem
          exact hslash (List.mem_cons_of_mem part hmem)
      have hu : '/' ∉ u := by
        intro hmem
        cases part with
        | literal c =>
            cases hpart
            rw [← List.mem_singleton.mp hmem] at hslash
            exact hslash List.mem_cons_self
        | anyRun =>
            exact hpart '/' hmem rfl
        | anyOne =>
            rcases hpart with ⟨x, rfl, hx⟩
            exact hx (List.mem_singleton.mp hmem).symm
        | set negated members =>
            cases hset (.set negated members) List.mem_cons_self
      intro hmem
      rcases List.mem_append.mp hmem with hmem | hmem
      · exact hu hmem
      · exact hv hmem

theorem Covers.of_nil {parts : List GlobPart} (h : Covers parts []) (hne : parts ≠ []) {t : Text}
    (ht : '/' ∉ t) : Covers parts t := by
  cases parts with
  | nil =>
      exact absurd rfl hne
  | cons part rest =>
      rcases h with ⟨u, v, huv, hpart, hrest⟩
      rcases List.append_eq_nil_iff.mp huv.symm with ⟨rfl, rfl⟩
      refine ⟨t, [], (List.append_nil t).symm, ?_, hrest⟩
      cases part with
      | literal c =>
          cases hpart
      | anyRun =>
          intro x hx hslash
          rw [hslash] at hx
          exact ht hx
      | anyOne =>
          rcases hpart with ⟨x, hx, _⟩
          cases hx
      | set negated members =>
          rcases hpart with ⟨found, x, _, hx, _⟩
          cases hx

end Glob

namespace IgnoreRule

/-!
# Names at the end of a row
-/

/-- A piece that covers no slash, and any name if it covers the empty text. -/
structure Piece.FillsName (piece : Piece) : Prop where
  no_slash : ∀ {t after}, piece.Covers t after → '/' ∉ t
  covers_of_nil : ∀ {after}, piece.Covers [] after → ∀ {t after'}, '/' ∉ t → piece.Covers t after'

def holdsSet (segment : Text) : Bool :=
  match Glob.parts segment with
  | .error _ => false
  | .ok parts => parts.any GlobPart.isSet

theorem fillsName_of_namePiece {segment : Text} {piece : Piece} (h : namePiece segment = .ok piece)
    (hne : segment ≠ []) (hslash : '/' ∉ segment) (hset : holdsSet segment = false) :
    piece.FillsName := by
  unfold namePiece at h
  by_cases hstar : segment = ['*']
  · rw [if_pos hstar] at h
    cases h
    constructor
    · intro t after hcovers hmem
      exact hcovers.2.1 '/' hmem rfl
    · intro after hcovers
      exact absurd rfl hcovers.1
  · rw [if_neg hstar] at h
    rcases exists_of_map_eq_ok h with ⟨parts, hparts, rfl⟩
    constructor
    · intro t after hcovers
      apply Glob.Covers.no_slash hcovers
      · intro part hmem
        unfold holdsSet at hset
        rw [hparts] at hset
        simpa using List.any_eq_false.mp hset part hmem
      · intro hmem
        exact hslash (Glob.mem_of_literal_mem hparts hmem)
    · intro after hcovers t after' ht
      apply Glob.Covers.of_nil hcovers _ ht
      intro hnil
      rw [hnil] at hparts
      exact hne (Glob.partsFrom_eq_nil hparts).2

theorem RowOf.exists_last {forFolders separated : Bool} {segments : List Text} {row : List Piece}
    {ending : Ending} (h : RowOf forFolders separated segments row ending)
    (hending : ending = .slashOrEnd) :
    ∃ front piece last, row = front ++ [piece] ∧ segments.getLast? = some last ∧
      namePiece last = .ok piece := by
  induction h with
  | lastDepth separated =>
      cases forFolders <;> cases hending
  | lastName separated hlast hname =>
      exact ⟨lead _, _, _, rfl, rfl, hname⟩
  | depth separated hrest hrow ih =>
      rcases ih hending with ⟨front, piece, last, rfl, hlast, hname⟩
      refine ⟨.innerDepth :: front, piece, last, rfl, ?_, hname⟩
      rw [List.getLast?_cons, hlast]
      rfl
  | @name separated segment first rest row ending hsegment hfirst hrest hrow ih =>
      rcases ih hending with ⟨front, piece, last, rfl, hlast, hname⟩
      refine ⟨lead separated ++ first :: front, piece, last, ?_, ?_, hname⟩
      · exact (List.append_assoc (lead separated) (first :: front) [piece]).symm
      · rw [List.getLast?_cons, hlast]
        rfl

/-!
# What follows a covered text
-/

theorem Piece.Covers.behind {piece : Piece} {t after after' : Text} (h : piece.Covers t after)
    (hafter : ∀ x ∈ after'.head?, x = '/' ∨ after.head? = some x) : piece.Covers t after' := by
  cases piece with
  | anyName =>
      rcases h with ⟨hne, hname, hend⟩
      refine ⟨hne, hname, ?_⟩
      intro x hx
      rcases hafter x hx with hslash | hsame
      · exact hslash
      · exact hend x hsame
  | _ =>
      exact h

theorem CoversRow.behind {row : List Piece} {t after after' : Text} (h : CoversRow row t after)
    (hafter : ∀ x ∈ after'.head?, x = '/' ∨ after.head? = some x) : CoversRow row t after' := by
  induction row generalizing t with
  | nil =>
      exact h
  | cons piece rest ih =>
      rcases h with ⟨u, v, rfl, hpiece, hrest⟩
      refine ⟨u, v, rfl, hpiece.behind ?_, ih hrest⟩
      cases v with
      | nil =>
          exact hafter
      | cons c more =>
          intro x hx
          exact Or.inr hx

theorem CoversRow.of_closed {row : List Piece} {t after after' : Text} (h : CoversRow row t after)
    (hclosed : ∀ x ∈ t.getLast?, x = '/') : CoversRow row t after' := by
  induction row generalizing t with
  | nil =>
      exact h
  | cons piece rest ih =>
      rcases h with ⟨u, v, rfl, hpiece, hrest⟩
      cases v with
      | nil =>
          refine ⟨u, [], rfl, ?_, ih hrest (by simp)⟩
          rw [List.append_nil] at hclosed
          cases piece with
          | anyName =>
              rcases hpiece with ⟨hne, hname, _⟩
              have hlast := hclosed _ (List.getLast?_eq_some_getLast hne)
              exact absurd hlast (hname _ (List.getLast_mem hne))
          | _ =>
              exact hpiece
      | cons c more =>
          refine ⟨u, c :: more, rfl, hpiece.behind ?_, ih hrest ?_⟩
          · intro x hx
            exact Or.inr hx
          · rw [List.getLast?_append] at hclosed
            intro x hx
            apply hclosed
            rw [hx]
            rfl

/-!
# Hits below a directory
-/

/-- A hit on the path of a directory goes on below it. -/
theorem Hits.behind_name {row : List Piece} {ending : Ending} {path : Text}
    (h : Hits row ending path) (hline : '\n' ∉ path) (below : Text) :
    Hits row ending (path ++ '/' :: below) := by
  rcases h with ⟨before, t, after, rfl, hbefore, hcovers, hadmits⟩
  refine ⟨before, t, after ++ '/' :: below, by simp, hbefore, hcovers.behind ?_, ?_⟩
  · cases after with
    | nil =>
        intro x hx
        exact Or.inl (Option.some.inj hx).symm
    | cons c more =>
        intro x hx
        exact Or.inr hx
  · cases ending with
    | anywhere =>
        trivial
    | slash =>
        cases after with
        | nil =>
            cases hadmits
        | cons c more =>
            exact hadmits
    | slashOrEnd =>
        rcases hadmits with hslash | hnil | hfeed
        · left
          cases after with
          | nil =>
              cases hslash
          | cons c more =>
              exact hslash
        · rw [hnil]
          exact Or.inl rfl
        · rw [hfeed] at hline
          exact absurd (by simp) hline

theorem CoversRow.next_name {front : List Piece} {piece : Piece} {t : Text}
    (h : CoversRow (front ++ [piece]) t []) (hfills : piece.FillsName)
    (hclosed : ∀ x ∈ t.getLast?, x = '/') (below : Text) :
    ∃ name rest, below = name ++ rest ∧ (rest.head? = some '/' ∨ rest = []) ∧
      CoversRow (front ++ [piece]) (t ++ name) rest := by
  rcases coversRow_append.mp h with ⟨u, v, rfl, hfront, hpiece⟩
  rw [coversRow_singleton] at hpiece
  have hv : v = [] := by
    rcases List.eq_nil_or_concat v with hnil | ⟨init, c, hconcat⟩
    · exact hnil
    · have hc : c = '/' := by
        apply hclosed
        rw [hconcat, List.getLast?_append]
        simp
      have hslash := hfills.no_slash hpiece
      rw [hconcat, hc] at hslash
      exact absurd (by simp) hslash
  rw [hv] at hpiece hclosed
  rw [hv, List.append_nil]
  rw [List.append_nil] at hclosed
  refine ⟨below.takeWhile (· != '/'), below.dropWhile (· != '/'),
    (List.takeWhile_append_dropWhile).symm, ?_, ?_⟩
  · cases hrest : below.dropWhile (· != '/') with
    | nil =>
        exact Or.inr rfl
    | cons c more =>
        left
        have hc := List.head?_dropWhile_not (· != '/') below
        rw [hrest] at hc
        simpa using hc
  · apply coversRow_append.mpr
    refine ⟨u, below.takeWhile (· != '/'), rfl, hfront.of_closed hclosed, ?_⟩
    apply coversRow_singleton.mpr
    apply hfills.covers_of_nil hpiece
    intro hmem
    have hother := List.all_eq_true.mp List.all_takeWhile '/' hmem
    simp at hother

/-- A hit on the path of a directory with a slash behind goes on below it, if a row that may end
with the path ends in a piece that fills a name. -/
theorem Hits.behind_slash {row : List Piece} {ending : Ending} {path : Text}
    (h : Hits row ending (path ++ ['/']))
    (hlast : ending = .slashOrEnd → ∃ front piece, row = front ++ [piece] ∧ piece.FillsName)
    (below : Text) : Hits row ending (path ++ '/' :: below) := by
  rcases h with ⟨before, t, after, hpath, hbefore, hcovers, hadmits⟩
  have hwhole : path ++ '/' :: below = before ++ (t ++ (after ++ below)) := by
    have hjoined := congrArg (· ++ below) hpath
    simpa using hjoined
  rcases List.eq_nil_or_concat after with rfl | ⟨back, c, hback⟩
  · -- The match ends behind the slash, so what it covers is closed.
    have hclosed : ∀ x ∈ t.getLast?, x = '/' := by
      intro x hx
      have hend := congrArg List.getLast? hpath
      rw [List.append_nil, List.getLast?_append, List.getLast?_append, hx] at hend
      exact (Option.some.inj hend).symm
    rw [List.nil_append] at hwhole
    cases ending with
    | anywhere =>
        exact ⟨before, t, below, hwhole, hbefore, hcovers.of_closed hclosed, trivial⟩
    | slash =>
        cases hadmits
    | slashOrEnd =>
        rcases hlast rfl with ⟨front, piece, rfl, hfills⟩
        rcases hcovers.next_name hfills hclosed below with ⟨name, rest, hbelow, hrest, hnext⟩
        refine ⟨before, t ++ name, rest, ?_, hbefore, hnext, ?_⟩
        · rw [hwhole, hbelow, List.append_assoc]
        · rcases hrest with hslash | hnil
          · exact Or.inl hslash
          · exact Or.inr (Or.inl hnil)
  · have hc : c = '/' := by
      have hend := congrArg List.getLast? hpath
      rw [hback] at hend
      simpa using hend.symm
    have hhead : (after ++ below).head? = after.head? := by
      rw [hback]
      cases back <;> rfl
    refine ⟨before, t, after ++ below, hwhole, hbefore, hcovers.behind ?_, ?_⟩
    · intro x hx
      rw [hhead] at hx
      exact Or.inr hx
    · cases ending with
      | anywhere =>
          trivial
      | slash =>
          exact hhead.trans hadmits
      | slashOrEnd =>
          rcases hadmits with hslash | hnil | hfeed
          · exact Or.inl (hhead.trans hslash)
          · rw [hback] at hnil
            simp at hnil
          · rw [hback, hc] at hfeed
            have hlast := congrArg List.getLast? hfeed
            simp at hlast

/-!
# Rules of lines
-/

theorem mem_of_mem_collapse {segments : List Text} {segment : Text}
    (h : segment ∈ collapse segments) : segment ∈ segments := by
  induction segments with
  | nil =>
      exact h
  | cons first rest ih =>
      cases rest with
      | nil =>
          exact h
      | cons second later =>
          rw [collapse_cons_cons] at h
          by_cases hsame : first = anyDepth ∧ second = anyDepth
          · rw [if_pos hsame] at h
            exact List.mem_cons_of_mem first (ih h)
          · rw [if_neg hsame] at h
            rcases List.mem_cons.mp h with hfirst | hrest
            · rw [hfirst]
              exact List.mem_cons_self
            · exact List.mem_cons_of_mem first (ih hrest)

theorem mem_of_mem_openEnd {segments : List Text} {segment : Text}
    (h : segment ∈ openEnd segments) : segment = anyDepth ∨ segment ∈ segments := by
  unfold openEnd at h
  split at h
  · rcases List.mem_append.mp h with hfront | hlast
    · exact Or.inr (List.dropLast_subset segments hfront)
    · exact Or.inl (List.mem_singleton.mp hlast)
  · exact Or.inr h

theorem mem_of_mem_anchor {segments : List Text} {segment : Text}
    (h : segment ∈ anchor segments) : segment = anyDepth ∨ segment ∈ segments := by
  unfold anchor at h
  split at h
  · exact Or.inr (List.mem_cons_of_mem [] h)
  · split at h
    · exact Or.inr h
    · exact List.mem_cons.mp h
  · split at h
    · exact Or.inr h
    · exact List.mem_cons.mp h
  · exact Or.inr h

theorem no_slash_of_mem_segmentsOf {pattern segment : Text} (h : segment ∈ segmentsOf pattern) :
    '/' ∉ segment := by
  have hdepth : '/' ∉ anyDepth := by
    decide
  rcases mem_of_mem_openEnd (mem_of_mem_collapse h) with hsegment | hopen
  · rw [hsegment]
    exact hdepth
  · rcases mem_of_mem_anchor hopen with hsegment | hcut
    · rw [hsegment]
      exact hdepth
    · exact Text.not_mem_of_mem_cutAt hcut

theorem getLast?_segmentsOf_ne (pattern : Text) : (segmentsOf pattern).getLast? ≠ some [] := by
  unfold segmentsOf
  rw [getLast?_collapse]
  exact getLast?_openEnd_ne _

/-- Whether the pattern of a line holds a closed set of characters. -/
def lineHoldsSet (line : Text) : Bool :=
  (segmentsOf (splitSign (trimmed line)).2).any holdsSet

theorem exists_of_ofLine?_eq {line : Text} {rule : IgnoreRule}
    (h : ofLine? line = .ok (some rule)) :
    ∃ row body ending,
      pieces (isForFolders (splitSign (trimmed line)).2)
        (segmentsOf (splitSign (trimmed line)).2) = .ok (row, ending) ∧
      patternOf row = .ok body ∧ rule = ⟨(splitSign (trimmed line)).1, body, ending⟩ := by
  unfold ofLine? at h
  split at h
  · cases h
  · rcases hsplit : splitSign (trimmed line) with ⟨ignores, pattern⟩
    rw [hsplit] at h
    dsimp only at h
    split at h
    · cases h
    · split at h
      · cases h
      · cases h
      · rename_i found ending hpieces
        split at h
        · cases h
        · rename_i body hbody
          cases h
          exact ⟨found, body, ending, hpieces, hbody, rfl⟩

theorem exists_fillsName_of_pieces {forFolders : Bool} {pattern : Text} {row : List Piece}
    {ending : Ending} (h : pieces forFolders (segmentsOf pattern) = .ok (row, ending))
    (hset : ∀ segment ∈ segmentsOf pattern, holdsSet segment = false)
    (hending : ending = .slashOrEnd) :
    ∃ front piece, row = front ++ [piece] ∧ piece.FillsName := by
  rcases rowOf_of_pieces h with ⟨_, hother⟩ | ⟨first, others, rest, hrow, hne, hsuffix, hothers⟩
  · exact absurd hending hother
  · rcases hothers.exists_last hending with ⟨front, piece, last, hconcat, hlast, hname⟩
    have hlastAll : (segmentsOf pattern).getLast? = some last := by
      rcases hsuffix with ⟨front, hfront⟩
      rw [← hfront, List.getLast?_append, hlast]
      rfl
    have hmem := List.mem_of_getLast? hlastAll
    refine ⟨first :: front, piece, ?_, fillsName_of_namePiece hname ?_ ?_ (hset last hmem)⟩
    · rw [show row = first :: others from hrow, hconcat]
      rfl
    · intro hnil
      rw [hnil] at hlastAll
      exact getLast?_segmentsOf_ne pattern hlastAll
    · exact no_slash_of_mem_segmentsOf hmem

/-- The rule of a line without sets that hits a directory hits every path below it. -/
theorem isSome_hit?_below {line : Text} {rule : IgnoreRule} (hrule : ofLine? line = .ok (some rule))
    (hset : lineHoldsSet line = false) {path : Text} (hline : '\n' ∉ path)
    (h : (rule.hit? path).isSome = true ∨ (rule.hit? (path ++ ['/'])).isSome = true)
    (below : Text) : (rule.hit? (path ++ '/' :: below)).isSome = true := by
  rcases exists_of_ofLine?_eq hrule with ⟨row, body, ending, hpieces, hbody, rfl⟩
  have hfree := isAnchor_tail_of_pieces hpieces
  simp only [isSome_hit?_iff hbody hfree] at h ⊢
  rcases h with hpath | hslash
  · exact hpath.behind_name hline below
  · apply hslash.behind_slash
    apply exists_fillsName_of_pieces hpieces
    intro segment hsegment
    simpa using List.any_eq_false.mp hset segment hsegment

theorem trimmed_prefix (line : Text) : trimmed line <+: line := by
  unfold trimmed
  split
  · exact List.prefix_rfl
  · exact Text.dropEndWhile_prefix _ line

theorem head?_trimmed {line : Text} (h : trimmed line ≠ []) :
    (trimmed line).head? = line.head? := by
  rcases trimmed_prefix line with ⟨back, hback⟩
  have hhead : (trimmed line ++ back).head? = (trimmed line).head? :=
    List.head?_append_of_ne_nil _ h
  rw [← hhead, hback]

theorem ignores_iff_of_ofLine? {line : Text} {rule : IgnoreRule}
    (hrule : ofLine? line = .ok (some rule)) : rule.ignores = true ↔ line.head? ≠ some '!' := by
  have htrimmed : trimmed line ≠ [] := by
    intro hnil
    unfold ofLine? at hrule
    rw [hnil] at hrule
    cases hrule
  rcases exists_of_ofLine?_eq hrule with ⟨row, body, ending, _, _, rfl⟩
  show (splitSign (trimmed line)).1 = true ↔ _
  rw [← head?_trimmed htrimmed]
  unfold splitSign
  split
  · rename_i rest hsign
    simp [hsign]
  · rename_i hplain
    refine iff_of_true rfl ?_
    intro hhead
    rcases List.head?_eq_some_iff.mp hhead with ⟨rest, hrest⟩
    exact hplain rest hrest

end IgnoreRule

namespace IgnoreRules

/-!
# Rules of several lines
-/

theorem ofLines_cons (line : Text) (rest : List Text) :
    ofLines (line :: rest) =
      (if line.isEmpty then .ok none else IgnoreRule.ofLine? line).bind fun first =>
        (ofLines rest).map fun others => ⟨first.toList ++ others.rules⟩ := by
  rw [ofLines]
  cases line.isEmpty with
  | true =>
      cases ofLines rest <;> rfl
  | false =>
      cases IgnoreRule.ofLine? line with
      | error fault =>
          rfl
      | ok first =>
          cases ofLines rest <;> rfl

theorem exists_line_of_mem {lines : List Text} {rules : IgnoreRules}
    (h : ofLines lines = .ok rules) {rule : IgnoreRule} (hrule : rule ∈ rules.rules) :
    ∃ line ∈ lines, IgnoreRule.ofLine? line = .ok (some rule) := by
  induction lines generalizing rules with
  | nil =>
      cases h
      cases hrule
  | cons line rest ih =>
      rw [ofLines_cons] at h
      rcases exists_of_bind_eq_ok h with ⟨first, hfirst, h⟩
      rcases exists_of_map_eq_ok h with ⟨others, hothers, rfl⟩
      rcases List.mem_append.mp hrule with hmem | hmem
      · refine ⟨line, List.mem_cons_self, ?_⟩
        rw [Option.mem_toList.mp hmem] at hfirst
        split at hfirst
        · cases hfirst
        · exact hfirst
      · rcases ih hothers hmem with ⟨other, hother, hofLine⟩
        exact ⟨other, List.mem_cons_of_mem line hother, hofLine⟩

/-- Rules that ignore whatever they hit, and with a directory everything below it. -/
structure IsHereditary (rules : IgnoreRules) : Prop where
  ignores : ∀ rule ∈ rules.rules, rule.ignores = true
  hit_below : ∀ rule ∈ rules.rules, ∀ {path : Text}, '\n' ∉ path →
    (rule.hit? path).isSome = true ∨ (rule.hit? (path ++ ['/'])).isSome = true →
    ∀ below, (rule.hit? (path ++ '/' :: below)).isSome = true

theorem isHereditary_of_ofLines {lines : List Text} {rules : IgnoreRules}
    (h : ofLines lines = .ok rules) (hsign : ∀ line ∈ lines, line.head? ≠ some '!')
    (hset : ∀ line ∈ lines, IgnoreRule.lineHoldsSet line = false) : rules.IsHereditary := by
  constructor
  · intro rule hrule
    rcases exists_line_of_mem h hrule with ⟨line, hline, hofLine⟩
    exact (IgnoreRule.ignores_iff_of_ofLine? hofLine).mpr (hsign line hline)
  · intro rule hrule
    rcases exists_line_of_mem h hrule with ⟨line, hline, hofLine⟩
    exact IgnoreRule.isSome_hit?_below hofLine (hset line hline)

theorem decisiveHit_of_ignores (path : Text) {list : List IgnoreRule}
    (h : ∀ rule ∈ list, rule.ignores = true) {best : Option (Bool × Hit)}
    (hbest : ∀ found ∈ best, found.1 = true) :
    (∀ found ∈ decisiveHit path best list, found.1 = true) ∧
      ((decisiveHit path best list).isSome = true ↔
        best.isSome = true ∨ ∃ rule ∈ list, (rule.hit? path).isSome = true) := by
  induction list generalizing best with
  | nil =>
      refine ⟨hbest, ?_⟩
      simp [decisiveHit]
  | cons rule others ih =>
      have hothers : ∀ other ∈ others, other.ignores = true :=
        fun other hother => h other (List.mem_cons_of_mem rule hother)
      unfold decisiveHit
      cases hhit : rule.hit? path with
      | none =>
          have hrest := ih hothers hbest
          refine ⟨hrest.1, hrest.2.trans ?_⟩
          simp [hhit]
      | some hit =>
          by_cases hweight : outweighs hit best = true
          · have hnew : ∀ found ∈ some (rule.ignores, hit), found.1 = true := by
              intro found hfound
              cases hfound
              exact h rule List.mem_cons_self
            have hrest := ih hothers hnew
            simp only [hweight, if_true]
            refine ⟨hrest.1, hrest.2.trans ?_⟩
            simp [hhit]
          · have hrest := ih hothers hbest
            have hsome : best.isSome = true := by
              cases best with
              | none =>
                  exact absurd rfl hweight
              | some found =>
                  rfl
            simp only [hweight]
            refine ⟨hrest.1, hrest.2.trans ?_⟩
            simp [hhit, hsome]

theorem ignoresPath_iff_of_ignores {rules : IgnoreRules}
    (h : ∀ rule ∈ rules.rules, rule.ignores = true) (path : Text) :
    rules.ignoresPath path = true ↔
      ∃ rule ∈ rules.rules, (rule.hit? (relative path)).isSome = true := by
  have hignores : ∀ rule ∈ rules.rules.reverse, rule.ignores = true :=
    fun rule hrule => h rule (List.mem_reverse.mp hrule)
  have hnone : ∀ found ∈ (none : Option (Bool × Hit)), found.1 = true := by
    simp
  have hdecisive := decisiveHit_of_ignores (relative path) hignores hnone
  unfold ignoresPath
  cases hfound : decisiveHit (relative path) none rules.rules.reverse with
  | none =>
      rw [hfound] at hdecisive
      simpa using hdecisive.2
  | some found =>
      rw [hfound] at hdecisive
      have hsome := hdecisive.2.mp rfl
      have hsign := hdecisive.1 found rfl
      simpa [hsign] using hsome

theorem IsHereditary.ignoresPath_iff {rules : IgnoreRules} (h : rules.IsHereditary) (path : Text) :
    rules.ignoresPath path = true ↔
      ∃ rule ∈ rules.rules, (rule.hit? (relative path)).isSome = true :=
  ignoresPath_iff_of_ignores h.ignores path

end IgnoreRules
end SourceAudit
