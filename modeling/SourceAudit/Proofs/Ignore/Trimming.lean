import Mathlib.Data.List.TakeWhile
import SourceAudit.Proofs.Ignore.Heredity
import SourceAudit.Proofs.Ignore.Scoping

/-!
# Blanks at the end of a line

## Before and after a line is scoped

Blanks at the end of a line are dropped when its rule is made.  By then the line has been put below
its directory, and whether it is tied to the directory was decided with the blanks in place.  Blanks
behind a final slash make it look like one inside the pattern.  So a name with a final slash and
blanks is tied to the directory, and any other line means the same without its blanks.
-/

namespace SourceAudit
namespace IgnoreRule

/-!
# Trimming behind a slash
-/

theorem endsEscaped_append_slash (front back : Text) :
    [' ', '\\'].isPrefixOf (front ++ '/' :: back).reverse =
      [' ', '\\'].isPrefixOf back.reverse := by
  have hreverse : (front ++ '/' :: back).reverse = back.reverse ++ '/' :: front.reverse := by
    simp
  rw [hreverse]
  match back.reverse with
  | [] =>
      rfl
  | [last] =>
      show (' ' == last && ('\\' == '/' && true)) = (' ' == last && false)
      rfl
  | last :: other :: rest =>
      rfl

theorem trimmed_append_slash (front back : Text) :
    trimmed (front ++ '/' :: back) = front ++ '/' :: trimmed back := by
  unfold trimmed
  rw [endsEscaped_append_slash]
  by_cases hescape : [' ', '\\'].isPrefixOf back.reverse = true
  · rw [if_pos hescape, if_pos hescape]
  · rw [if_neg hescape, if_neg hescape]
    exact Text.dropEndWhile_append_cons (by decide) front back

theorem stripRight_eq_nil_iff (t : Text) : t.stripRight = [] ↔ t.isAllBlank = true := by
  unfold Text.stripRight Text.dropEndWhile Text.isAllBlank
  simp [List.dropWhile_eq_nil_iff, List.all_eq_true]

theorem trimmed_eq_nil_iff (t : Text) : trimmed t = [] ↔ t.isAllBlank = true := by
  unfold trimmed
  by_cases hescape : [' ', '\\'].isPrefixOf t.reverse = true
  · rw [if_pos hescape]
    have hmem : '\\' ∈ t := by
      rcases List.isPrefixOf_iff_prefix.mp hescape with ⟨rest, hrest⟩
      rw [← List.mem_reverse, ← hrest]
      simp
    constructor
    · intro hnil
      rw [hnil] at hmem
      cases hmem
    · intro hblank
      have hescapeBlank := List.all_eq_true.mp hblank '\\' hmem
      exact absurd hescapeBlank (by decide)
  · rw [if_neg hescape]
    exact stripRight_eq_nil_iff t

/-- Lines that are trimmed to the same text make the same rule, or none, or are both faulty. -/
theorem toOption_ofLine?_congr {line line' : Text} (h : trimmed line = trimmed line') :
    (ofLine? line).toOption = (ofLine? line').toOption := by
  unfold ofLine?
  rw [h]
  by_cases hvoid : isVoid (trimmed line') = true
  · rw [if_pos hvoid, if_pos hvoid]
  · rw [if_neg hvoid, if_neg hvoid]
    rcases splitSign (trimmed line') with ⟨ignores, pattern⟩
    dsimp only
    split
    · rfl
    · rcases pieces (isForFolders pattern) (segmentsOf pattern) with (_ | _) | ⟨found, ending⟩
      · rfl
      · rfl
      · rfl

/-!
# Blanks of a scoped line
-/

section Blanks

variable {scope line pattern sign : Text}

theorem not_endsEscaped_of_suffix (h : ¬['\\', ' '] <:+ line) (hpattern : pattern <:+ line) :
    ¬[' ', '\\'].isPrefixOf pattern.reverse = true := by
  intro hescape
  apply h
  have hreverse : [' ', '\\'] <+: pattern.reverse := List.isPrefixOf_iff_prefix.mp hescape
  rw [← List.reverse_suffix, List.reverse_reverse] at hreverse
  exact hreverse.trans hpattern

theorem trimmed_eq_stripRight (h : ¬['\\', ' '] <:+ line) : trimmed line = line.stripRight := by
  unfold trimmed
  exact if_neg (not_endsEscaped_of_suffix h List.suffix_rfl)

theorem trimmed_stripRight (t : Text) : trimmed t.stripRight = t.stripRight :=
  trimmed_eq_self (Text.getLast?_dropEndWhile Text.isBlank t)

theorem head?_stripRight {c : Char} (hc : Text.isBlank c = false) (t : Text) :
    t.stripRight.head? = some c ↔ t.head? = some c := by
  cases t with
  | nil =>
      exact Iff.rfl
  | cons first rest =>
      constructor
      · intro h
        rcases Text.dropEndWhile_prefix Text.isBlank (first :: rest) with ⟨dropped, hdropped⟩
        rw [← hdropped, List.head?_append]
        rw [show Text.dropEndWhile Text.isBlank (first :: rest) = Text.stripRight (first :: rest)
          from rfl, h]
        rfl
      · intro h
        rw [Option.some.inj h]
        have hkept := Text.dropEndWhile_append_cons hc [] rest
        rw [List.nil_append] at hkept
        unfold Text.stripRight
        rw [hkept]
        rfl

theorem trimmed_cons_slash_inj {rest rest' : Text}
    (h : trimmed ('/' :: rest) = trimmed ('/' :: rest')) : trimmed rest = trimmed rest' := by
  have hrest := trimmed_append_slash [] rest
  have hrest' := trimmed_append_slash [] rest'
  rw [List.nil_append] at hrest hrest'
  rw [hrest, hrest'] at h
  exact (List.cons.inj h).2

theorem trimmed_scopedPattern_congr {pattern' : Text} (front : Text)
    (htrimmed : trimmed pattern = trimmed pattern')
    (hhead : pattern'.head? = some '/' ↔ pattern.head? = some '/')
    (hinner : pattern.head? ≠ some '/' → hasInnerSlash pattern' = hasInnerSlash pattern) :
    trimmed (front ++ scopedPattern scope pattern) =
      trimmed (front ++ scopedPattern scope pattern') := by
  have hbehind : ∀ middle : Text, trimmed (front ++ (middle ++ '/' :: pattern)) =
      trimmed (front ++ (middle ++ '/' :: pattern')) := by
    intro middle
    rw [← List.append_assoc, ← List.append_assoc, trimmed_append_slash, trimmed_append_slash,
      htrimmed]
  unfold scopedPattern
  by_cases hslash : pattern.head? = some '/'
  · rw [if_pos hslash, if_pos (hhead.mpr hslash)]
    rcases List.head?_eq_some_iff.mp hslash with ⟨rest, rfl⟩
    rcases List.head?_eq_some_iff.mp (hhead.mpr hslash) with ⟨rest', rfl⟩
    rw [← List.append_assoc, ← List.append_assoc, trimmed_append_slash, trimmed_append_slash,
      trimmed_cons_slash_inj htrimmed]
  · rw [if_neg hslash, if_neg fun hslash' => hslash (hhead.mp hslash'), hinner hslash]
    by_cases hpattern : hasInnerSlash pattern = true
    · rw [if_pos hpattern, if_pos hpattern, List.append_assoc, List.append_assoc]
      exact hbehind scope
    · rw [if_neg hpattern, if_neg hpattern]
      have hdepth := hbehind (scope ++ ['/', '*', '*'])
      simpa using hdepth

/-- Whether a line, other than a comment, has a single name for its pattern, and blanks behind the
final slashes of the name. -/
def HidesFinalSlash (line : Text) : Prop :=
  line.head? ≠ some '#' ∧
    ∃ name k blanks, (splitNegation line).2 = name ++ (List.replicate (k + 1) '/' ++ blanks) ∧
      name ≠ [] ∧ '/' ∉ name ∧ blanks ≠ [] ∧ Text.isAllBlank blanks = true

theorem exists_eq_stripRight_append (t : Text) :
    ∃ blanks, t = t.stripRight ++ blanks ∧ Text.isAllBlank blanks = true := by
  rcases Text.exists_eq_dropEndWhile_append Text.isBlank t with ⟨blanks, ht, hblanks⟩
  exact ⟨blanks, ht, List.all_eq_true.mpr hblanks⟩

theorem ne_slash_of_isAllBlank {blanks : Text} (h : Text.isAllBlank blanks = true) :
    ∀ c ∈ blanks, c ≠ '/' := by
  intro c hc hslash
  have hblank := List.all_eq_true.mp h c hc
  rw [hslash] at hblank
  exact absurd hblank (by decide)

/-- With blanks behind, every slash counts as one inside the pattern. -/
theorem hasInnerSlash_append_blanks {t blanks : Text} (hne : blanks ≠ [])
    (hblanks : Text.isAllBlank blanks = true) :
    hasInnerSlash (t ++ blanks) = true ↔ '/' ∈ t := by
  have hlast : ∀ c ∈ (t ++ blanks).getLast?, (c == '/') = false := by
    intro c hc
    rw [List.getLast?_append_of_ne_nil t hne] at hc
    exact beq_eq_false_iff_ne.mpr (ne_slash_of_isAllBlank hblanks c (List.mem_of_getLast? hc))
  unfold hasInnerSlash
  rw [Text.dropEndWhile_eq_self hlast, List.contains_iff_mem, List.mem_append]
  exact or_iff_left fun hslash => ne_slash_of_isAllBlank hblanks '/' hslash rfl

theorem hasInnerSlash_stripRight (hhash : line.head? ≠ some '#')
    (hhead : (splitNegation line).2.head? ≠ some '/') (hhides : ¬HidesFinalSlash line) :
    hasInnerSlash (splitNegation line).2.stripRight = hasInnerSlash (splitNegation line).2 := by
  rcases exists_eq_stripRight_append (splitNegation line).2 with ⟨blanks, hsplit, hblanks⟩
  by_cases hne : blanks = []
  · rw [hne, List.append_nil] at hsplit
    rw [← hsplit]
  · rw [Bool.eq_iff_iff]
    conv_rhs => rw [hsplit]
    rw [hasInnerSlash_append_blanks hne hblanks]
    rcases exists_cutAt_eq (splitNegation line).2.stripRight with ⟨name, k, hname, _, hiff, _⟩
    rw [hiff]
    constructor
    · intro hmem
      rw [hname]
      exact List.mem_append_left _ hmem
    · intro hmem
      by_contra hslash
      rw [hname] at hmem
      cases k with
      | zero =>
          rw [List.replicate_zero, List.append_nil] at hmem
          exact hslash hmem
      | succ k =>
          -- All slashes of the pattern are final ones, and blanks stand behind them.
          apply hhides
          refine ⟨hhash, name, k, blanks, ?_, ?_, hslash, hne, hblanks⟩
          · rw [← List.append_assoc, ← hname]
            exact hsplit
          · intro hnil
            apply hhead
            rw [hsplit, hname, hnil]
            rfl

theorem splitNegation_stripRight (line : Text) :
    splitNegation line.stripRight =
      ((splitNegation line).1, (splitNegation line).2.stripRight) := by
  rcases splitSign_eq line with ⟨pattern, rfl, _, hsplit⟩ | ⟨hhead, _, hsplit⟩
  · have hkept := Text.dropEndWhile_append_cons (show Text.isBlank '!' = false by decide) [] pattern
    rw [hsplit]
    unfold Text.stripRight
    rw [List.nil_append] at hkept
    rw [hkept]
    rfl
  · rw [hsplit]
    rcases splitSign_eq line.stripRight with ⟨pattern, hpattern, _⟩ | ⟨_, _, hsplit'⟩
    · exfalso
      apply hhead
      rw [← head?_stripRight (by decide), hpattern]
      rfl
    · exact hsplit'

theorem splitNegation_append (line : Text) :
    (splitNegation line).1 ++ (splitNegation line).2 = line := by
  rcases splitSign_eq line with ⟨pattern, rfl, _, hsplit⟩ | ⟨_, _, hsplit⟩
  · rw [hsplit]
    rfl
  · rw [hsplit]
    rfl

theorem isAllBlank_stripRight (t : Text) : t.stripRight.isAllBlank = t.isAllBlank := by
  rw [Bool.eq_iff_iff, ← trimmed_eq_nil_iff, trimmed_stripRight, stripRight_eq_nil_iff]

theorem trimmed_pattern (hescape : ¬['\\', ' '] <:+ line) :
    trimmed (splitNegation line).2 = trimmed (splitNegation line).2.stripRight := by
  have hsuffix : (splitNegation line).2 <:+ line := ⟨_, splitNegation_append line⟩
  rw [trimmed_stripRight]
  exact trimmed_eq_stripRight fun h => hescape (h.trans hsuffix)

theorem trimmed_scopedLine (hescape : ¬['\\', ' '] <:+ line)
    (hhides : ¬(HidesFinalSlash line ∧ scope ≠ [])) :
    trimmed (scopedLine scope line) = trimmed (scopedLine scope line.stripRight) := by
  have hcomment := head?_stripRight (show Text.isBlank '#' = false by decide) line
  by_cases hunscoped : scope = [] ∨ line.isAllBlank = true ∨ line.head? = some '#'
  · have hunscoped' : scope = [] ∨ line.stripRight.isAllBlank = true ∨
        line.stripRight.head? = some '#' := by
      rw [isAllBlank_stripRight, hcomment]
      exact hunscoped
    rw [scopedLine_eq_self hunscoped, scopedLine_eq_self hunscoped', trimmed_stripRight]
    exact trimmed_eq_stripRight hescape
  · rcases not_or.mp hunscoped with ⟨hscope, hpattern⟩
    rcases not_or.mp hpattern with ⟨hblank, hhash⟩
    rw [Bool.not_eq_true] at hblank
    rw [scopedLine_eq hscope hblank hhash,
      scopedLine_eq hscope (by rw [isAllBlank_stripRight]; exact hblank) (mt hcomment.mp hhash),
      splitNegation_stripRight]
    apply trimmed_scopedPattern_congr _ (trimmed_pattern hescape)
    · exact head?_stripRight (by decide) _
    · intro hhead
      exact hasInnerSlash_stripRight hhash hhead fun h => hhides ⟨h, hscope⟩

theorem HidesFinalSlash.not_isAllBlank (h : HidesFinalSlash line) : line.isAllBlank = false := by
  rcases h with ⟨_, name, k, blanks, hpattern, _⟩
  apply List.all_eq_false.mpr
  refine ⟨'/', ?_, by decide⟩
  rw [← splitNegation_append line, hpattern]
  simp

theorem HidesFinalSlash.head?_ne (h : HidesFinalSlash line) :
    (splitNegation line).2.head? ≠ some '/' := by
  rcases h with ⟨_, name, k, blanks, hpattern, hname, hslash, _⟩
  rcases List.exists_cons_of_ne_nil hname with ⟨c, rest, rfl⟩
  rw [hpattern]
  intro hhead
  rw [Option.some.inj hhead] at hslash
  exact hslash List.mem_cons_self

theorem HidesFinalSlash.hasInnerSlash (h : HidesFinalSlash line) :
    hasInnerSlash (splitNegation line).2 = true := by
  rcases h with ⟨_, name, k, blanks, hpattern, _, _, hne, hblanks⟩
  rw [hpattern, ← List.append_assoc, hasInnerSlash_append_blanks hne hblanks]
  simp

theorem scopedLine_cons_slash (hscope : scope ≠ []) (hsign : sign = [] ∨ sign = ['!']) :
    scopedLine scope (sign ++ '/' :: pattern) = sign ++ scope ++ '/' :: pattern := by
  have hblank : Text.isAllBlank (sign ++ '/' :: pattern) = false := by
    apply List.all_eq_false.mpr
    exact ⟨'/', by simp, by decide⟩
  rcases hsign with rfl | rfl
  · rw [scopedLine_eq hscope hblank (by simp)]
    rfl
  · rw [scopedLine_eq hscope hblank (by simp)]
    rfl

theorem HidesFinalSlash.trimmed_scopedLine (h : HidesFinalSlash line)
    (hescape : ¬['\\', ' '] <:+ line) (hscope : scope ≠ []) :
    trimmed (scopedLine scope line) =
      trimmed (scopedLine scope
        ((splitNegation line).1 ++ '/' :: (splitNegation line).2.stripRight)) := by
  have hsign : (splitNegation line).1 = [] ∨ (splitNegation line).1 = ['!'] := by
    rcases splitSign_eq line with ⟨pattern, rfl, _, hsplit⟩ | ⟨_, _, hsplit⟩
    · exact Or.inr (congrArg Prod.fst hsplit)
    · exact Or.inl (congrArg Prod.fst hsplit)
  rw [scopedLine_eq hscope h.not_isAllBlank h.1, scopedLine_cons_slash hscope hsign,
    trimmed_append_slash, ← trimmed_pattern hescape]
  unfold scopedPattern
  rw [if_neg h.head?_ne, if_pos h.hasInnerSlash, List.append_assoc, ← List.append_assoc]
  exact trimmed_append_slash _ _

/-- A line below a directory and the same line without the blanks at its end make the same rule, or
none, or are both faulty.  Only a single name with final slashes and blanks is tied to the
directory, as it would be with a slash in front. -/
theorem toOption_ofLine?_scopedLine (hescape : ¬['\\', ' '] <:+ line) :
    (¬(HidesFinalSlash line ∧ scope ≠ []) →
      (ofLine? (scopedLine scope line)).toOption =
        (ofLine? (scopedLine scope line.stripRight)).toOption) ∧
    (HidesFinalSlash line ∧ scope ≠ [] →
      (ofLine? (scopedLine scope line)).toOption =
        (ofLine? (scopedLine scope
          ((splitNegation line).1 ++ '/' :: (splitNegation line).2.stripRight))).toOption) := by
  constructor
  · intro hhides
    exact toOption_ofLine?_congr (trimmed_scopedLine hescape hhides)
  · intro h
    exact toOption_ofLine?_congr (h.1.trimmed_scopedLine hescape h.2)

/-- The lines `!*.o` and `foo/`, each with a blank behind, below a directory `s`. -/
theorem toOption_ofLine?_scopedLine_tab :
    (∃ rule, ofLine? (scopedLine ['s'] ['!', '*', '.', 'o', '\t']) = .ok (some rule) ∧
      (ofLine? (scopedLine ['s'] ['!', '*', '.', 'o', '\t'])).toOption =
        (ofLine? (scopedLine ['s'] ['!', '*', '.', 'o'])).toOption) ∧
    ∃ rule, ofLine? (scopedLine ['s'] ['f', 'o', 'o', '/', ' ']) = .ok (some rule) ∧
      (ofLine? (scopedLine ['s'] ['f', 'o', 'o', '/', ' '])).toOption =
        (ofLine? (scopedLine ['s'] ['/', 'f', 'o', 'o', '/'])).toOption := by
  have hhides : HidesFinalSlash ['f', 'o', 'o', '/', ' '] :=
    ⟨by decide, ['f', 'o', 'o'], 0, [' '], rfl, by decide, by decide, by decide, by decide⟩
  have hshows : ¬HidesFinalSlash ['!', '*', '.', 'o', '\t'] := by
    intro h
    have hslash := h.hasInnerSlash
    exact absurd hslash (by decide)
  constructor
  · exact ⟨_, rfl, (toOption_ofLine?_scopedLine (by decide)).1 fun h => hshows h.1⟩
  · exact ⟨_, rfl, (toOption_ofLine?_scopedLine (by decide)).2 ⟨hhides, by decide⟩⟩

/-- Without the blank behind it, the line `foo/` is not tied to the directory `s`. -/
theorem exists_hit?_ne_of_blank :
    ∃ rule rule', ofLine? (scopedLine ['s'] ['f', 'o', 'o', '/', ' ']) = .ok (some rule) ∧
      ofLine? (scopedLine ['s'] (Text.stripRight ['f', 'o', 'o', '/', ' '])) = .ok (some rule') ∧
      rule.hit? ['s', '/', 'x', '/', 'f', 'o', 'o', '/'] = none ∧
      rule'.hit? ['s', '/', 'x', '/', 'f', 'o', 'o', '/'] = some .folder :=
  ⟨_, _, rfl, rfl, rfl, rfl⟩

end Blanks

end IgnoreRule
end SourceAudit
