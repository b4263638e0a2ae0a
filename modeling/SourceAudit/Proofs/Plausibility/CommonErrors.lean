import SourceAudit.Plausibility
import SourceAudit.Proofs.Pattern.Spans
import SourceAudit.Proofs.Text.Lines
import SourceAudit.Proofs.Text.Words

/-!
# Common errors and lines

## One line or two

The common errors are looked for in the whole text.  A lone keyword fills a line, so it occurs in a
text exactly when it occurs in one of the lines.  An assignment in a condition may also take the
line feed behind the condition as the character before its equals sign, and then it needs a second line,
one that begins with a single equals sign.
-/

namespace SourceAudit
namespace Plausibility

open Pattern Text

/-- Whether a line holds a keyword and a colon, and spaces and tabs around these. -/
def IsLone (keyword : String) (line : Text) : Prop :=
  ∃ indent gap space, line = indent ++ (keyword.toList ++ (gap ++ ':' :: space)) ∧
    (∀ x ∈ indent, isIndent x = true) ∧ (∀ x ∈ gap, isIndent x = true) ∧
    ∀ x ∈ space, isIndent x = true

def conditionKeywords : List String :=
  ["if", "elif", "while"]

/-- Whether a line is a condition, spaces and tabs around it apart: a whole keyword and behind it a
text that ends in a colon. -/
def IsCondition (line behind : Text) : Prop :=
  ∃ indent, ∃ keyword ∈ conditionKeywords, ∃ far space,
    line = indent ++ (keyword.toList ++ behind) ∧ behind = far ++ ':' :: space ∧
    (∀ x ∈ indent, isIndent x = true) ∧ (∀ x ∈ behind.head?, isWord x = false) ∧
    ∀ x ∈ space, isIndent x = true

/-- Whether a text holds a single equals sign, with a character before it that makes it no part of
another sign. -/
def HoldsAssignment (behind : Text) : Prop :=
  ∃ near first last after, behind = near ++ first :: '=' :: last :: after ∧
    first ∉ conditionSigns ∧ last ≠ '='

def AssignsInCondition (line : Text) : Prop :=
  ∃ behind, IsCondition line behind ∧ HoldsAssignment behind

/-- Whether two of some lines follow one another of which the first is a condition and the second
begins with a single equals sign.  What comes behind the sign may be the end of the line, but not
the end of the last line. -/
def AssignsBehindCondition (lines : List Text) : Prop :=
  ∃ front first behind second back, lines = front ++ first :: ('=' :: second) :: back ∧
    IsCondition first behind ∧ (∀ x ∈ second.head?, x ≠ '=') ∧ (second = [] → back ≠ [])

/-!
# Lone keywords
-/

def loneKeywords : List String :=
  ["while", "if", "for", "def", "class"]

theorem areWords_loneKeywords : AreWords loneKeywords := by
  simp [AreWords, loneKeywords, isWord]

theorem areWords_conditionKeywords : AreWords conditionKeywords := by
  simp [AreWords, conditionKeywords, isWord]

theorem isIndent_head?_keyword {keyword : String} {words : List String} (hwords : AreWords words)
    (hkeyword : keyword ∈ words) (after : Text) :
    ∀ x ∈ (keyword.toList ++ after).head?, isIndent x = false := by
  rcases hwords keyword hkeyword with ⟨hne, hword⟩
  intro x hx
  rw [List.head?_append_of_ne_nil _ hne] at hx
  exact isIndent_eq_false_of_isWord (hword x (List.mem_of_mem_head? hx))

theorem isIndent_eq_false_of_feed {after : Text} (h : ∀ x ∈ after.head?, x = '\n') :
    ∀ x ∈ after.head?, isIndent x = false := by
  intro x hx
  rw [h x hx]
  decide

theorem spans_loneKeyword {keyword : String} (hkeyword : AreWords [keyword])
    {before piece after : Text} :
    (loneKeyword keyword).Spans before piece after ↔
      IsLone keyword piece ∧ (∀ x ∈ before.getLast?, x = '\n') ∧
        ∀ x ∈ after.head?, x = '\n' := by
  unfold loneKeyword
  simp only [spans_sequence_cons_cons, spans_sequence_singleton, spans_lineStart, spans_indentation,
    spans_literal, spans_exactly, spans_lineEnd]
  constructor
  · intro h
    rcases h with ⟨_, _, rfl, ⟨rfl, hbefore⟩, indent, _, rfl, ⟨hindent, _⟩, _, _, rfl, rfl,
      gap, _, rfl, ⟨hgap, _⟩, _, _, rfl, rfl, space, _, rfl, ⟨hspace, _⟩, rfl, hafter⟩
    refine ⟨⟨indent, gap, space, ?_, hindent, hgap, hspace⟩, hbefore, hafter⟩
    simp
  · intro h
    rcases h with ⟨⟨indent, gap, space, rfl, hindent, hgap, hspace⟩, hbefore, hafter⟩
    refine ⟨[], _, rfl, ⟨rfl, hbefore⟩, indent, _, rfl, ⟨hindent, ?_⟩, keyword.toList, _, rfl, rfl,
      gap, _, rfl, ⟨hgap, ?_⟩, [':'], space, rfl, rfl, space, [], (List.append_nil space).symm,
      ⟨hspace, isIndent_eq_false_of_feed hafter⟩, rfl, hafter⟩
    · rw [List.append_assoc]
      exact isIndent_head?_keyword hkeyword List.mem_cons_self _
    · intro x hx
      cases hx
      decide

theorem IsLone.not_mem {keyword : String} (hkeyword : AreWords [keyword]) {line : Text}
    (h : IsLone keyword line) : '\n' ∉ line := by
  rcases h with ⟨indent, gap, space, rfl, hindent, hgap, hspace⟩
  intro hmem
  simp only [List.mem_append, List.mem_cons] at hmem
  rcases hmem with hmem | hmem | hmem | hmem | hmem
  · cases hindent _ hmem
  · have hword := (hkeyword keyword List.mem_cons_self).2 _ hmem
    revert hword
    decide
  · cases hgap _ hmem
  · cases hmem
  · cases hspace _ hmem

/-- A lone keyword occurs in a text when it fills a line of the text. -/
theorem occursIn_loneKeyword_iff {keyword : String} (hkeyword : AreWords [keyword]) {t : Text} :
    (loneKeyword keyword).occursIn t = true ↔ ∃ line ∈ t.lines, IsLone keyword line := by
  simp only [occursIn_iff_spans, spans_loneKeyword hkeyword, mem_lines_iff]
  constructor
  · intro h
    rcases h with ⟨before, line, after, ht, hline, hbefore, hafter⟩
    exact ⟨line, ⟨hline.not_mem hkeyword, before, after, ht, hbefore, hafter⟩, hline⟩
  · intro h
    rcases h with ⟨line, ⟨_, before, after, ht, hbefore, hafter⟩, hline⟩
    exact ⟨before, line, after, ht, hline, hbefore, hafter⟩

/-!
# Assignments in conditions
-/

/-- Whether the line that a text begins ends in a colon, spaces and tabs behind it apart. -/
def EndsInColon (rest : Text) : Prop :=
  ∃ far space later, rest = far ++ ':' :: (space ++ later) ∧ '\n' ∉ far ∧
    (∀ x ∈ space, isIndent x = true) ∧ ∀ x ∈ later.head?, x = '\n'

theorem spans_ahead_colon {before piece after : Text} :
    (ahead (sequence [few (· != '\n'), exactly ':', indentation, lineEnd])).Spans
        before piece after ↔
      piece = [] ∧ EndsInColon after := by
  simp only [spans_ahead, spans_sequence_cons_cons, spans_sequence_singleton, spans_few,
    spans_exactly, spans_indentation, spans_lineEnd, bne_iff_ne]
  constructor
  · intro h
    rcases h with ⟨rfl, _, later, rfl, far, _, rfl, hfar, _, _, rfl, rfl, space, _, rfl,
      ⟨hspace, _⟩, rfl, hlater⟩
    refine ⟨rfl, far, space, later, by simp, ?_, hspace, hlater⟩
    intro hmem
    exact hfar _ hmem rfl
  · intro h
    rcases h with ⟨rfl, far, space, later, rfl, hfar, hspace, hlater⟩
    refine ⟨rfl, far ++ ':' :: space, later, by simp, far, ':' :: space, rfl, ?_, [':'], space, rfl,
      rfl, space, [], (List.append_nil space).symm, ⟨hspace, isIndent_eq_false_of_feed hlater⟩, rfl,
      hlater⟩
    intro x hx heq
    exact hfar (heq ▸ hx)

theorem spans_assignmentInCondition {before piece after : Text} :
    assignmentInCondition.Spans before piece after ↔
      (∀ x ∈ before.getLast?, x = '\n') ∧
        ∃ indent, ∃ keyword ∈ conditionKeywords, ∃ near first last,
          piece = indent ++ (keyword.toList ++ (near ++ [first, '=', last])) ∧
          (∀ x ∈ indent, isIndent x = true) ∧
          (∀ x ∈ (near ++ first :: '=' :: last :: after).head?, isWord x = false) ∧
          EndsInColon (near ++ first :: '=' :: last :: after) ∧ '\n' ∉ near ∧
          first ∉ conditionSigns ∧ last ≠ '=' := by
  have hwords : AreWords ["if", "elif", "while"] := areWords_conditionKeywords
  unfold assignmentInCondition
  simp only [spans_sequence_cons_cons, spans_sequence_singleton, spans_lineStart,
    spans_indentation, spans_wholeWord hwords, spans_ahead_colon, spans_few, spans_char,
    spans_exactly, bne_iff_ne, Bool.not_eq_true', List.contains_eq_mem, decide_eq_false_iff_not]
  constructor
  · intro h
    rcases h with ⟨_, _, rfl, ⟨rfl, hbefore⟩, indent, _, rfl, ⟨hindent, _⟩, _, _, rfl,
      ⟨⟨keyword, hkeyword, rfl⟩, hboundary⟩, _, _, rfl, ⟨rfl, hcolon⟩, near, _, rfl, hnear, _, _,
      rfl, ⟨first, rfl, hfirst⟩, _, _, rfl, rfl, last, rfl, hlast⟩
    simp only [List.append_assoc, List.cons_append, List.nil_append] at hboundary hcolon
    exact ⟨hbefore, indent, keyword, hkeyword, near, first, last, rfl, hindent, hboundary, hcolon,
      fun hmem => hnear _ hmem rfl, hfirst, hlast⟩
  · intro h
    rcases h with ⟨hbefore, indent, keyword, hkeyword, near, first, last, rfl, hindent, hboundary,
      hcolon, hnear, hfirst, hlast⟩
    have hrest : near ++ [first, '=', last] ++ after = near ++ first :: '=' :: last :: after := by
      simp
    refine ⟨[], _, rfl, ⟨rfl, hbefore⟩, indent, _, rfl, ⟨hindent, ?_⟩, keyword.toList, _, rfl,
      ⟨⟨keyword, hkeyword, rfl⟩, ?_⟩, [], near ++ [first, '=', last], rfl, ⟨rfl, ?_⟩, near, _, rfl,
      ?_, [first], _, rfl,
      ⟨first, rfl, hfirst⟩, ['='], [last], rfl, rfl, last, rfl, hlast⟩
    · rw [List.append_assoc]
      exact isIndent_head?_keyword areWords_conditionKeywords hkeyword _
    · rw [hrest]
      exact hboundary
    · rw [hrest]
      exact hcolon
    · intro x hx heq
      exact hnear (heq ▸ hx)

theorem getLast?_ne_of_colon {far space : Text} (hspace : ∀ x ∈ space, isIndent x = true) :
    (far ++ ':' :: space).getLast? ≠ some '=' := by
  intro h
  rcases List.eq_nil_or_concat space with rfl | ⟨more, x, rfl⟩
  · rw [List.getLast?_concat] at h
    cases h
  · rw [List.concat_eq_append] at h hspace
    rw [← List.cons_append, ← List.append_assoc, List.getLast?_concat] at h
    cases h
    cases hspace '=' (by simp)

theorem exists_assignment_iff {behind later : Text} (hlast : behind.getLast? ≠ some '=')
    (hbehind : '\n' ∉ behind) (hlater : ∀ x ∈ later.head?, x = '\n') :
    (∃ near first last after, behind ++ later = near ++ first :: '=' :: last :: after ∧
        '\n' ∉ near ∧ first ∉ conditionSigns ∧ last ≠ '=') ↔
      HoldsAssignment behind ∨ ∃ last after, later = '\n' :: '=' :: last :: after ∧ last ≠ '=' := by
  constructor
  · intro h
    rcases h with ⟨near, first, last, after, hsplit, hnear, hfirst, hne⟩
    rcases List.append_eq_append_iff.mp hsplit with ⟨between, rfl, hrest⟩ | ⟨between, rfl, hrest⟩
    · -- The line feed behind the line comes before the equals sign.
      cases between with
      | nil =>
          right
          have hfeed : first = '\n' := hlater first (by rw [hrest]; rfl)
          rw [hfeed] at hrest
          exact ⟨last, after, hrest, hne⟩
      | cons x more =>
          exfalso
          apply hnear
          have hx : x = '\n' := hlater x (by rw [hrest]; rfl)
          simp [hx]
    · rcases between with _ | ⟨x, _ | ⟨y, _ | ⟨z, more⟩⟩⟩
      · right
        have hrest' : later = first :: '=' :: last :: after := hrest.symm
        have hfeed : first = '\n' := hlater first (by rw [hrest']; rfl)
        rw [hfeed] at hrest'
        exact ⟨last, after, hrest', hne⟩
      · exfalso
        have hrest' : later = '=' :: last :: after := (List.cons.inj hrest).2.symm
        cases hlater '=' (by rw [hrest']; rfl)
      · exfalso
        have hy : y = '=' := (List.cons.inj (List.cons.inj hrest).2).1.symm
        apply hlast
        simp [hy]
      · left
        simp only [List.cons_append, List.cons.injEq] at hrest
        rcases hrest with ⟨rfl, rfl, rfl, _⟩
        exact ⟨near, first, last, more, rfl, hfirst, hne⟩
  · intro h
    rcases h with ⟨near, first, last, after, rfl, hfirst, hne⟩ | ⟨last, after, rfl, hne⟩
    · refine ⟨near, first, last, after ++ later, by simp, ?_, hfirst, hne⟩
      intro hmem
      exact hbehind (List.mem_append_left _ hmem)
    · exact ⟨behind, '\n', last, after, rfl, hbehind, by decide, hne⟩

theorem isWord_head?_append_of_ne_nil {behind : Text} (hne : behind ≠ []) (later : Text) :
    (∀ x ∈ (behind ++ later).head?, isWord x = false) ↔ ∀ x ∈ behind.head?, isWord x = false := by
  rw [List.head?_append_of_ne_nil behind hne]

theorem not_mem_condition {indent behind : Text} {keyword : String}
    (hindent : ∀ x ∈ indent, isIndent x = true) (hkeyword : keyword ∈ conditionKeywords)
    (hbehind : '\n' ∉ behind) : '\n' ∉ indent ++ (keyword.toList ++ behind) := by
  intro hmem
  simp only [List.mem_append] at hmem
  rcases hmem with hmem | hmem | hmem
  · cases hindent _ hmem
  · have hword := (areWords_conditionKeywords keyword hkeyword).2 _ hmem
    revert hword
    decide
  · exact hbehind hmem

theorem occursIn_assignmentInCondition_iff_exists {t : Text} :
    assignmentInCondition.occursIn t = true ↔
      ∃ before line behind later, t = before ++ (line ++ later) ∧
        (∀ x ∈ before.getLast?, x = '\n') ∧ (∀ x ∈ later.head?, x = '\n') ∧ '\n' ∉ line ∧
        IsCondition line behind ∧
        (HoldsAssignment behind ∨
          ∃ last after, later = '\n' :: '=' :: last :: after ∧ last ≠ '=') := by
  rw [occursIn_iff_spans]
  simp only [spans_assignmentInCondition]
  constructor
  · intro h
    rcases h with ⟨before, _, after, rfl, hbefore, indent, keyword, hkeyword, near, first, last, rfl,
      hindent, hboundary, ⟨far, space, later, hcolon, hfar, hspace, hlater⟩, hnear, hfirst, hlast⟩
    rw [← List.cons_append, ← List.append_assoc] at hcolon
    have hbehind : '\n' ∉ far ++ ':' :: space := by
      intro hmem
      rcases List.mem_append.mp hmem with hmem | hmem
      · exact hfar hmem
      · rcases List.mem_cons.mp hmem with heq | hmem
        · cases heq
        · cases hspace _ hmem
    rw [hcolon, isWord_head?_append_of_ne_nil (by simp)] at hboundary
    refine ⟨before, indent ++ (keyword.toList ++ (far ++ ':' :: space)), far ++ ':' :: space, later,
      ?_, hbefore, hlater, not_mem_condition hindent hkeyword hbehind,
      ⟨indent, keyword, hkeyword, far, space, rfl, rfl, hindent, hboundary, hspace⟩, ?_⟩
    · rw [List.append_assoc indent (keyword.toList ++ (far ++ ':' :: space)),
        List.append_assoc keyword.toList (far ++ ':' :: space), ← hcolon]
      simp
    · apply (exists_assignment_iff (getLast?_ne_of_colon hspace) hbehind hlater).mp
      exact ⟨near, first, last, after, hcolon.symm, hnear, hfirst, hlast⟩
  · intro h
    rcases h with ⟨before, _, _, later, rfl, hbefore, hlater, hline, ⟨indent, keyword, hkeyword,
      far, space, rfl, rfl, hindent, hboundary, hspace⟩, h⟩
    have hbehind : '\n' ∉ far ++ ':' :: space := by
      intro hmem
      exact hline (List.mem_append_right _ (List.mem_append_right _ hmem))
    rcases (exists_assignment_iff (getLast?_ne_of_colon hspace) hbehind hlater).mpr h with
      ⟨near, first, last, after, hsplit, hnear, hfirst, hlast⟩
    refine ⟨before, indent ++ (keyword.toList ++ (near ++ [first, '=', last])), after, ?_, hbefore,
      indent, keyword, hkeyword, near, first, last, rfl, hindent, ?_, ?_, hnear, hfirst, hlast⟩
    · rw [List.append_assoc indent, List.append_assoc keyword.toList, hsplit]
      simp
    · rw [← hsplit]
      exact (isWord_head?_append_of_ne_nil (by simp) later).mpr hboundary
    · rw [← hsplit]
      refine ⟨far, space, later, by simp, ?_, hspace, hlater⟩
      intro hmem
      exact hbehind (List.mem_append_left _ hmem)

/-!
# Two lines
-/

theorem exists_single_sign_iff {rest row : Text} {back : List Text} (h : rest.lines = row :: back) :
    (∃ last after, rest = '=' :: last :: after ∧ last ≠ '=') ↔
      ∃ second, row = '=' :: second ∧ (∀ x ∈ second.head?, x ≠ '=') ∧ (second = [] → back ≠ []) := by
  constructor
  · intro hrest
    rcases hrest with ⟨last, after, rfl, hne⟩
    by_cases hfeed : last = '\n'
    · have hlines : lines ('=' :: last :: after) = ['='] :: lines after := by
        rw [hfeed]
        exact lines_append_feed ['='] after
      rw [hlines] at h
      rcases List.cons.inj h with ⟨rfl, rfl⟩
      exact ⟨[], rfl, by simp, fun _ => lines_ne_nil after⟩
    · have hpiece : '\n' ∉ (['=', last] : Text) := by
        simpa using fun heq => hfeed heq.symm
      rcases exists_lines_append_eq hpiece after with ⟨more, others, hlines⟩
      rw [show '=' :: last :: after = ['=', last] ++ after from rfl, hlines] at h
      rcases List.cons.inj h with ⟨rfl, rfl⟩
      refine ⟨last :: more, rfl, ?_, by simp⟩
      intro x hx
      cases hx
      exact hne
  · intro hrow
    rcases hrow with ⟨second, rfl, hsecond, hback⟩
    cases second with
    | nil =>
        rcases exists_of_lines_eq_cons h (hback rfl) with ⟨after, rfl, _⟩
        exact ⟨'\n', after, rfl, by decide⟩
    | cons last more =>
        rcases exists_of_lines_eq h with ⟨after, rfl, _⟩
        exact ⟨last, more ++ after, rfl, hsecond last rfl⟩

/-- An assignment in a condition occurs in a text in one line of the text or in two that follow one
another. -/
theorem occursIn_assignmentInCondition_iff {t : Text} :
    assignmentInCondition.occursIn t = true ↔
      (∃ line ∈ t.lines, AssignsInCondition line) ∨ AssignsBehindCondition t.lines := by
  rw [occursIn_assignmentInCondition_iff_exists]
  constructor
  · intro h
    rcases h with ⟨before, line, behind, later, rfl, hbefore, hlater, hline, hcondition,
      hholds | ⟨last, after, rfl, hlast⟩⟩
    · left
      exact ⟨line, mem_lines_iff.mpr ⟨hline, before, later, rfl, hbefore, hlater⟩, behind,
        hcondition, hholds⟩
    · right
      rcases exists_eq_endLines hbefore with ⟨front, rfl, hfront⟩
      rcases List.exists_cons_of_ne_nil (lines_ne_nil ('=' :: last :: after)) with
        ⟨row, back, hrest⟩
      rcases (exists_single_sign_iff hrest).mp ⟨last, after, rfl, hlast⟩ with
        ⟨second, rfl, hsecond, hback⟩
      refine ⟨front, line, behind, second, back, ?_, hcondition, hsecond, hback⟩
      rw [lines_endLines_append hfront, lines_append_feed, lines_of_not_mem hline, hrest]
      rfl
  · intro h
    rcases h with ⟨line, hmem, behind, hcondition, hholds⟩ | ⟨front, line, behind, second, back,
      hlines, hcondition, hsecond, hback⟩
    · rcases mem_lines_iff.mp hmem with ⟨hline, before, later, rfl, hbefore, hlater⟩
      exact ⟨before, line, behind, later, rfl, hbefore, hlater, hline, hcondition, Or.inl hholds⟩
    · have hline : '\n' ∉ line := not_mem_of_mem_lines (t := t) (by rw [hlines]; simp)
      rcases exists_of_lines_eq_append hlines (List.cons_ne_nil _ _) with ⟨rest, rfl, hrest⟩
      rcases exists_of_lines_eq_cons hrest (List.cons_ne_nil _ _) with ⟨next, rfl, hnext⟩
      rcases (exists_single_sign_iff hnext).mpr ⟨second, rfl, hsecond, hback⟩ with
        ⟨last, after, rfl, hlast⟩
      exact ⟨endLines front, line, behind, '\n' :: '=' :: last :: after, rfl,
        forall_mem_getLast?_endLines front, by simp, hline, hcondition,
        Or.inr ⟨last, after, rfl, hlast⟩⟩

/-!
# All common errors
-/

theorem not_assignsBehindCondition_singleton (line : Text) : ¬AssignsBehindCondition [line] := by
  intro h
  rcases h with ⟨front, first, _, second, back, hlines, _⟩
  have hlength := congrArg List.length hlines
  simp at hlength
  omega

/-- The common error of a number occurs in a text when it occurs in one of the lines on its own, and
the first one also when a condition is followed by a line that begins with a single equals sign. -/
theorem occursIn_commonErrors_iff (number : Fin commonErrors.length) (t : Text) :
    commonErrors[number].occursIn t = true ↔
      (∃ line ∈ t.lines, commonErrors[number].occursIn line = true) ∨
        number.val = 0 ∧ AssignsBehindCondition t.lines := by
  have hsingle : ∀ line ∈ t.lines, lines line = [line] :=
    fun line hline => lines_of_not_mem (not_mem_of_mem_lines hline)
  rcases number with ⟨_ | number, hnumber⟩
  · show assignmentInCondition.occursIn t = true ↔
      (∃ line ∈ t.lines, assignmentInCondition.occursIn line = true) ∨ 0 = 0 ∧ _
    have hline : ∀ line ∈ t.lines,
        (assignmentInCondition.occursIn line = true ↔ AssignsInCondition line) := by
      intro line hmem
      rw [occursIn_assignmentInCondition_iff, hsingle line hmem]
      simp [not_assignsBehindCondition_singleton]
    rw [occursIn_assignmentInCondition_iff, eq_self, true_and]
    exact or_congr_left (exists_congr fun line => and_congr_right fun hmem => (hline line hmem).symm)
  · have hlength : number < loneKeywords.length := Nat.lt_of_succ_lt_succ hnumber
    have hkeyword : AreWords [loneKeywords[number]] := by
      intro keyword hmem
      rw [List.mem_singleton.mp hmem]
      exact areWords_loneKeywords _ (List.getElem_mem hlength)
    have hpattern : commonErrors[number + 1] = loneKeyword loneKeywords[number] :=
      List.getElem_map loneKeyword
    show commonErrors[number + 1].occursIn t = true ↔
      (∃ line ∈ t.lines, commonErrors[number + 1].occursIn line = true) ∨ number + 1 = 0 ∧ _
    have hline : ∀ line ∈ t.lines,
        ((loneKeyword loneKeywords[number]).occursIn line = true ↔
          IsLone loneKeywords[number] line) := by
      intro line hmem
      rw [occursIn_loneKeyword_iff hkeyword, hsingle line hmem]
      simp
    rw [hpattern, occursIn_loneKeyword_iff hkeyword]
    simp only [Nat.succ_ne_zero, false_and, or_false]
    exact exists_congr fun line => and_congr_right fun hmem => (hline line hmem).symm

/-- The condition `if x:` and the line `=1` behind it hold the first common error, but neither does
on its own. -/
theorem not_occursIn_commonErrors_of_lines :
    ¬(commonErrors[0].occursIn "if x:\n=1".toList = true ↔
      ∃ line ∈ lines "if x:\n=1".toList, commonErrors[0].occursIn line = true) := by
  decide

end Plausibility
end SourceAudit
