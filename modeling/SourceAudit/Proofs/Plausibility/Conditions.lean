import SourceAudit.Proofs.Names.Introduced
import SourceAudit.Proofs.Plausibility.CommonErrors

/-!
# Assignments in conditions

## One line

On a single line the first common error is what it is meant to be: the line begins with a keyword of
a condition, it ends in a colon, and between these stands an equals sign that no character next to
it makes part of another sign.  A line whose equals signs all belong to signs of two characters is
not refused for it.
-/

namespace SourceAudit
namespace Plausibility

open Pattern Text

/-!
# Keyword and condition
-/

/-- The word with which a line begins behind its indentation. -/
def leadingWord (line : Text) : Text :=
  (line.dropWhile isIndent).takeWhile isWord

def behindLeadingWord (line : Text) : Text :=
  (line.dropWhile isIndent).dropWhile isWord

theorem exists_eq_leadingWord_append (line : Text) :
    ∃ indent, line = indent ++ (leadingWord line ++ behindLeadingWord line) ∧
      ∀ x ∈ indent, isIndent x = true := by
  refine ⟨line.takeWhile isIndent, ?_, List.all_eq_true.mp List.all_takeWhile⟩
  unfold leadingWord behindLeadingWord
  rw [List.takeWhile_append_dropWhile, List.takeWhile_append_dropWhile]

theorem leadingWord_append {indent word behind : Text} (hindent : ∀ x ∈ indent, isIndent x = true)
    (hne : word ≠ []) (hword : ∀ x ∈ word, isWord x = true)
    (hbehind : ∀ x ∈ behind.head?, isWord x = false) :
    leadingWord (indent ++ (word ++ behind)) = word ∧
      behindLeadingWord (indent ++ (word ++ behind)) = behind := by
  have hhead : ∀ x ∈ (word ++ behind).head?, isIndent x = false := by
    intro x hx
    rw [List.head?_append_of_ne_nil _ hne] at hx
    exact isIndent_eq_false_of_isWord (hword x (List.mem_of_mem_head? hx))
  unfold leadingWord behindLeadingWord
  rw [dropWhile_append_of_class hindent hhead, takeWhile_append_of_class hword hbehind,
    dropWhile_append_of_class hword hbehind]
  exact ⟨rfl, rfl⟩

/-- A line is a condition when the word with which it begins is a keyword and a colon ends what
follows it. -/
theorem isCondition_iff {line behind : Text} :
    IsCondition line behind ↔
      leadingWord line ∈ conditionKeywords.map String.toList ∧
        behind = behindLeadingWord line ∧
        ((behindLeadingWord line).dropEndWhile isIndent).getLast? = some ':' := by
  rw [getLast?_dropEndWhile_eq_some_iff (by decide)]
  constructor
  · intro h
    rcases h with ⟨indent, keyword, hkeyword, far, space, rfl, hbehind, hindent, hhead, hspace⟩
    rcases areWords_conditionKeywords keyword hkeyword with ⟨hne, hword⟩
    rcases leadingWord_append hindent hne hword hhead with ⟨hleading, hrest⟩
    rw [hleading, hrest]
    exact ⟨List.mem_map_of_mem hkeyword, rfl, far, space, hbehind, hspace⟩
  · intro h
    rcases h with ⟨hmem, rfl, far, space, hbehind, hspace⟩
    rcases List.mem_map.mp hmem with ⟨keyword, hkeyword, hleading⟩
    rcases exists_eq_leadingWord_append line with ⟨indent, hline, hindent⟩
    rw [← hleading] at hline
    exact ⟨indent, keyword, hkeyword, far, space, hline, hbehind, hindent,
      forall_mem_head?_dropWhile isWord _, hspace⟩

/-!
# Signs that hold an equals sign
-/

/-- Whether an equals sign between two parts of a text belongs to a sign of two characters that
assigns nothing there. -/
def IsInComparison (before after : Text) : Prop :=
  ∃ sign ∈ Names.comparisonSigns, ∃ front back, sign.toList = front ++ '=' :: back ∧
    front <:+ before ∧ back <+: after

theorem exists_conditionSign_eq :
    ∀ sign ∈ Names.comparisonSigns, ∃ x ∈ conditionSigns, sign.toList = [x, '='] := by
  intro sign hsign
  simp only [Names.comparisonSigns, List.mem_cons, List.not_mem_nil, or_false] at hsign
  rcases hsign with rfl | rfl | rfl | rfl | rfl <;> exact ⟨_, by decide, rfl⟩

theorem IsInComparison.next_to {before after : Text} (h : IsInComparison before after) :
    (∃ x ∈ before.getLast?, x ∈ conditionSigns) ∨ after.head? = some '=' := by
  rcases h with ⟨sign, hsign, front, back, hsplit, ⟨left, rfl⟩, ⟨right, rfl⟩⟩
  rcases exists_conditionSign_eq sign hsign with ⟨x, hx, hshape⟩
  rw [hshape] at hsplit
  cases front with
  | nil =>
      rcases List.cons.inj hsplit with ⟨_, rfl⟩
      exact Or.inr rfl
  | cons y more =>
      rcases List.cons.inj hsplit with ⟨rfl, hmore⟩
      cases more with
      | nil =>
          exact Or.inl ⟨x, by simp, hx⟩
      | cons z more =>
          have hlength := congrArg List.length hmore
          simp at hlength

/-- A line whose equals signs all belong to signs of two characters holds no assignment. -/
theorem not_holdsAssignment {front behind : Text}
    (h : ∀ before after, front ++ behind = before ++ '=' :: after → IsInComparison before after) :
    ¬HoldsAssignment behind := by
  intro hholds
  rcases hholds with ⟨near, first, last, after, rfl, hfirst, hlast⟩
  have hsign := h (front ++ (near ++ [first])) (last :: after) (by simp)
  rcases hsign.next_to with ⟨x, hx, hmem⟩ | hnext
  · rw [← List.append_assoc, List.getLast?_concat] at hx
    cases hx
    exact hfirst hmem
  · exact hlast (Option.some.inj hnext)

/-!
# The first common error on a line
-/

theorem occursIn_assignmentInCondition_line {line : Text} (h : '\n' ∉ line) :
    assignmentInCondition.occursIn line = true ↔
      leadingWord line ∈ conditionKeywords.map String.toList ∧
        ((behindLeadingWord line).dropEndWhile isIndent).getLast? = some ':' ∧
        HoldsAssignment (behindLeadingWord line) := by
  rw [occursIn_assignmentInCondition_iff, lines_of_not_mem h]
  simp only [not_assignsBehindCondition_singleton, or_false, List.mem_singleton,
    exists_eq_left]
  unfold AssignsInCondition
  simp only [isCondition_iff]
  constructor
  · intro hassigns
    rcases hassigns with ⟨_, ⟨hword, rfl, hcolon⟩, hholds⟩
    exact ⟨hword, hcolon, hholds⟩
  · intro hassigns
    rcases hassigns with ⟨hword, hcolon, hholds⟩
    exact ⟨_, ⟨hword, rfl, hcolon⟩, hholds⟩

/-- The flaw with a number is reported only if the common error with that number occurs. -/
theorem occursIn_of_plausibilityFlaw? {t : Text} {number : Nat}
    (h : plausibilityFlaw? t = some (.commonError number)) :
    ∃ pattern, commonErrors[number]? = some pattern ∧ pattern.occursIn t = true := by
  unfold plausibilityFlaw? at h
  split at h
  · split at h
    · rename_i found hfound
      cases h
      rcases List.findIdx?_eq_some_iff_getElem.mp hfound with ⟨hlt, hoccurs, _⟩
      exact ⟨commonErrors[number], List.getElem?_eq_getElem hlt, hoccurs⟩
    · split at h <;> cases h
  · cases h

/-- On a line, the first common error is a keyword of a condition, a colon at the end and a single
equals sign between them.  A line whose equals signs all belong to signs of two characters does not
hold it and is not refused for it. -/
theorem occursIn_first_commonError_line {line : Text} (hline : '\n' ∉ line) :
    (commonErrors[0].occursIn line = true ↔
      leadingWord line ∈ conditionKeywords.map String.toList ∧
        ((behindLeadingWord line).dropEndWhile isIndent).getLast? = some ':' ∧
        ∃ near first last after,
          behindLeadingWord line = near ++ first :: '=' :: last :: after ∧
            first ∉ conditionSigns ∧ last ≠ '=') ∧
    ((∀ before after, line = before ++ '=' :: after → IsInComparison before after) →
      commonErrors[0].occursIn line = false ∧
        plausibilityFlaw? line ≠ some (.commonError 0)) := by
  have hiff := occursIn_assignmentInCondition_line hline
  refine ⟨hiff, ?_⟩
  intro hsigns
  have hnone : assignmentInCondition.occursIn line = false := by
    rw [Bool.eq_false_iff]
    intro hoccurs
    rcases exists_eq_leadingWord_append line with ⟨indent, hsplit, _⟩
    rw [hsplit, ← List.append_assoc] at hsigns
    exact not_holdsAssignment hsigns (hiff.mp hoccurs).2.2
  refine ⟨hnone, ?_⟩
  intro hflaw
  rcases occursIn_of_plausibilityFlaw? hflaw with ⟨pattern, hpattern, hoccurs⟩
  cases hpattern
  rw [hnone] at hoccurs
  cases hoccurs

/-- The line `if x = 1:` holds the first common error, and `while x <= 1:` does not. -/
theorem occursIn_first_commonError_of_conditions :
    '\n' ∉ "if x = 1:".toList ∧ commonErrors[0].occursIn "if x = 1:".toList = true ∧
    '\n' ∉ "while x <= 1:".toList ∧
    (∀ before after, "while x <= 1:".toList = before ++ '=' :: after →
      IsInComparison before after) ∧
    commonErrors[0].occursIn "while x <= 1:".toList = false ∧
    plausibilityFlaw? "while x <= 1:".toList ≠ some (.commonError 0) := by
  have hassigns : '\n' ∉ "if x = 1:".toList := by
    decide
  have hcompares : '\n' ∉ "while x <= 1:".toList := by
    decide
  have hsigns : ∀ before after, "while x <= 1:".toList = before ++ '=' :: after →
      IsInComparison before after := by
    intro before after hsplit
    rcases exists_append_of_not_mem (a := "while x <".toList) (b := "= 1:".toList) hsplit
      (by decide) with ⟨m, rfl, hrest⟩
    cases m with
    | nil =>
        cases hrest
        exact ⟨"<=", by decide, ['<'], [], rfl, ⟨"while x ".toList, rfl⟩, List.nil_prefix⟩
    | cons x more =>
        have hmem : '=' ∈ " 1:".toList := by
          rw [show " 1:".toList = more ++ '=' :: after from (List.cons.inj hrest).2]
          simp
        exact absurd hmem (by decide)
  refine ⟨hassigns, ?_, hcompares, hsigns, (occursIn_first_commonError_line hcompares).2 hsigns⟩
  exact (occursIn_first_commonError_line hassigns).1.mpr
    ⟨by decide, by decide, " x".toList, ' ', ' ', "1:".toList, rfl, by decide, by decide⟩

end Plausibility
end SourceAudit
