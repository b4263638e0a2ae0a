import SourceAudit.Proofs.Growth.Loops

/-!
# Nested and flat loops

## What the indentation says

Loops are nested when the second header, and all lines between the two that are not blank, are
indented deeper than the first header.  The guess does not look at the indentation.  It is quadratic
for two headers that are close, also where the second loop stands beside the first one or is cut off
from it by a line that leaves the first loop.  Only the last line between such headers can do so,
since the others are blank.
-/

namespace SourceAudit
namespace Growth

open Text

def depth (line : Text) : Nat :=
  (line.takeWhile isIndent).length

/-- Whether a `for` header stands inside of the loop that another one opens: it and all lines on the
way to it, but for blank ones, are indented deeper. -/
def HasNestedLoops (lines : List Text) : Prop :=
  ∃ front first between second back, lines = front ++ first :: (between ++ second :: back) ∧
    IsHeader ["for"] first ∧ IsHeader ["for"] second ∧ depth first < depth second ∧
    ∀ row ∈ between, isAllBlank row = false → depth first < depth row

/-- Whether two `for` headers have only blank lines and at most one other line between them, and the
second header or that line is not indented deeper than the first header. -/
def HasFlatLoops (lines : List Text) : Prop :=
  ∃ front first blanks other second back,
    lines = front ++ first :: (blanks ++ (other ++ second :: back)) ∧
    IsHeader ["for"] first ∧ (∀ row ∈ blanks, ∀ x ∈ row, isIndent x = true) ∧ other.length ≤ 1 ∧
    IsHeader ["for"] second ∧
    (depth second ≤ depth first ∨
      ∃ row ∈ other, isAllBlank row = false ∧ depth row ≤ depth first)

/-!
# Close headers
-/

theorem isAllBlank_of_isIndent {row : Text} (h : ∀ x ∈ row, isIndent x = true) :
    isAllBlank row = true := by
  apply List.all_eq_true.mpr
  intro x hx
  exact isBlank_of_isIndent (h x hx)

theorem HasFlatLoops.cutAtHeaders {lines : List Text} (h : HasFlatLoops lines) :
    CutAtHeaders lines := by
  rcases h with ⟨front, first, blanks, other, second, back, hlines, hfirst, hblanks, hlength,
    hsecond, _⟩
  exact ⟨front, first, blanks, other, second, back, hlines, hfirst, hblanks, hlength, hsecond⟩

/-- Two close headers open nested loops or flat ones. -/
theorem CutAtHeaders.hasNestedLoops_or {lines : List Text} (h : CutAtHeaders lines) :
    HasNestedLoops lines ∨ HasFlatLoops lines := by
  rcases h with ⟨front, first, blanks, other, second, back, hlines, hfirst, hblanks, hlength,
    hsecond⟩
  by_cases hflat : depth second ≤ depth first ∨
      ∃ row ∈ other, isAllBlank row = false ∧ depth row ≤ depth first
  · right
    exact ⟨front, first, blanks, other, second, back, hlines, hfirst, hblanks, hlength, hsecond,
      hflat⟩
  · left
    rcases not_or.mp hflat with ⟨hdepth, hother⟩
    refine ⟨front, first, blanks ++ other, second, back, ?_, hfirst, hsecond,
      Nat.lt_of_not_le hdepth, ?_⟩
    · rw [hlines, List.append_assoc]
    · intro row hrow hblank
      rcases List.mem_append.mp hrow with hrow | hrow
      · rw [isAllBlank_of_isIndent (hblanks row hrow)] at hblank
        cases hblank
      · apply Nat.lt_of_not_le
        intro hle
        exact hother ⟨row, hrow, hblank, hle⟩

/-!
# The quadratic guess
-/

/-- The quadratic guess means nested loops, unless it comes from flat loops in a text without nested
ones. -/
theorem quadratic_imp_hasNestedLoops_iff (t : Text) :
    ((ofTime t).label = quadratic.label → HasNestedLoops t.lines) ↔
      (HasFlatLoops t.lines → HasNestedLoops t.lines) := by
  have hlabel : (ofTime t).label = quadratic.label ↔ CutAtHeaders t.lines :=
    ⟨fun h => ofTime_eq_quadratic_iff.mp (label_injective h),
      fun h => congrArg label (ofTime_eq_quadratic_iff.mpr h)⟩
  rw [hlabel]
  constructor
  · intro h hflat
    exact h hflat.cutAtHeaders
  · intro h hclose
    rcases hclose.hasNestedLoops_or with hnested | hflat
    · exact hnested
    · exact h hflat

def loopsInTurn : Text :=
  "for i in a:\n    f(i)\nfor j in b:\n    g(j)".toList

theorem IsHeader.mem_of_mem_keyword {keyword : String} {line : Text} (h : IsHeader [keyword] line)
    {x : Char} (hx : x ∈ keyword.toList) : x ∈ line := by
  rcases h with ⟨indent, word, hword, behind, rfl, _⟩
  rw [List.mem_singleton.mp hword]
  simp [hx]

/-- The guess for loops in turn is quadratic, and none of them is nested. -/
theorem exists_quadratic_not_hasNestedLoops :
    (ofTime loopsInTurn).label = quadratic.label ∧ ¬HasNestedLoops loopsInTurn.lines := by
  refine ⟨by decide +kernel, ?_⟩
  intro h
  rcases h with ⟨front, first, between, second, back, hlines, _, hsecond, hdepth, _⟩
  have hmem : second ∈ loopsInTurn.lines := by
    rw [hlines]
    simp
  -- No line that is indented holds the letters of the keyword.
  have hletter : ∀ row ∈ loopsInTurn.lines, 0 < depth row → 'o' ∉ row := by
    decide
  apply hletter second hmem (Nat.zero_lt_of_lt hdepth)
  exact hsecond.mem_of_mem_keyword (by decide)

end Growth
end SourceAudit
