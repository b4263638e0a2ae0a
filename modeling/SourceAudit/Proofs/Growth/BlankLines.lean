import SourceAudit.Proofs.Growth.Loops

/-!
# Blank lines between loop headers

## One more blank line

A blank line is no header, so one more of them opens no loop and closes none.  It can only come
between two headers.  Blank lines are skipped directly behind the first header, and one other line
may follow them.  Behind that line no blank line is skipped: one that is added there, directly in
front of the second header, takes the two headers apart.
-/

namespace SourceAudit
namespace Growth

open Pattern Text

/-- Whether lines go on, behind a header, to the second header of a pair: blank lines, one line of
any kind at most, and the header. -/
def LeadsToHeader (rows : List Text) : Prop :=
  ∃ blanks other second back, rows = blanks ++ (other ++ second :: back) ∧
    (∀ row ∈ blanks, ∀ x ∈ row, isIndent x = true) ∧ other.length ≤ 1 ∧ IsHeader ["for"] second

/-- Whether some lines end with a header, blank lines and one other line, and those below begin with
a header.  No two headers are close above the cut or below it. -/
def SplitsHeaders (above below : List Text) : Prop :=
  (∃ front first blanks other second back,
    above = front ++ first :: (blanks ++ [other]) ∧ below = second :: back ∧
    IsHeader ["for"] first ∧ (∀ row ∈ blanks, ∀ x ∈ row, isIndent x = true) ∧
    (∃ x ∈ other, isIndent x = false) ∧ IsHeader ["for"] second) ∧
  ¬CutAtHeaders above ∧ ¬CutAtHeaders below

theorem SplitsHeaders.cutAtHeaders {above below : List Text} (h : SplitsHeaders above below) :
    CutAtHeaders (above ++ below) := by
  rcases h with ⟨⟨front, first, blanks, other, second, back, rfl, rfl, hfirst, hblanks, _,
    hsecond⟩, _⟩
  exact ⟨front, first, blanks, [other], second, back, by simp, hfirst, hblanks, Nat.le_refl 1,
    hsecond⟩

/-!
# Pairs of headers line by line
-/

theorem leadsToHeader_cons_iff {row : Text} {rest : List Text} :
    LeadsToHeader (row :: rest) ↔
      ((∀ x ∈ row, isIndent x = true) ∧ LeadsToHeader rest) ∨ IsHeader ["for"] row ∨
        ∃ second ∈ rest.head?, IsHeader ["for"] second := by
  constructor
  · intro h
    rcases h with ⟨blanks, other, second, back, hrows, hblanks, hlength, hsecond⟩
    cases blanks with
    | cons blank blanks =>
        rcases List.cons.inj hrows with ⟨rfl, rfl⟩
        rcases List.forall_mem_cons.mp hblanks with ⟨hblank, hblanks⟩
        exact Or.inl ⟨hblank, blanks, other, second, back, rfl, hblanks, hlength, hsecond⟩
    | nil =>
        right
        rcases other with _ | ⟨next, _ | ⟨more, others⟩⟩
        · rcases List.cons.inj hrows with ⟨rfl, rfl⟩
          exact Or.inl hsecond
        · rcases List.cons.inj hrows with ⟨rfl, rfl⟩
          exact Or.inr ⟨second, rfl, hsecond⟩
        · simp at hlength
  · intro h
    rcases h with ⟨hrow, blanks, other, second, back, rfl, hblanks, hlength, hsecond⟩ | hrow |
      ⟨second, hhead, hsecond⟩
    · exact ⟨row :: blanks, other, second, back, rfl, List.forall_mem_cons.mpr ⟨hrow, hblanks⟩,
        hlength, hsecond⟩
    · exact ⟨[], [], row, rest, rfl, by simp, Nat.zero_le 1, hrow⟩
    · cases rest with
      | nil =>
          cases hhead
      | cons next back =>
          cases hhead
          exact ⟨[], [row], second, back, rfl, by simp, Nat.le_refl 1, hsecond⟩

theorem cutAtHeaders_cons_iff {row : Text} {rest : List Text} :
    CutAtHeaders (row :: rest) ↔
      (IsHeader ["for"] row ∧ LeadsToHeader rest) ∨ CutAtHeaders rest := by
  constructor
  · intro h
    rcases h with ⟨front, first, blanks, other, second, back, hrows, hfirst, hrest⟩
    cases front with
    | nil =>
        rcases List.cons.inj hrows with ⟨rfl, rfl⟩
        exact Or.inl ⟨hfirst, blanks, other, second, back, rfl, hrest⟩
    | cons line front =>
        rcases List.cons.inj hrows with ⟨rfl, rfl⟩
        exact Or.inr ⟨front, first, blanks, other, second, back, rfl, hfirst, hrest⟩
  · intro h
    rcases h with ⟨hrow, blanks, other, second, back, rfl, hrest⟩ |
      ⟨front, first, blanks, other, second, back, rfl, hrest⟩
    · exact ⟨[], row, blanks, other, second, back, rfl, hrow, hrest⟩
    · exact ⟨row :: front, first, blanks, other, second, back, rfl, hrest⟩

/-!
# A blank line between other lines
-/

section BlankLine

variable {blank : Text} (hblank : ∀ x ∈ blank, isIndent x = true)

include hblank

theorem not_isHeader_of_isIndent {keywords : List String} (hkeywords : AreWords keywords) :
    ¬IsHeader keywords blank := by
  intro h
  rcases h with ⟨indent, keyword, hkeyword, behind, rfl, _⟩
  rcases List.exists_mem_of_ne_nil _ (hkeywords keyword hkeyword).1 with ⟨x, hx⟩
  have hindent := hblank x (by simp [hx])
  rw [isIndent_eq_false_of_isWord ((hkeywords keyword hkeyword).2 x hx)] at hindent
  cases hindent

theorem LeadsToHeader.of_insert {above below : List Text}
    (h : LeadsToHeader (above ++ blank :: below)) : LeadsToHeader (above ++ below) := by
  have hnone := not_isHeader_of_isIndent hblank areWords_for
  induction above with
  | nil =>
      rcases leadsToHeader_cons_iff.mp h with ⟨_, hbelow⟩ | hheader | ⟨second, hsecond, hheader⟩
      · exact hbelow
      · exact absurd hheader hnone
      · cases below with
        | nil =>
            cases hsecond
        | cons next back =>
            cases hsecond
            exact leadsToHeader_cons_iff.mpr (Or.inr (Or.inl hheader))
  | cons row above ih =>
      apply leadsToHeader_cons_iff.mpr
      rcases leadsToHeader_cons_iff.mp h with ⟨hrow, hrest⟩ | hrow | ⟨second, hsecond, hheader⟩
      · exact Or.inl ⟨hrow, ih hrest⟩
      · exact Or.inr (Or.inl hrow)
      · cases above with
        | nil =>
            cases hsecond
            exact absurd hheader hnone
        | cons next above =>
            exact Or.inr (Or.inr ⟨second, hsecond, hheader⟩)

theorem CutAtHeaders.of_insert {above below : List Text}
    (h : CutAtHeaders (above ++ blank :: below)) : CutAtHeaders (above ++ below) := by
  induction above with
  | nil =>
      rcases cutAtHeaders_cons_iff.mp h with ⟨hheader, _⟩ | hbelow
      · exact absurd hheader (not_isHeader_of_isIndent hblank areWords_for)
      · exact hbelow
  | cons row above ih =>
      apply cutAtHeaders_cons_iff.mpr
      rcases cutAtHeaders_cons_iff.mp h with ⟨hrow, hrest⟩ | hrest
      · exact Or.inl ⟨hrow, hrest.of_insert hblank⟩
      · exact Or.inr (ih hrest)

theorem LeadsToHeader.insert_or {above below : List Text} (h : LeadsToHeader (above ++ below)) :
    LeadsToHeader (above ++ blank :: below) ∨
      ∃ blanks other second back, above = blanks ++ [other] ∧ below = second :: back ∧
        (∀ row ∈ blanks, ∀ x ∈ row, isIndent x = true) ∧ (∃ x ∈ other, isIndent x = false) ∧
        IsHeader ["for"] second := by
  induction above with
  | nil =>
      exact Or.inl (leadsToHeader_cons_iff.mpr (Or.inl ⟨hblank, h⟩))
  | cons row above ih =>
      rcases leadsToHeader_cons_iff.mp h with ⟨hrow, hrest⟩ | hrow | ⟨second, hsecond, hheader⟩
      · rcases ih hrest with hlater | ⟨blanks, other, second, back, rfl, hbelow, hblanks, hrest⟩
        · exact Or.inl (leadsToHeader_cons_iff.mpr (Or.inl ⟨hrow, hlater⟩))
        · exact Or.inr ⟨row :: blanks, other, second, back, rfl, hbelow,
            List.forall_mem_cons.mpr ⟨hrow, hblanks⟩, hrest⟩
      · exact Or.inl (leadsToHeader_cons_iff.mpr (Or.inr (Or.inl hrow)))
      · cases above with
        | cons next above =>
            exact Or.inl (leadsToHeader_cons_iff.mpr (Or.inr (Or.inr ⟨second, hsecond, hheader⟩)))
        | nil =>
            cases below with
            | nil =>
                cases hsecond
            | cons next back =>
                cases hsecond
                -- The header comes next: all depends on the line before it.
                by_cases hrow : ∀ x ∈ row, isIndent x = true
                · left
                  have hnext : LeadsToHeader (second :: back) :=
                    leadsToHeader_cons_iff.mpr (Or.inr (Or.inl hheader))
                  apply leadsToHeader_cons_iff.mpr
                  exact Or.inl ⟨hrow, leadsToHeader_cons_iff.mpr (Or.inl ⟨hblank, hnext⟩)⟩
                · right
                  refine ⟨[], row, second, back, rfl, rfl, by simp, ?_, hheader⟩
                  simpa using hrow

/-- A blank line takes close headers apart only between the other line and the second header. -/
theorem CutAtHeaders.insert_or {above below : List Text} (h : CutAtHeaders (above ++ below)) :
    CutAtHeaders (above ++ blank :: below) ∨
      ∃ front first blanks other second back,
        above = front ++ first :: (blanks ++ [other]) ∧ below = second :: back ∧
        IsHeader ["for"] first ∧ (∀ row ∈ blanks, ∀ x ∈ row, isIndent x = true) ∧
        (∃ x ∈ other, isIndent x = false) ∧ IsHeader ["for"] second := by
  induction above with
  | nil =>
      exact Or.inl (cutAtHeaders_cons_iff.mpr (Or.inr h))
  | cons row above ih =>
      rcases cutAtHeaders_cons_iff.mp h with ⟨hrow, hrest⟩ | hrest
      · rcases hrest.insert_or hblank with hlater |
          ⟨blanks, other, second, back, rfl, hbelow, hblanks, hother, hsecond⟩
        · exact Or.inl (cutAtHeaders_cons_iff.mpr (Or.inl ⟨hrow, hlater⟩))
        · exact Or.inr ⟨[], row, blanks, other, second, back, rfl, hbelow, hrow, hblanks, hother,
            hsecond⟩
      · rcases ih hrest with hlater |
          ⟨front, first, blanks, other, second, back, rfl, hlater⟩
        · exact Or.inl (cutAtHeaders_cons_iff.mpr (Or.inr hlater))
        · exact Or.inr ⟨row :: front, first, blanks, other, second, back, rfl, hlater⟩

/-!
# A blank line behind another line
-/

theorem LeadsToHeader.before_blank {above : List Text} {other : Text} {below : List Text}
    (hother : ∃ x ∈ other, isIndent x = false)
    (h : LeadsToHeader (above ++ other :: blank :: below)) : LeadsToHeader (above ++ [other]) := by
  have hnone := not_isHeader_of_isIndent hblank areWords_for
  induction above with
  | nil =>
      rcases leadsToHeader_cons_iff.mp h with ⟨hall, _⟩ | hheader | ⟨second, hsecond, hheader⟩
      · rcases hother with ⟨x, hx, hindent⟩
        rw [hall x hx] at hindent
        cases hindent
      · exact leadsToHeader_cons_iff.mpr (Or.inr (Or.inl hheader))
      · cases hsecond
        exact absurd hheader hnone
  | cons row above ih =>
      apply leadsToHeader_cons_iff.mpr
      rcases leadsToHeader_cons_iff.mp h with ⟨hrow, hrest⟩ | hrow | ⟨second, hsecond, hheader⟩
      · exact Or.inl ⟨hrow, ih hrest⟩
      · exact Or.inr (Or.inl hrow)
      · right
        right
        cases above with
        | nil =>
            exact ⟨second, hsecond, hheader⟩
        | cons next above =>
            exact ⟨second, hsecond, hheader⟩

theorem CutAtHeaders.before_blank_or {above : List Text} {other : Text} {below : List Text}
    (hother : ∃ x ∈ other, isIndent x = false)
    (h : CutAtHeaders (above ++ other :: blank :: below)) :
    CutAtHeaders (above ++ [other]) ∨ IsHeader ["for"] other ∨ CutAtHeaders below := by
  induction above with
  | nil =>
      right
      rcases cutAtHeaders_cons_iff.mp h with ⟨hheader, _⟩ | hrest
      · exact Or.inl hheader
      · rcases cutAtHeaders_cons_iff.mp hrest with ⟨hheader, _⟩ | hbelow
        · exact absurd hheader (not_isHeader_of_isIndent hblank areWords_for)
        · exact Or.inr hbelow
  | cons row above ih =>
      rcases cutAtHeaders_cons_iff.mp h with ⟨hrow, hrest⟩ | hrest
      · left
        exact cutAtHeaders_cons_iff.mpr (Or.inl ⟨hrow, hrest.before_blank hblank hother⟩)
      · rcases ih hrest with hlater | hlater
        · exact Or.inl (cutAtHeaders_cons_iff.mpr (Or.inr hlater))
        · exact Or.inr hlater

theorem cutAtHeaders_insert_iff {above below : List Text} :
    CutAtHeaders (above ++ blank :: below) ↔
      CutAtHeaders (above ++ below) ∧ ¬SplitsHeaders above below := by
  constructor
  · intro h
    refine ⟨h.of_insert hblank, ?_⟩
    intro hsplits
    rcases hsplits with ⟨⟨front, first, blanks, other, second, back, rfl, rfl, hfirst, hblanks,
      hother, hsecond⟩, habove, hbelow⟩
    have hcut : front ++ first :: (blanks ++ [other]) ++ blank :: second :: back =
        (front ++ first :: blanks) ++ other :: blank :: second :: back := by
      simp
    rw [hcut] at h
    rcases h.before_blank_or hblank hother with hearlier | hheader | hlater
    · apply habove
      simpa using hearlier
    · apply habove
      exact ⟨front, first, blanks, [], other, [], by simp, hfirst, hblanks, Nat.zero_le 1, hheader⟩
    · exact hbelow hlater
  · intro h
    rcases h with ⟨hclose, hsplits⟩
    rcases hclose.insert_or hblank with hlater | hpair
    · exact hlater
    · by_contra hnone
      apply hsplits
      refine ⟨hpair, ?_, ?_⟩
      · intro habove
        apply hnone
        exact habove.append [] (blank :: below)
      · intro hbelow
        apply hnone
        simpa using hbelow.append (above ++ [blank]) []

theorem lines_insert (a b : Text) :
    lines (a ++ '\n' :: (blank ++ '\n' :: b)) = a.lines ++ blank :: b.lines := by
  have hfeed : '\n' ∉ blank := by
    intro hmem
    cases hblank _ hmem
  rw [lines_append_feed, lines_append_feed, lines_of_not_mem hfeed]
  rfl

theorem occursIn_anyLoop_insert (a b : Text) :
    anyLoop.occursIn (a ++ '\n' :: (blank ++ '\n' :: b)) = anyLoop.occursIn (a ++ '\n' :: b) := by
  unfold anyLoop
  rw [Bool.eq_iff_iff, occursIn_loopHeader_iff areWords_for_while,
    occursIn_loopHeader_iff areWords_for_while, lines_insert hblank, lines_append_feed]
  have hnone := not_isHeader_of_isIndent hblank areWords_for_while
  simp [hnone, or_and_right, exists_or]

theorem occursIn_nestedLoops_insert_iff (a b : Text) :
    nestedLoops.occursIn (a ++ '\n' :: (blank ++ '\n' :: b)) = true ↔
      nestedLoops.occursIn (a ++ '\n' :: b) = true ∧ ¬SplitsHeaders a.lines b.lines := by
  rw [occursIn_nestedLoops_iff, occursIn_nestedLoops_iff, lines_insert hblank, lines_append_feed]
  exact cutAtHeaders_insert_iff hblank

/-!
# The guess with one more blank line
-/

/-- One more blank line leaves the guess for the running time as it is, unless it takes apart the
only two headers that are close. -/
theorem label_ofTime_insert_iff (a b : Text) :
    (ofTime (a ++ '\n' :: (blank ++ '\n' :: b))).label = (ofTime (a ++ '\n' :: b)).label ↔
      ¬SplitsHeaders a.lines b.lines := by
  have hloop := occursIn_anyLoop_insert hblank a b
  have hnested := occursIn_nestedLoops_insert_iff hblank a b
  constructor
  · intro hlabel hsplits
    have hclose : CutAtHeaders (lines (a ++ '\n' :: b)) := by
      rw [lines_append_feed]
      exact hsplits.cutAtHeaders
    have hguess := (label_injective hlabel).trans (ofTime_eq_quadratic_iff.mpr hclose)
    have hoccurs := occursIn_nestedLoops_iff.mpr (ofTime_eq_quadratic_iff.mp hguess)
    exact (hnested.mp hoccurs).2 hsplits
  · intro hsplits
    have hsame : nestedLoops.occursIn (a ++ '\n' :: (blank ++ '\n' :: b)) =
        nestedLoops.occursIn (a ++ '\n' :: b) := by
      rw [Bool.eq_iff_iff, hnested]
      exact and_iff_left hsplits
    unfold ofTime
    rw [hsame, hloop]

end BlankLine

/-- A blank line between a header and the one inside of its loop. -/
theorem label_ofTime_insert_nested :
    (∀ x ∈ "\t".toList, isIndent x = true) ∧
      (ofTime ("for i in a:".toList ++ '\n' :: ("\t".toList ++
        '\n' :: "    for j in b:".toList))).label =
        (ofTime ("for i in a:".toList ++ '\n' :: "    for j in b:".toList)).label := by
  have hblank : ∀ x ∈ "\t".toList, isIndent x = true :=
    List.all_eq_true.mp (by decide)
  refine ⟨hblank, (label_ofTime_insert_iff hblank _ _).mpr ?_⟩
  intro hsplits
  rcases hsplits.1 with ⟨front, first, blanks, other, second, back, habove, _⟩
  have hlength := congrArg List.length habove
  rw [show (lines "for i in a:".toList).length = 1 by decide] at hlength
  simp only [List.length_append, List.length_cons, List.length_nil] at hlength
  omega

/-- Behind the first line of a loop, a blank line hides the header inside. -/
theorem exists_label_ofTime_insert_ne :
    ∃ a blank b : Text, (∀ x ∈ blank, isIndent x = true) ∧
      (ofTime (a ++ '\n' :: b)).label = quadratic.label ∧
      (ofTime (a ++ '\n' :: (blank ++ '\n' :: b))).label = linear.label :=
  ⟨"for i in a:\n    x = i".toList, [], "    for j in b:\n        f(j)".toList, by simp,
    by decide +kernel, by decide +kernel⟩

end Growth
end SourceAudit
