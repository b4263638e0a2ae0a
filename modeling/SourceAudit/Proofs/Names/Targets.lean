import SourceAudit.Proofs.Names.Introduced
import SourceAudit.Proofs.Text.Lines

/-!
# Targets of an assignment

## Rows of names in front of an equals sign

An assignment can have a row of targets, with commas between them.  The search for assigned names
looks for a name in front of an equals sign, and in a row only the last name stands there.  So the
last target is local wherever such a line stands in a body, and no other one is local because of its
line.
-/

namespace SourceAudit
namespace Names

open Pattern Text

/-- Whether a text is a row of names: commas between them, and spaces or tabs around the commas. -/
inductive IsNameRow : List Text → Text → Prop where
  | single {name : Text} : IsName name → IsNameRow [name] name
  | cons {name gap gap' row : Text} {names : List Text} :
      IsName name → (∀ x ∈ gap, isIndent x = true) → (∀ x ∈ gap', isIndent x = true) →
      IsNameRow names row → IsNameRow (name :: names) (name ++ (gap ++ ',' :: (gap' ++ row)))

/-- Whether a line assigns a value to a row of names. -/
def AssignsRow (names : List Text) (line : Text) : Prop :=
  ∃ indent row gap value, line = indent ++ (row ++ (gap ++ '=' :: value)) ∧
    (∀ x ∈ indent, isIndent x = true) ∧ IsNameRow names row ∧ (∀ x ∈ gap, isIndent x = true) ∧
    ∀ x ∈ value.head?, x ≠ '='

/-- Whether a name is local in every function that has a line with an assignment to a row of names
in its body, so that no use of it in the body is reported. -/
def IsLocalWith (names : List Text) (name : Text) : Prop :=
  ∀ (allowList : AllowList) (function : FunctionText), ∀ line ∈ function.body.lines,
    AssignsRow names line →
      name ∈ localNames allowList function.parameters function.body ∧
        ∀ used ∈ unknownUsesIn allowList function, used.name ≠ name

/-!
# Rows of names
-/

theorem IsNameRow.class {names : List Text} {row : Text} (h : IsNameRow names row) :
    ∀ x ∈ row, isWord x = true ∨ isIndent x = true ∨ x = ',' := by
  induction h with
  | single hname =>
      intro x hx
      exact Or.inl (hname.2 x hx)
  | cons hname hgap hgap' _ ih =>
      intro x hx
      simp only [List.mem_append, List.mem_cons] at hx
      rcases hx with hx | hx | rfl | hx | hx
      · exact Or.inl (hname.2 x hx)
      · exact Or.inr (Or.inl (hgap x hx))
      · exact Or.inr (Or.inr rfl)
      · exact Or.inr (Or.inl (hgap' x hx))
      · exact ih x hx

theorem IsNameRow.not_mem {names : List Text} {row : Text} (h : IsNameRow names row) {x : Char}
    (hword : isWord x = false) (hindent : isIndent x = false) (hcomma : x ≠ ',') : x ∉ row := by
  intro hmem
  rcases h.class x hmem with hx | hx | hx
  · exact absurd hx (Bool.eq_false_iff.mp hword)
  · exact absurd hx (Bool.eq_false_iff.mp hindent)
  · exact hcomma hx

theorem isWord_eq_false_of_mem_comma {gap gap' : Text} (hgap : ∀ x ∈ gap, isIndent x = true)
    (hgap' : ∀ x ∈ gap', isIndent x = true) : ∀ x ∈ gap ++ ',' :: gap', isWord x = false := by
  intro x hx
  simp only [List.mem_append, List.mem_cons] at hx
  rcases hx with hx | rfl | hx
  · exact isWord_eq_false_of_isIndent (hgap x hx)
  · decide
  · exact isWord_eq_false_of_isIndent (hgap' x hx)

theorem IsNameRow.exists_last {names : List Text} {row : Text} (h : IsNameRow names row) :
    ∃ front last, row = front ++ last ∧ names.getLast? = some last ∧ IsName last ∧
      ∀ x ∈ front.getLast?, isWord x = false := by
  induction h with
  | @single name hname =>
      exact ⟨[], name, rfl, rfl, hname, by simp⟩
  | @cons name gap gap' row names _ hgap hgap' hrow ih =>
      rcases ih with ⟨front, last, rfl, hlast, hname, hfront⟩
      refine ⟨name ++ (gap ++ ',' :: gap') ++ front, last, by simp, ?_, hname, ?_⟩
      · rw [List.getLast?_cons, hlast]
        rfl
      · apply forall_mem_getLast?_append _ hfront
        intro x hx
        rw [List.getLast?_append_of_ne_nil _ (by simp)] at hx
        exact isWord_eq_false_of_mem_comma hgap hgap' x (List.mem_of_getLast? hx)

theorem append_inj_of_last_class {accepts : Char → Bool} {before before' piece piece' : Text}
    (hsplit : before ++ piece = before' ++ piece') (hpiece : ∀ x ∈ piece, accepts x = true)
    (hbefore : ∀ x ∈ before.getLast?, accepts x = false) (hpiece' : ∀ x ∈ piece', accepts x = true)
    (hbefore' : ∀ x ∈ before'.getLast?, accepts x = false) : piece = piece' := by
  have hreverse : piece.reverse ++ before.reverse = piece'.reverse ++ before'.reverse := by
    rw [← List.reverse_append, hsplit, List.reverse_append]
  apply List.reverse_injective
  rw [← List.head?_reverse] at hbefore hbefore'
  have hpieceAll : ∀ x ∈ piece.reverse, accepts x = true :=
    fun x hx => hpiece x (List.mem_reverse.mp hx)
  have hpieceAll' : ∀ x ∈ piece'.reverse, accepts x = true :=
    fun x hx => hpiece' x (List.mem_reverse.mp hx)
  exact (append_inj_of_class hreverse hpieceAll hbefore hpieceAll' hbefore').1

theorem IsNameRow.isWord_getLast {names : List Text} {row : Text} (h : IsNameRow names row)
    {x : Char} (hx : x ∈ row.getLast?) : isWord x = true := by
  rcases h.exists_last with ⟨front, last, rfl, _, hname, _⟩
  rw [List.getLast?_append_of_ne_nil _ hname.ne_nil] at hx
  exact hname.2 x (List.mem_of_getLast? hx)

theorem IsNameRow.mem_of_word {names : List Text} {row : Text} (h : IsNameRow names row)
    {before word after : Text} (hsplit : row = before ++ (word ++ after)) (hword : IsName word)
    (hbefore : ∀ x ∈ before.getLast?, isWord x = false)
    (hafter : ∀ x ∈ after.head?, isWord x = false) : word ∈ names := by
  induction h generalizing before with
  | @single name hname =>
      -- Nothing but characters of the word stands in the row.
      have hnil : before = [] := by
        rcases List.eq_nil_or_concat before with rfl | ⟨front, x, rfl⟩
        · rfl
        · have hx := hname.2 x (by rw [hsplit]; simp)
          rw [hbefore x (by simp)] at hx
          cases hx
      have hnil' : after = [] := by
        cases after with
        | nil =>
            rfl
        | cons x more =>
            have hx := hname.2 x (by rw [hsplit]; simp)
            rw [hafter x rfl] at hx
            cases hx
      rw [hsplit, hnil, hnil', List.append_nil]
      exact List.mem_singleton.mpr rfl
  | @cons name gap gap' row names hname hgap hgap' _ ih =>
      have hnoWord := isWord_eq_false_of_mem_comma hgap hgap'
      have hrest : name ++ ((gap ++ ',' :: gap') ++ row) = before ++ (word ++ after) := by
        rw [← hsplit]
        simp
      have hhead : ∀ x ∈ ((gap ++ ',' :: gap') ++ row).head?, isWord x = false := by
        intro x hx
        rw [List.head?_append_of_ne_nil _ (by simp)] at hx
        exact hnoWord x (List.mem_of_mem_head? hx)
      rcases List.eq_nil_or_concat before with rfl | ⟨front, y, rfl⟩
      · have hfirst : name ++ ((gap ++ ',' :: gap') ++ row) = word ++ after := hrest
        rw [(append_inj_of_class hfirst hname.2 hhead hword.2 hafter).1]
        exact List.mem_cons_self
      · rcases append_cases hrest with ⟨m, hm, hbehind⟩ | ⟨x, m, rfl, _⟩
        · rw [hm] at hbefore
          rcases append_cases hbehind with ⟨m', rfl, hrow⟩ | ⟨x, m', hgaps, hstart⟩
          · apply List.mem_cons_of_mem
            apply ih hrow
            rw [← List.append_assoc] at hbefore
            exact forall_mem_getLast?_of_append hbefore
          · exfalso
            have hx := hword.isWord_head? after x (by rw [hstart]; rfl)
            rw [hnoWord x (by rw [hgaps]; simp)] at hx
            cases hx
        · exfalso
          have hy := hname.2 y (by simp)
          rw [hbefore y (by simp)] at hy
          cases hy

/-!
# The last target
-/

/-- A line that assigns to a row of names assigns the last of these. -/
theorem isAssigned_of_assignsRow {body line name : Text} {names : List Text}
    (hline : line ∈ body.lines) (hrow : AssignsRow names line)
    (hlast : names.getLast? = some name) : IsAssigned body name := by
  rcases mem_lines_iff.mp hline with ⟨_, before, after, rfl, hbefore, hafter⟩
  rcases hrow with ⟨indent, row, gap, value, rfl, hindent, hrow, hgap, hvalue⟩
  rcases hrow.exists_last with ⟨front, last, rfl, hlast', hname, hfront⟩
  rw [hlast] at hlast'
  cases hlast'
  have hfeed : ∀ {x : Char}, x = '\n' → isWord x = false := by
    rintro x rfl
    decide
  refine ⟨before ++ (indent ++ front), gap ++ '=' :: (value ++ after), by simp, hname, ?_, ?_, ?_⟩
  · apply forall_mem_getLast?_append (fun x hx => hfeed (hbefore x hx))
    apply forall_mem_getLast?_append _ hfront
    intro x hx
    exact isWord_eq_false_of_isIndent (hindent x (List.mem_of_getLast? hx))
  · apply forall_mem_head?_append
    · intro x hx
      exact isWord_eq_false_of_isIndent (hgap x (List.mem_of_mem_head? hx))
    · intro x hx
      cases hx
      decide
  · refine ⟨gap, [], value ++ after, rfl, hgap, Or.inl rfl, ?_⟩
    apply forall_mem_head?_append hvalue
    rintro x hx rfl
    cases hafter _ hx

theorem getLast?_eq_of_isAssigned {names : List Text} {row name : Text} (hrow : IsNameRow names row)
    (h : IsAssigned (row ++ ['=', '0']) name) : names.getLast? = some name := by
  rcases h with ⟨before, behind, hsplit, hname, hbefore, _, gap, sign, after, rfl, hgap, hsign, _⟩
  have hnoSign : '=' ∉ row := hrow.not_mem (by decide) (by decide) (by decide)
  -- There is one equals sign, and all that comes before it is the row.
  have hcut : row = before ++ (name ++ (gap ++ sign)) := by
    have hsame : row ++ ['=', '0'] = before ++ (name ++ (gap ++ sign)) ++ '=' :: after := by
      rw [hsplit]
      simp
    rcases append_cases hsame with ⟨m, hm, hrest⟩ | ⟨x, m, rfl, hrest⟩
    · cases m with
      | nil =>
          rw [hm, List.append_nil]
      | cons x m =>
          have htail : ['0'] = m ++ '=' :: after := (List.cons.inj hrest).2
          have hmem : '=' ∈ ['0'] := by
            rw [htail]
            simp
          exact absurd hmem (by decide)
    · rw [(List.cons.inj hrest).1] at hnoSign
      exact absurd (by simp) hnoSign
  -- The row ends with a character of a word, so nothing stands behind the name.
  have hnil : gap ++ sign = [] := by
    by_contra hne
    have hword : isWord ((gap ++ sign).getLast hne) = true := by
      apply hrow.isWord_getLast
      rw [hcut, ← List.append_assoc, List.getLast?_append_of_ne_nil _ hne]
      exact List.getLast?_eq_some_getLast hne
    rcases List.mem_append.mp (List.getLast_mem hne) with hx | hx
    · rw [isWord_eq_false_of_isIndent (hgap _ hx)] at hword
      cases hword
    · rcases hsign with rfl | ⟨operator, hoperator, rfl⟩
      · cases hx
      · rw [(apart_of_mem_operatorSigns hoperator hx).1] at hword
        cases hword
  rw [hnil, List.append_nil] at hcut
  rcases hrow.exists_last with ⟨front, last, hfront, hlast, hlastName, hfrontWord⟩
  rw [hlast, append_inj_of_last_class (hfront.symm.trans hcut) hlastName.2 hfrontWord hname.2
    hbefore]

theorem mem_localNames_of_isAssigned {allowList : AllowList} {parameters body name : Text}
    (h : IsAssigned body name) : name ∈ localNames allowList parameters body := by
  unfold localNames
  exact List.mem_append_left _ (List.mem_append_right _ (mem_assignedNames_iff.mpr h))

theorem mem_unknownUsesIn_iff_exists {allowList : AllowList} {function : FunctionText}
    {used : NameUse} :
    used ∈ unknownUsesIn allowList function ↔
      ∃ inner ∈ usesIn function.body,
        inner.name ∉ localNames allowList function.parameters function.body ∧
          allowList.allows inner.name = false ∧ ⟨function.bodyPos + inner.pos, inner.name⟩ = used := by
  unfold unknownUsesIn
  simp only [List.mem_map, List.mem_filter, Bool.and_eq_true, Bool.not_eq_true',
    ← contains_ofList_map_iff, Bool.not_eq_true, and_assoc]

theorem ne_of_mem_unknownUsesIn {allowList : AllowList} {function : FunctionText} {used : NameUse}
    {name : Text} (hused : used ∈ unknownUsesIn allowList function)
    (hname : name ∈ localNames allowList function.parameters function.body) :
    used.name ≠ name := by
  rcases mem_unknownUsesIn_iff_exists.mp hused with ⟨_, _, hunknown, _, rfl⟩
  rintro rfl
  exact hunknown hname

/-- A name is local with an assignment to a row of names, whatever stands around the line, exactly
when it is the last of the row. -/
theorem isLocalWith_iff {names : List Text} {row : Text} (hrow : IsNameRow names row)
    (name : Text) : IsLocalWith names name ↔ names.getLast? = some name := by
  constructor
  · intro h
    let function : FunctionText := ⟨[], 0, row ++ ['=', '0']⟩
    have hline : row ++ ['=', '0'] ∈ function.body.lines := by
      have hfeed : '\n' ∉ row ++ ['=', '0'] := by
        intro hmem
        rcases List.mem_append.mp hmem with hmem | hmem
        · exact hrow.not_mem (by decide) (by decide) (by decide) hmem
        · exact absurd hmem (by decide)
      rw [show function.body.lines = [row ++ ['=', '0']] from lines_of_not_mem hfeed]
      exact List.mem_singleton.mpr rfl
    have hassigns : AssignsRow names (row ++ ['=', '0']) :=
      ⟨[], row, [], ['0'], rfl, by simp, hrow, by simp, by simp⟩
    have hmem := (h .compat function _ hline hassigns).1
    have hassigned : name ∈ assignedNames (row ++ ['=', '0']) := by
      simpa [localNames, function, show parameterNames [] = [] from rfl] using hmem
    exact getLast?_eq_of_isAssigned hrow (mem_assignedNames_iff.mp hassigned)
  · intro hlast allowList function line hline hassigns
    have hlocal : name ∈ localNames allowList function.parameters function.body :=
      mem_localNames_of_isAssigned (isAssigned_of_assignsRow hline hassigns hlast)
    exact ⟨hlocal, fun used hused => ne_of_mem_unknownUsesIn hused hlocal⟩

theorem isNameRow_two : IsNameRow ["a".toList, "b".toList] "a, b".toList :=
  @IsNameRow.cons "a".toList [] " ".toList "b".toList ["b".toList] (by decide) (by simp)
    (List.all_eq_true.mp (by decide)) (.single (by decide))

theorem isLocalWith_two_last :
    IsNameRow ["a".toList, "b".toList] "a, b".toList ∧
      IsLocalWith ["a".toList, "b".toList] "b".toList :=
  ⟨isNameRow_two, (isLocalWith_iff isNameRow_two "b".toList).mpr rfl⟩

/-- The first of two targets is reported. -/
theorem exists_assigned_name_unknown :
    ∃ function ∈ functionsIn "def f():\n    a, b = 1, 2\n    return a".toList,
      (∃ line ∈ function.body.lines, AssignsRow ["a".toList, "b".toList] line) ∧
        ∃ used ∈ unknownUsesIn .extended function, used.name = "a".toList := by
  refine ⟨⟨[], 8, "\n    a, b = 1, 2\n    return a".toList⟩, by decide +kernel, ?_, ?_⟩
  · exact ⟨"    a, b = 1, 2".toList, by decide, "    ".toList, "a, b".toList, " ".toList,
      " 1, 2".toList, by decide, List.all_eq_true.mp (by decide), isNameRow_two,
      List.all_eq_true.mp (by decide), by simp⟩
  · exact ⟨⟨13, "a".toList⟩, mem_unknownUsesIn_iff_exists.mpr (by decide +kernel), rfl⟩

end Names
end SourceAudit
