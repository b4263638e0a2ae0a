import SourceAudit.Proofs.Names.Occurrences

/-!
# Names that a function introduces

## Parameters and assignments

A parameter has a name when it begins with one, behind blanks and asterisks.  A name is assigned
when it stands in the body with the rest of an assignment behind it: an operator or none, and an equals
sign that no other one follows.

Reading an assignment takes the name and the signs behind it.  No name begins inside of these, so a
reading never hides another one, and the scan finds every place where a name is assigned.
-/

namespace SourceAudit

namespace Names

open Pattern

/-- Whether a parameter begins with a name, behind blanks, asterisks and blanks. -/
def IsNamed (parameter name : Text) : Prop :=
  ∃ space stars gap after, parameter = space ++ (stars ++ (gap ++ (name ++ after))) ∧
    (∀ x ∈ space, Text.isBlank x = true) ∧ (∀ x ∈ stars, x = '*') ∧
    (∀ x ∈ gap, Text.isBlank x = true) ∧ IsName name ∧ ∀ x ∈ after.head?, Text.isWord x = false

def operatorSigns : List String :=
  ["//", "**", ">>", "<<", "-", "+", "*", "/", "%", "&", "|", "^", "@"]

/-- Whether a text goes on, behind a name, with the rest of an assignment: spaces and tabs, one
operator at most, and an equals sign that no other follows. -/
def Assigns (behind : Text) : Prop :=
  ∃ gap sign after, behind = gap ++ (sign ++ '=' :: after) ∧
    (∀ x ∈ gap, Text.isIndent x = true) ∧
    (sign = [] ∨ ∃ operator ∈ operatorSigns, sign = operator.toList) ∧
    ∀ x ∈ after.head?, x ≠ '='

/-- Whether a name stands somewhere in a body in front of the rest of an assignment. -/
def IsAssigned (body name : Text) : Prop :=
  ∃ before behind, body = before ++ (name ++ behind) ∧ IsName name ∧
    (∀ x ∈ before.getLast?, Text.isWord x = false) ∧
    (∀ x ∈ behind.head?, Text.isWord x = false) ∧ Assigns behind

/-!
# Parameters
-/

theorem isSingle_parameterStart : parameterStart.IsSingle := by
  apply isSingle_sequence
  intro p hp
  simp only [List.mem_cons, List.not_mem_nil, or_false] at hp
  rcases hp with rfl | rfl | rfl
  · exact isSingle_whole Text.isBlank
  · exact isSingle_whole _
  · exact isSingle_whole Text.isBlank

theorem spans_parameterStart {before piece after : Text} :
    parameterStart.Spans before piece after ↔
      ∃ space stars gap, piece = space ++ (stars ++ gap) ∧
        (∀ x ∈ space, Text.isBlank x = true) ∧
        (∀ x ∈ (stars ++ gap ++ after).head?, Text.isBlank x = false) ∧
        (∀ x ∈ stars, x = '*') ∧ (∀ x ∈ (gap ++ after).head?, x ≠ '*') ∧
        (∀ x ∈ gap, Text.isBlank x = true) ∧ ∀ x ∈ after.head?, Text.isBlank x = false := by
  unfold parameterStart blanks
  simp only [spans_sequence_cons_cons, spans_sequence_singleton, spans_whole, beq_iff_eq,
    beq_eq_false_iff_ne]
  constructor
  · intro h
    rcases h with ⟨space, _, rfl, ⟨hspace, hstop⟩, stars, gap, rfl, ⟨hstars, hlast⟩, hgap, hafter⟩
    exact ⟨space, stars, gap, rfl, hspace, hstop, hstars, hlast, hgap, hafter⟩
  · intro h
    rcases h with ⟨space, stars, gap, rfl, hspace, hstop, hstars, hlast, hgap, hafter⟩
    exact ⟨space, _, rfl, ⟨hspace, hstop⟩, stars, gap, rfl, ⟨hstars, hlast⟩, hgap, hafter⟩

theorem spans_parameterStart_of_isName {space stars gap name after : Text} (before : Text)
    (hspace : ∀ x ∈ space, Text.isBlank x = true) (hstars : ∀ x ∈ stars, x = '*')
    (hgap : ∀ x ∈ gap, Text.isBlank x = true) (hname : IsName name) :
    parameterStart.Spans before (space ++ (stars ++ gap)) (name ++ after) := by
  have hhead : ∀ x ∈ (name ++ after).head?, Text.isBlank x = false ∧ x ≠ '*' := by
    intro x hx
    have hword := hname.isWord_head? after x hx
    refine ⟨Text.isBlank_eq_false_of_isWord hword, ?_⟩
    intro heq
    rw [heq] at hword
    revert hword
    decide
  apply spans_parameterStart.mpr
  cases stars with
  | nil =>
      -- Without asterisks all the blanks are taken at once.
      refine ⟨space ++ gap, [], [], by simp, ?_, fun x hx => (hhead x hx).1, by simp,
        fun x hx => (hhead x hx).2, by simp, fun x hx => (hhead x hx).1⟩
      intro x hx
      rcases List.mem_append.mp hx with hx | hx
      · exact hspace x hx
      · exact hgap x hx
  | cons star more =>
      refine ⟨space, star :: more, gap, rfl, hspace, ?_, hstars, ?_, hgap,
        fun x hx => (hhead x hx).1⟩
      · intro x hx
        cases hx
        rw [hstars _ List.mem_cons_self]
        decide
      · intro x hx
        cases gap with
        | nil =>
            exact (hhead x hx).2
        | cons y rest =>
            cases hx
            intro heq
            have hblank := hgap _ List.mem_cons_self
            rw [heq] at hblank
            revert hblank
            decide

theorem parameterName?_eq_some_iff {parameter name : Text} :
    parameterName? parameter = some name ↔ IsNamed parameter name := by
  show parameterStart.run (Cursor.between [] parameter) _ = _ ↔ _
  rw [isSingle_parameterStart.run_eq_some_iff]
  simp only [isSingle_name.run_eq_some_iff, spans_name]
  constructor
  · intro h
    rcases h with ⟨piece, _, rfl, hpiece, name, after, rfl, ⟨hname, hafter⟩, hvalue⟩
    rcases spans_parameterStart.mp hpiece with ⟨space, stars, gap, rfl, hspace, _, hstars, _,
      hgap, _⟩
    rw [Cursor.upTo_between] at hvalue
    cases hvalue
    exact ⟨space, stars, gap, after, by simp, hspace, hstars, hgap, hname, hafter⟩
  · intro h
    rcases h with ⟨space, stars, gap, after, rfl, hspace, hstars, hgap, hname, hafter⟩
    refine ⟨space ++ (stars ++ gap), name ++ after, by simp,
      spans_parameterStart_of_isName [] hspace hstars hgap hname, name, after, rfl,
      ⟨hname, hafter⟩, ?_⟩
    rw [Cursor.upTo_between]

theorem mem_parameterNames_iff {parameters name : Text} :
    name ∈ parameterNames parameters ↔
      ∃ parameter ∈ parameters.cutAt ',', IsNamed parameter name := by
  unfold parameterNames
  simp only [List.mem_filterMap, parameterName?_eq_some_iff]

/-!
# What follows an assigned name
-/

theorem spans_operator {before piece after : Text} :
    operator.Spans before piece after ↔
      ∃ operator ∈ operatorSigns, piece = operator.toList := by
  unfold operator operatorSigns
  rw [spans_oneOf]
  simp only [List.mem_cons, List.not_mem_nil, or_false, exists_eq_or_imp, exists_eq_left,
    spans_literal, spans_char, List.contains_iff_mem]
  constructor
  · intro h
    rcases h with h | h | h | h | ⟨x, rfl, hx⟩
    · simp [h]
    · simp [h]
    · simp [h]
    · simp [h]
    · rcases hx with rfl | rfl | rfl | rfl | rfl | rfl | rfl | rfl | rfl <;> simp
  · intro h
    rcases h with h | h | h | h | h | h | h | h | h | h | h | h | h <;> simp [h]

theorem apart_of_mem_operatorSigns {operator : String} (hoperator : operator ∈ operatorSigns)
    {x : Char} (hx : x ∈ operator.toList) : Text.isWord x = false ∧ Text.isIndent x = false := by
  have hall : ∀ operator ∈ operatorSigns,
      operator.toList.all (fun x => !Text.isWord x && !Text.isIndent x) = true := by
    decide
  simpa using List.all_eq_true.mp (hall operator hoperator) x hx

theorem isIndent_head?_of_sign {sign : Text}
    (hsign : sign = [] ∨ ∃ operator ∈ operatorSigns, sign = operator.toList) (after : Text) :
    ∀ x ∈ (sign ++ '=' :: after).head?, Text.isIndent x = false := by
  intro x hx
  cases sign with
  | nil =>
      cases hx
      decide
  | cons y more =>
      cases hx
      rcases hsign with hsign | ⟨operator, hoperator, hsign⟩
      · cases hsign
      · apply (apart_of_mem_operatorSigns hoperator _).2
        rw [← hsign]
        exact List.mem_cons_self

theorem spans_assignmentSign {before piece after : Text} :
    assignmentSign.Spans before piece after ↔
      ∃ gap sign, piece = gap ++ (sign ++ ['=']) ∧ (∀ x ∈ gap, Text.isIndent x = true) ∧
        (sign = [] ∨ ∃ operator ∈ operatorSigns, sign = operator.toList) ∧
        ∀ x ∈ after.head?, x ≠ '=' := by
  have hcheck : ∀ front : Text,
      (((Cursor.between front after).rest.head? != some '=') = true ↔
        ∀ x ∈ after.head?, x ≠ '=') := by
    intro front
    rw [Cursor.between_rest]
    cases after.head? <;> simp
  unfold assignmentSign indentation
  simp only [spans_sequence_cons_cons, spans_sequence_singleton, spans_whole, spans_optional,
    spans_operator, spans_exactly, spans_check]
  constructor
  · intro h
    rcases h with ⟨gap, _, rfl, ⟨hgap, _⟩, sign, _, rfl, hsign, _, _, rfl, rfl, rfl, hafter⟩
    exact ⟨gap, sign, rfl, hgap, hsign.symm, (hcheck _).mp hafter⟩
  · intro h
    rcases h with ⟨gap, sign, rfl, hgap, hsign, hafter⟩
    refine ⟨gap, _, rfl, ⟨hgap, ?_⟩, sign, _, rfl, hsign.symm, ['='], [], rfl, rfl, rfl,
      (hcheck _).mpr hafter⟩
    rw [List.append_assoc]
    exact isIndent_head?_of_sign hsign after

theorem assigns_iff (front : Text) {behind : Text} :
    Assigns behind ↔
      ∃ piece after, behind = piece ++ after ∧ assignmentSign.Spans front piece after := by
  simp only [spans_assignmentSign]
  constructor
  · intro h
    rcases h with ⟨gap, sign, after, rfl, hgap, hsign, hafter⟩
    exact ⟨gap ++ (sign ++ ['=']), after, by simp, gap, sign, rfl, hgap, hsign, hafter⟩
  · intro h
    rcases h with ⟨_, after, rfl, gap, sign, rfl, hgap, hsign, hafter⟩
    exact ⟨gap, sign, after, by simp, hgap, hsign, hafter⟩

theorem isWord_of_spans_assignmentSign {before piece after : Text}
    (h : assignmentSign.Spans before piece after) : ∀ x ∈ piece, Text.isWord x = false := by
  rcases spans_assignmentSign.mp h with ⟨gap, sign, rfl, hgap, hsign, _⟩
  intro x hx
  simp only [List.mem_append, List.mem_singleton] at hx
  rcases hx with hx | hx | rfl
  · exact Text.isWord_eq_false_of_isBlank (Text.isBlank_of_isIndent (hgap x hx))
  · rcases hsign with rfl | ⟨operator, hoperator, rfl⟩
    · cases hx
    · exact (apart_of_mem_operatorSigns hoperator hx).1
  · decide

def comparisonSigns : List String :=
  ["==", "!=", "<=", ">=", ":="]

theorem exists_comparisonSign_eq :
    ∀ comparison ∈ comparisonSigns, ∃ first, comparison.toList = [first, '='] ∧
      Text.isIndent first = false := by
  intro comparison hcomparison
  simp only [comparisonSigns, List.mem_cons, List.not_mem_nil, or_false] at hcomparison
  rcases hcomparison with rfl | rfl | rfl | rfl | rfl <;> exact ⟨_, rfl, rfl⟩

theorem take_two_ne_comparisonSign :
    ∀ comparison ∈ comparisonSigns, ∀ operator ∈ operatorSigns,
      (operator.toList ++ ['=']).take 2 ≠ comparison.toList := by
  decide

theorem not_assigns_comparison {gap : Text} (hgap : ∀ x ∈ gap, Text.isIndent x = true)
    {comparison : String} (hcomparison : comparison ∈ comparisonSigns) (after : Text) :
    ¬Assigns (gap ++ (comparison.toList ++ after)) := by
  rcases exists_comparisonSign_eq comparison hcomparison with ⟨first, hshape, hfirst⟩
  rw [hshape]
  intro h
  rcases h with ⟨gap', sign, after', hsplit, hgap', hsign, hafter⟩
  have hhead : ∀ x ∈ (([first, '='] : Text) ++ after).head?, Text.isIndent x = false := by
    intro x hx
    cases hx
    exact hfirst
  rcases append_inj_of_class hsplit hgap hhead hgap' (isIndent_head?_of_sign hsign after') with
    ⟨_, hrest⟩
  rcases hsign with rfl | ⟨operator, hoperator, rfl⟩
  · -- Without an operator, a second equals sign follows the first.
    have hsecond : after' = '=' :: after := (List.cons.inj hrest).2.symm
    exact hafter '=' (by rw [hsecond]; rfl) rfl
  · have hlength : ∀ operator ∈ operatorSigns, 2 ≤ (operator.toList ++ ['=']).length := by
      decide
    apply take_two_ne_comparisonSign comparison hcomparison operator hoperator
    have htake : [first, '='] = List.take 2 (operator.toList ++ '=' :: after') :=
      congrArg (List.take 2) hrest
    rw [hshape, htake, List.append_cons operator.toList '=' after',
      List.take_append_of_le_length (hlength operator hoperator)]

/-!
# Reading assignments
-/

theorem readAssignment_eq_some {before rest name : Text} {e : Cursor}
    (h : readAssignment (Cursor.between before rest) = some (e, name)) :
    ∃ piece after, rest = name ++ (piece ++ after) ∧ IsName name ∧
      (∀ x ∈ before.getLast?, Text.isWord x = false) ∧
      (∀ x ∈ (piece ++ after).head?, Text.isWord x = false) ∧
      assignmentSign.Spans (before ++ name) piece after ∧
      e = Cursor.between (before ++ name ++ piece) after := by
  change (if (Cursor.between before rest).atWordBoundary then _ else none) = _ at h
  split at h
  · rename_i hboundary
    rcases isSingle_name.run_eq_some_iff.mp h with ⟨piece, behind, rfl, hspans, h⟩
    rcases spans_name.mp hspans with ⟨hname, hbehind⟩
    rw [Cursor.upTo_between, run_eq_findSome?] at h
    rcases List.exists_of_findSome?_eq_some h with ⟨d, hd, hvalue⟩
    rcases mem_ends_between.mp hd with ⟨sign, after, rfl, hsign, rfl⟩
    cases hvalue
    exact ⟨sign, after, rfl, hname, (hname.atWordBoundary_iff _ _).mp hboundary, hbehind, hsign, rfl⟩
  · cases h

theorem exists_readAssignment {before behind name : Text} (hname : IsName name)
    (hbefore : ∀ x ∈ before.getLast?, Text.isWord x = false)
    (hbehind : ∀ x ∈ behind.head?, Text.isWord x = false) (hassigns : Assigns behind) :
    ∃ e, readAssignment (Cursor.between before (name ++ behind)) = some (e, name) := by
  rcases (assigns_iff (before ++ name)).mp hassigns with ⟨piece, after, rfl, hpiece⟩
  have hread : ∃ found, assignmentSign.run (Cursor.between (before ++ name) (piece ++ after))
      (fun e => some (e, name)) = some found := by
    rw [← Option.isSome_iff_exists, run_eq_findSome?, List.findSome?_isSome_iff]
    exact ⟨_, hpiece, rfl⟩
  rcases hread with ⟨⟨e, value⟩, hread⟩
  have hvalue : value = name := by
    rw [run_eq_findSome?] at hread
    rcases List.exists_of_findSome?_eq_some hread with ⟨d, _, hd⟩
    cases hd
    rfl
  refine ⟨e, ?_⟩
  show (if (Cursor.between before (name ++ (piece ++ after))).atWordBoundary then _ else none) = _
  rw [if_pos ((hname.atWordBoundary_iff _ _).mpr hbefore)]
  apply isSingle_name.run_eq_some_iff.mpr
  refine ⟨name, piece ++ after, rfl, spans_name.mpr ⟨hname, hbehind⟩, ?_⟩
  rw [Cursor.upTo_between, hread, hvalue]

theorem readAssignment_apart {t : Text} {c d e : Cursor} {name : Text} (hc : c ∈ Cursor.all t)
    (hread : readAssignment c = some (d, name)) (he : e ∈ Cursor.all t) (hlow : c.pos < e.pos)
    (hhigh : e.pos < d.pos) : readAssignment e = none := by
  rcases Cursor.mem_all.mp hc with ⟨before, rest, ht, rfl⟩
  rcases Cursor.mem_all.mp he with ⟨before', rest', ht', rfl⟩
  rcases readAssignment_eq_some hread with ⟨piece, after, rfl, hname, _, _, hpiece, rfl⟩
  rcases exists_append_of_length_lt (ht.symm.trans ht') hlow with ⟨passed, hne, rfl, hpassed⟩
  cases hother : readAssignment (Cursor.between (before ++ passed) rest') with
  | none =>
      exact hother
  | some next =>
      exfalso
      rcases readAssignment_eq_some hother with ⟨_, _, rfl, hotherName, hbefore, _⟩
      rcases Nat.le_total passed.length name.length with hle | hle
      · -- Inside of the name, a character of a word comes before.
        rcases exists_append_of_length_le hpassed.symm hle with ⟨left, hsplit, _⟩
        rcases hname.exists_isWord_getLast? hsplit hne before with ⟨x, hx, hword⟩
        rw [hbefore x hx] at hword
        cases hword
      · -- Behind the name, the signs go on.
        rcases exists_append_of_length_le hpassed hle with ⟨inner, rfl, hinner⟩
        have hlength : inner.length < piece.length := by
          have hpos : (before ++ (name ++ inner)).length < (before ++ name ++ piece).length := hhigh
          simp only [List.length_append] at hpos
          omega
        rcases exists_append_of_length_le hinner.symm (Nat.le_of_lt hlength) with
          ⟨left, rfl, hleft⟩
        cases left with
        | nil =>
            simp at hlength
        | cons x more =>
            have hword := hotherName.isWord_head? _ x (by rw [hleft]; rfl)
            rw [isWord_of_spans_assignmentSign hpiece x (by simp)] at hword
            cases hword

/-- The names assigned in a body are read at all places where a name is assigned, in the order of
these. -/
theorem assignedNames_eq_filterMap (body : Text) :
    assignedNames body = (Cursor.all body).filterMap fun c => (readAssignment c).map Prod.snd :=
  Reader.scan_eq_filterMap fun _ hc _ _ hread _ he hlow hhigh =>
    readAssignment_apart hc hread he hlow hhigh

theorem mem_assignedNames_iff {body name : Text} :
    name ∈ assignedNames body ↔ IsAssigned body name := by
  rw [assignedNames_eq_filterMap, List.mem_filterMap]
  constructor
  · intro h
    rcases h with ⟨c, hc, hvalue⟩
    rcases Option.map_eq_some_iff.mp hvalue with ⟨⟨e, _⟩, hread, rfl⟩
    rcases Cursor.mem_all.mp hc with ⟨before, rest, rfl, rfl⟩
    rcases readAssignment_eq_some hread with ⟨piece, after, rfl, hname, hbefore, hbehind, hpiece, _⟩
    exact ⟨before, piece ++ after, rfl, hname, hbefore, hbehind,
      (assigns_iff _).mpr ⟨piece, after, rfl, hpiece⟩⟩
  · intro h
    rcases h with ⟨before, behind, rfl, hname, hbefore, hbehind, hassigns⟩
    rcases exists_readAssignment hname hbefore hbehind hassigns with ⟨e, hread⟩
    refine ⟨Cursor.between before (name ++ behind), ?_, ?_⟩
    · exact Cursor.mem_all.mpr ⟨before, name ++ behind, rfl, rfl⟩
    · rw [hread]
      rfl

/-!
# All names
-/

/-- With the compact list, a function introduces exactly the names with which its parameters begin
and the names that are assigned in its body.  A comparison or a named expression assigns nothing. -/
theorem mem_localNames_compat_iff (parameters body : Text) :
    (∀ name, name ∈ localNames .compat parameters body ↔
      (∃ parameter ∈ parameters.cutAt ',', IsNamed parameter name) ∨ IsAssigned body name) ∧
    ∀ gap after : Text, (∀ x ∈ gap, Text.isIndent x = true) →
      ∀ comparison ∈ comparisonSigns, ¬Assigns (gap ++ (comparison.toList ++ after)) := by
  constructor
  · intro name
    unfold localNames
    rw [List.append_nil, List.mem_append, mem_parameterNames_iff, mem_assignedNames_iff]
  · intro gap after hgap comparison hcomparison
    exact not_assigns_comparison hgap hcomparison after

end Names
end SourceAudit
