import SourceAudit.Brackets

/-!
# Nested brackets

## The check and the grammar

A row of brackets is nested when it is empty, or a pair of matching brackets around a nested row
with a nested row behind it.

The check knows the brackets that are still open.  From there it accepts exactly the rows that
complete them: a nested row, then the closing sign of the innermost open bracket, and so on outwards
until none is open.  A step over one character keeps this correspondence.
-/

namespace SourceAudit

/-!
# The grammar
-/

def bracketPairs : List (Char × Char) :=
  [('(', ')'), ('[', ']'), ('\x7b', '\x7d')]

def isBracketSign (c : Char) : Bool :=
  bracketPairs.any fun pair => c == pair.1 || c == pair.2

/-- Whether a row of signs can be made by the rules: the empty row; and, for each pair, its two
signs with a row between them and a row behind. -/
inductive IsNested : Text → Prop where
  | empty : IsNested []
  | pair {opening closing : Char} {inside later : Text} : (opening, closing) ∈ bracketPairs →
      IsNested inside → IsNested later → IsNested (opening :: (inside ++ closing :: later))

theorem IsNested.append {row row' : Text} (h : IsNested row) (h' : IsNested row') :
    IsNested (row ++ row') := by
  induction h with
  | empty =>
      exact h'
  | pair hpair hinside _ _ ih =>
      rw [List.cons_append, List.append_assoc, List.cons_append]
      exact .pair hpair hinside ih

namespace Bracket

/-!
# Signs
-/

theorem mem_bracketPairs_iff {opening closing : Char} :
    (opening, closing) ∈ bracketPairs ↔
      ∃ b : Bracket, opening = b.opening ∧ closing = b.closing := by
  constructor
  · intro h
    simp only [bracketPairs, List.mem_cons, Prod.mk.injEq, List.not_mem_nil, or_false] at h
    rcases h with ⟨rfl, rfl⟩ | ⟨rfl, rfl⟩ | ⟨rfl, rfl⟩
    · exact ⟨.round, rfl, rfl⟩
    · exact ⟨.square, rfl, rfl⟩
    · exact ⟨.curly, rfl, rfl⟩
  · intro h
    rcases h with ⟨b, rfl, rfl⟩
    cases b <;> decide

theorem isBracketSign_iff {c : Char} :
    isBracketSign c = true ↔ (∃ b : Bracket, c = b.opening) ∨ ∃ b : Bracket, c = b.closing := by
  constructor
  · intro h
    rcases List.any_eq_true.mp h with ⟨⟨opening, closing⟩, hpair, hc⟩
    rcases mem_bracketPairs_iff.mp hpair with ⟨b, rfl, rfl⟩
    rcases Bool.or_eq_true_iff.mp hc with hc | hc
    · exact Or.inl ⟨b, beq_iff_eq.mp hc⟩
    · exact Or.inr ⟨b, beq_iff_eq.mp hc⟩
  · intro h
    rcases h with ⟨b, rfl⟩ | ⟨b, rfl⟩ <;> cases b <;> rfl

theorem opening_ne_closing (b b' : Bracket) : b.opening ≠ b'.closing := by
  cases b <;> cases b' <;> decide

theorem opening_injective {b b' : Bracket} (h : b.opening = b'.opening) : b = b' := by
  revert h
  cases b <;> cases b' <;> decide

theorem closing_injective {b b' : Bracket} (h : b.closing = b'.closing) : b = b' := by
  revert h
  cases b <;> cases b' <;> decide

theorem ofOpening?_eq_some_iff {c : Char} {b : Bracket} :
    ofOpening? c = some b ↔ c = b.opening := by
  constructor
  · intro h
    have hfound := List.find?_some (p := fun b : Bracket => b.opening == c) h
    exact (beq_iff_eq.mp hfound).symm
  · intro h
    rw [h]
    cases b <;> rfl

theorem ofClosing?_eq_some_iff {c : Char} {b : Bracket} :
    ofClosing? c = some b ↔ c = b.closing := by
  constructor
  · intro h
    have hfound := List.find?_some (p := fun b : Bracket => b.closing == c) h
    exact (beq_iff_eq.mp hfound).symm
  · intro h
    rw [h]
    cases b <;> rfl

theorem isNested_cons_iff {c : Char} {rest : Text} :
    IsNested (c :: rest) ↔
      ∃ (b : Bracket) (inside later : Text), c = b.opening ∧
        rest = inside ++ b.closing :: later ∧ IsNested inside ∧ IsNested later := by
  constructor
  · intro h
    cases h with
    | pair hpair hinside hlater =>
        rcases mem_bracketPairs_iff.mp hpair with ⟨b, rfl, rfl⟩
        exact ⟨b, _, _, rfl, rfl, hinside, hlater⟩
  · intro h
    rcases h with ⟨b, inside, later, rfl, rfl, hinside, hlater⟩
    exact .pair (mem_bracketPairs_iff.mpr ⟨b, rfl, rfl⟩) hinside hlater

theorem not_isNested_closing {b : Bracket} {rest : Text} : ¬IsNested (b.closing :: rest) := by
  intro h
  rcases isNested_cons_iff.mp h with ⟨b', _, _, hclosing, _⟩
  exact opening_ne_closing b' b hclosing.symm

/-!
# Rows that complete the open brackets
-/

/-- Whether a row closes some open brackets, the innermost first, with nested rows in between. -/
def Completes : List Bracket → Text → Prop
  | [], row => IsNested row
  | b :: outer, row => ∃ inside later, row = inside ++ b.closing :: later ∧ IsNested inside ∧
      Completes outer later

section Completes

variable {opened outer : List Bracket} {b innermost : Bracket} {row rest : Text}

theorem completes_nil_iff : Completes opened [] ↔ opened = [] := by
  cases opened with
  | nil =>
      exact ⟨fun _ => rfl, fun _ => IsNested.empty⟩
  | cons innermost outer =>
      constructor
      · intro h
        rcases h with ⟨inside, later, hsplit, _⟩
        exact absurd hsplit.symm (by simp)
      · intro h
        cases h

theorem Completes.behind (h : Completes opened rest) (hrow : IsNested row) :
    Completes opened (row ++ rest) := by
  cases opened with
  | nil =>
      exact IsNested.append hrow h
  | cons innermost outer =>
      rcases h with ⟨inside, later, rfl, hinside, hlater⟩
      exact ⟨row ++ inside, later, (List.append_assoc _ _ _).symm, hrow.append hinside, hlater⟩

theorem completes_opening_iff :
    Completes opened (b.opening :: rest) ↔ Completes (b :: opened) rest := by
  constructor
  · intro h
    cases opened with
    | nil =>
        rcases isNested_cons_iff.mp h with ⟨b', inside, later, hb, rfl, hinside, hlater⟩
        rw [opening_injective hb]
        exact ⟨inside, later, rfl, hinside, hlater⟩
    | cons innermost outer =>
        rcases h with ⟨first, later, hsplit, hfirst, hlater⟩
        cases first with
        | nil =>
            exact absurd (List.cons.inj hsplit).1 (opening_ne_closing b innermost)
        | cons c more =>
            rcases List.cons.inj hsplit with ⟨rfl, rfl⟩
            rcases isNested_cons_iff.mp hfirst with ⟨b', inside, behind, hb, rfl, hinside, hbehind⟩
            rw [opening_injective hb]
            refine ⟨inside, behind ++ innermost.closing :: later, ?_, hinside, ?_⟩
            · exact List.append_assoc inside (b'.closing :: behind) (innermost.closing :: later)
            · exact ⟨behind, later, rfl, hbehind, hlater⟩
  · intro h
    rcases h with ⟨inside, later, rfl, hinside, hlater⟩
    have hpair : IsNested (b.opening :: (inside ++ b.closing :: [])) :=
      isNested_cons_iff.mpr ⟨b, inside, [], rfl, rfl, hinside, .empty⟩
    have hrow := Completes.behind hlater hpair
    rw [List.cons_append, List.append_assoc] at hrow
    exact hrow

theorem not_completes_nil_closing : ¬Completes [] (b.closing :: rest) :=
  not_isNested_closing

theorem completes_closing_iff :
    Completes (innermost :: outer) (b.closing :: rest) ↔ innermost = b ∧ Completes outer rest := by
  constructor
  · intro h
    rcases h with ⟨inside, later, hsplit, hinside, hlater⟩
    cases inside with
    | nil =>
        rcases List.cons.inj hsplit with ⟨hclosing, rfl⟩
        exact ⟨(closing_injective hclosing).symm, hlater⟩
    | cons c more =>
        rw [← (List.cons.inj hsplit).1] at hinside
        exact absurd hinside not_isNested_closing
  · intro h
    rcases h with ⟨rfl, hrest⟩
    exact ⟨[], rest, rfl, .empty, hrest⟩

end Completes

/-!
# The check
-/

/-- With some brackets open, the check accepts the texts whose signs complete them. -/
theorem closes_iff_completes (opened : List Bracket) (t : Text) :
    closes opened t = true ↔ Completes opened (t.filter isBracketSign) := by
  induction t generalizing opened with
  | nil =>
      rw [List.filter_nil, completes_nil_iff]
      exact List.isEmpty_iff
  | cons c rest ih =>
      unfold closes
      cases hopening : ofOpening? c with
      | some b =>
          have hc := ofOpening?_eq_some_iff.mp hopening
          rw [List.filter_cons_of_pos (isBracketSign_iff.mpr (Or.inl ⟨b, hc⟩)), hc,
            completes_opening_iff]
          exact ih (b :: opened)
      | none =>
          cases hclosing : ofClosing? c with
          | none =>
              have hsign : ¬isBracketSign c = true := by
                intro hsign
                rcases isBracketSign_iff.mp hsign with ⟨b, hb⟩ | ⟨b, hb⟩
                · rw [ofOpening?_eq_some_iff.mpr hb] at hopening
                  cases hopening
                · rw [ofClosing?_eq_some_iff.mpr hb] at hclosing
                  cases hclosing
              rw [List.filter_cons_of_neg hsign]
              exact ih opened
          | some b =>
              have hc := ofClosing?_eq_some_iff.mp hclosing
              rw [List.filter_cons_of_pos (isBracketSign_iff.mpr (Or.inr ⟨b, hc⟩)), hc]
              cases opened with
              | nil =>
                  simp [not_completes_nil_closing]
              | cons innermost outer =>
                  rw [completes_closing_iff, ← ih outer]
                  by_cases hsame : innermost = b
                  · simp [hsame]
                  · simp [hsame]

end Bracket

/-- A text is balanced exactly when its brackets, read without the other characters, are a row that
the grammar makes. -/
theorem isBalanced_iff_isNested (t : Text) :
    isBalanced t = true ↔ IsNested (t.filter isBracketSign) :=
  Bracket.closes_iff_completes [] t

end SourceAudit
