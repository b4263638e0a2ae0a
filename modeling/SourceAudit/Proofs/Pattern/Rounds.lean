import SourceAudit.Proofs.Pattern.Scan

/-!
# Repetition of a pattern

## Pieces in a row

A repetition passes from a place to the end of a piece there, and on, for as long as the pieces are
not empty.  When a pattern has one end at most at each place, its repetition spans the rows of
pieces that the pattern spans one after the other.
-/

namespace SourceAudit
namespace Pattern

/-- Whether some pieces stand in a row, each spanned by the pattern and none of them empty. -/
inductive SpansRow (p : Pattern) : Text → List Text → Text → Prop where
  | nil {before after : Text} : SpansRow p before [] after
  | cons {before piece after : Text} {pieces : List Text} :
      piece ≠ [] → p.Spans before piece (pieces.flatten ++ after) →
      SpansRow p (before ++ piece) pieces after → SpansRow p before (piece :: pieces) after

/-!
# Places passed
-/

theorem roundsOnto_eq_append (step : Cursor → Option Cursor) (limit : Nat) (passed : List Cursor)
    (c : Cursor) : roundsOnto step limit passed c = roundsOnto step limit [] c ++ passed := by
  induction limit generalizing passed c with
  | zero =>
      rfl
  | succ limit ih =>
      unfold roundsOnto
      cases step c with
      | none =>
          rfl
      | some d =>
          by_cases hlt : c.pos < d.pos
          · simp only [hlt, if_true]
            rw [ih, ih [c], List.append_assoc]
            rfl
          · simp only [hlt, if_false]
            rfl

theorem mem_roundsOnto_succ {step : Cursor → Option Cursor} {limit : Nat} {c d : Cursor} :
    d ∈ roundsOnto step (limit + 1) [] c ↔
      d = c ∨ ∃ e, step c = some e ∧ c.pos < e.pos ∧ d ∈ roundsOnto step limit [] e := by
  rw [roundsOnto]
  cases hstep : step c with
  | none =>
      simp
  | some e =>
      by_cases hlt : c.pos < e.pos
      · simp only [hlt, if_true]
        rw [roundsOnto_eq_append, List.mem_append, List.mem_singleton]
        simp [hlt, or_comm]
      · simp [hlt]

/-!
# Rows of pieces
-/

theorem IsSingle.head?_ends_eq_some_iff {p : Pattern} (h : p.IsSingle) {before rest : Text}
    {d : Cursor} :
    (p.ends (Cursor.between before rest)).head? = some d ↔
      ∃ piece after, rest = piece ++ after ∧ p.Spans before piece after ∧
        d = Cursor.between (before ++ piece) after := by
  rw [← findSome?_some_eq_head?, ← run_eq_findSome?, h.run_eq_some_iff]
  simp only [Option.some.injEq, eq_comm]

theorem pos_between_lt_iff {before piece after : Text} (rest : Text) :
    (Cursor.between before rest).pos < (Cursor.between (before ++ piece) after).pos ↔
      piece ≠ [] := by
  rw [Cursor.between_pos, Cursor.between_pos, List.length_append, Nat.lt_add_right_iff_pos,
    List.length_pos_iff]

theorem IsSingle.mem_roundsOnto_iff {p : Pattern} (h : p.IsSingle) {limit : Nat}
    {before rest : Text} (hlimit : rest.length ≤ limit) {d : Cursor} :
    d ∈ roundsOnto (fun c => (p.ends c).head?) limit [] (Cursor.between before rest) ↔
      ∃ pieces after, rest = pieces.flatten ++ after ∧ SpansRow p before pieces after ∧
        d = Cursor.between (before ++ pieces.flatten) after := by
  -- Every piece takes a character, so as many steps as there are characters are enough.
  induction limit generalizing before rest with
  | zero =>
      have hrest : rest = [] := List.eq_nil_of_length_eq_zero (Nat.le_zero.mp hlimit)
      rw [hrest]
      constructor
      · intro hd
        refine ⟨[], [], rfl, SpansRow.nil, ?_⟩
        rw [List.flatten_nil, List.append_nil]
        exact List.mem_singleton.mp hd
      · intro hrow
        rcases hrow with ⟨pieces, after, hsplit, hrow, rfl⟩
        rcases List.append_eq_nil_iff.mp hsplit.symm with ⟨hpieces, hafter⟩
        rw [hpieces, hafter, List.append_nil]
        exact List.mem_singleton.mpr rfl
  | succ limit ih =>
      rw [mem_roundsOnto_succ]
      constructor
      · intro hd
        rcases hd with rfl | ⟨e, hstep, hlt, hd⟩
        · refine ⟨[], rest, rfl, SpansRow.nil, ?_⟩
          rw [List.flatten_nil, List.append_nil]
        · rcases h.head?_ends_eq_some_iff.mp hstep with ⟨piece, after, rfl, hspans, rfl⟩
          have hne := (pos_between_lt_iff _).mp hlt
          have hafter : after.length ≤ limit := by
            have hpos := List.length_pos_iff.mpr hne
            rw [List.length_append] at hlimit
            omega
          rcases (ih hafter).mp hd with ⟨pieces, last, rfl, hrow, rfl⟩
          refine ⟨piece :: pieces, last, ?_, SpansRow.cons hne hspans hrow, ?_⟩
          · rw [List.flatten_cons, List.append_assoc]
          · rw [List.flatten_cons, List.append_assoc]
      · intro hrow
        rcases hrow with ⟨pieces, last, rfl, hrow, rfl⟩
        cases hrow with
        | nil =>
            left
            rw [List.flatten_nil, List.append_nil]
            rfl
        | cons hne hspans hrow =>
            rename_i piece pieces
            right
            have hafter : (pieces.flatten ++ last).length ≤ limit := by
              have hpos := List.length_pos_iff.mpr hne
              rw [List.flatten_cons, List.append_assoc, List.length_append] at hlimit
              omega
            refine ⟨Cursor.between (before ++ piece) (pieces.flatten ++ last), ?_, ?_, ?_⟩
            · apply h.head?_ends_eq_some_iff.mpr
              refine ⟨piece, pieces.flatten ++ last, ?_, hspans, rfl⟩
              rw [List.flatten_cons, List.append_assoc]
            · exact (pos_between_lt_iff _).mpr hne
            · apply (ih hafter).mpr
              refine ⟨pieces, last, rfl, hrow, ?_⟩
              rw [List.flatten_cons, List.append_assoc]

/-- The repetition of a pattern spans the rows of pieces that the pattern spans. -/
theorem spans_rounds {p : Pattern} (h : p.IsSingle) {before piece after : Text} :
    (rounds p).Spans before piece after ↔
      ∃ pieces, piece = pieces.flatten ∧ SpansRow p before pieces after := by
  apply spans_iff_of_mem_ends
    (P := fun found later => ∃ pieces, found = pieces.flatten ∧ SpansRow p before pieces later)
  intro d
  show d ∈ roundsOnto (fun c => (p.ends c).head?) (piece ++ after).length []
    (Cursor.between before (piece ++ after)) ↔ _
  rw [h.mem_roundsOnto_iff (Nat.le_refl _)]
  constructor
  · intro hrow
    rcases hrow with ⟨pieces, later, hsplit, hrow, rfl⟩
    refine ⟨pieces.flatten, later, hsplit, ⟨pieces, rfl, hrow⟩, ?_⟩
    rw [hsplit, Cursor.advance_between]
  · intro hrow
    rcases hrow with ⟨_, later, hsplit, ⟨pieces, rfl, hrow⟩, rfl⟩
    refine ⟨pieces, later, hsplit, hrow, ?_⟩
    rw [hsplit, Cursor.advance_between]

end Pattern
end SourceAudit
