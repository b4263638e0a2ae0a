import SourceAudit.Pattern.Search

/-!
# Where matches end

## Places and ends

The cursors of a text are exactly its splits into what lies before and what lies after.  The ends of
a compound pattern are those of its parts, put together: an end of a row is reached through a place
between its two parts, and an end of a choice is an end of one of the alternatives.  A run over a
class of characters ends behind a piece of such characters.
-/

namespace SourceAudit
namespace Cursor

/-!
# Moving over a piece
-/

def advance (c : Cursor) (piece after : Text) : Cursor :=
  ⟨c.pos + piece.length, piece.getLast?.or c.prev, after⟩

@[simp] theorem advance_nil (c : Cursor) : c.advance [] c.rest = c := by
  cases c
  rfl

theorem advance_cons (c : Cursor) (x : Char) (piece after : Text) :
    c.advance (x :: piece) after =
      Cursor.advance ⟨c.pos + 1, some x, piece ++ after⟩ piece after := by
  unfold advance
  have hlast : (x :: piece).getLast?.or c.prev = piece.getLast?.or (some x) := by
    cases piece with
    | nil =>
        rfl
    | cons y rest =>
        simp [List.getLast?_cons]
  rw [hlast]
  simp [Nat.add_comm, Nat.add_left_comm]

theorem mem_spanOnto_nil {accepts : Char → Bool} {c d : Cursor} :
    d ∈ spanOnto accepts [] c.pos c.prev c.rest ↔
      ∃ piece after, c.rest = piece ++ after ∧ (∀ x ∈ piece, accepts x = true) ∧
        d = c.advance piece after := by
  cases c with
  | mk pos prev rest =>
      induction rest generalizing pos prev with
      | nil =>
          constructor
          · intro h
            refine ⟨[], [], rfl, ?_, ?_⟩
            · intro x hx
              cases hx
            · exact List.mem_singleton.mp h
          · intro h
            rcases h with ⟨piece, after, hsplit, _, rfl⟩
            have hnil := List.append_eq_nil_iff.mp hsplit.symm
            rw [hnil.1, hnil.2]
            exact List.mem_singleton.mpr rfl
      | cons x rest ih =>
          unfold spanOnto
          by_cases hx : accepts x = true
          · simp only [hx, if_true]
            rw [spanOnto_eq_append, List.mem_append, List.mem_singleton]
            constructor
            · intro h
              rcases h with (h | h)
              · rcases (ih (pos + 1) (some x)).mp h with ⟨piece, after, hsplit, hpiece, hd⟩
                simp only at hsplit
                refine ⟨x :: piece, after, ?_, ?_, ?_⟩
                · rw [List.cons_append, hsplit]
                · intro y hy
                  rcases List.mem_cons.mp hy with rfl | hy
                  · exact hx
                  · exact hpiece y hy
                · rw [advance_cons, hd, hsplit]
              · refine ⟨[], x :: rest, rfl, ?_, h⟩
                intro y hy
                cases hy
            · intro h
              rcases h with ⟨piece, after, hsplit, hpiece, hd⟩
              cases piece with
              | nil =>
                  right
                  rw [hd]
                  have hafter : x :: rest = after := hsplit
                  rw [← hafter]
                  rfl
              | cons y piece =>
                  left
                  simp only [List.cons_append, List.cons.injEq] at hsplit
                  rcases hsplit with ⟨rfl, hrest⟩
                  refine (ih (pos + 1) (some x)).mpr ⟨piece, after, hrest, ?_, ?_⟩
                  · intro z hz
                    exact hpiece z (List.mem_cons_of_mem x hz)
                  · rw [hd, advance_cons, hrest]
          · have hstop : accepts x = false := by
              simpa using hx
            simp only [hstop]
            constructor
            · intro h
              refine ⟨[], x :: rest, rfl, ?_, ?_⟩
              · intro y hy
                cases hy
              · exact List.mem_singleton.mp h
            · intro h
              rcases h with ⟨piece, after, hsplit, hpiece, hd⟩
              cases piece with
              | nil =>
                  rw [hd]
                  have hafter : x :: rest = after := hsplit
                  rw [← hafter]
                  exact List.mem_singleton.mpr rfl
              | cons y piece =>
                  simp only [List.cons_append, List.cons.injEq] at hsplit
                  rcases hsplit with ⟨rfl, _⟩
                  have hy := hpiece x List.mem_cons_self
                  rw [hstop] at hy
                  cases hy

theorem mem_walkOnto_nil {c d : Cursor} :
    d ∈ walkOnto [] c.pos c.prev c.rest ↔
      ∃ piece after, c.rest = piece ++ after ∧ d = c.advance piece after := by
  have hwalk : ∀ (passed : List Cursor) (pos : Nat) (prev : Option Char) (t : Text),
      walkOnto passed pos prev t = spanOnto (fun _ => true) passed pos prev t := by
    intro passed pos prev t
    induction t generalizing passed pos prev with
    | nil =>
        rfl
    | cons x rest ih =>
        unfold walkOnto spanOnto
        exact ih _ _ _
  rw [hwalk, mem_spanOnto_nil]
  constructor
  · intro h
    rcases h with ⟨piece, after, hsplit, _, hd⟩
    exact ⟨piece, after, hsplit, hd⟩
  · intro h
    rcases h with ⟨piece, after, hsplit, hd⟩
    exact ⟨piece, after, hsplit, fun _ _ => rfl, hd⟩

/-- The cursors of a text are its splits into what lies before and what lies after. -/
theorem mem_all {t : Text} {c : Cursor} :
    c ∈ all t ↔ ∃ before after, t = before ++ after ∧ c = ⟨before.length, before.getLast?, after⟩ := by
  unfold all
  rw [List.mem_reverse]
  have h := mem_walkOnto_nil (c := start t) (d := c)
  simp only [start] at h
  rw [h]
  constructor
  · intro h
    rcases h with ⟨piece, after, hsplit, hc⟩
    refine ⟨piece, after, hsplit, ?_⟩
    rw [hc]
    simp [advance]
  · intro h
    rcases h with ⟨piece, after, hsplit, hc⟩
    refine ⟨piece, after, hsplit, ?_⟩
    rw [hc]
    simp [advance]

end Cursor

namespace Pattern

/-!
# Ends of compound patterns
-/

@[simp] theorem mem_ends_nothing {c d : Cursor} : d ∈ nothing.ends c ↔ d = c :=
  List.mem_singleton

theorem mem_ends_char {accepts : Char → Bool} {c d : Cursor} :
    d ∈ (char accepts).ends c ↔
      ∃ x after, c.rest = x :: after ∧ accepts x = true ∧ d = c.advance [x] after := by
  cases c with
  | mk pos prev rest =>
      cases rest with
      | nil =>
          constructor
          · intro h
            cases h
          · intro h
            rcases h with ⟨x, after, hrest, _⟩
            cases hrest
      | cons x after =>
          show d ∈ (if accepts x then [(⟨pos + 1, some x, after⟩ : Cursor)] else []) ↔ _
          constructor
          · intro h
            by_cases hx : accepts x = true
            · rw [if_pos hx] at h
              exact ⟨x, after, rfl, hx, List.mem_singleton.mp h⟩
            · rw [if_neg hx] at h
              cases h
          · intro h
            rcases h with ⟨y, later, hrest, hy, rfl⟩
            cases hrest
            rw [if_pos hy]
            exact List.mem_singleton.mpr rfl

theorem mem_ends_check {holds : Cursor → Bool} {c d : Cursor} :
    d ∈ (check holds).ends c ↔ holds c = true ∧ d = c := by
  show d ∈ (if holds c then [c] else []) ↔ _
  cases hc : holds c <;> simp

theorem mem_ends_seq {first second : Pattern} {c e : Cursor} :
    e ∈ (seq first second).ends c ↔ ∃ d, d ∈ first.ends c ∧ e ∈ second.ends d :=
  List.mem_flatMap

theorem mem_ends_either {preferred other : Pattern} {c d : Cursor} :
    d ∈ (either preferred other).ends c ↔ d ∈ preferred.ends c ∨ d ∈ other.ends c :=
  List.mem_append

theorem mem_ends_whole {accepts : Char → Bool} {c d : Cursor} :
    d ∈ (whole accepts).ends c ↔ d = c.skip accepts :=
  List.mem_singleton

theorem mem_ends_many {accepts : Char → Bool} {c d : Cursor} :
    d ∈ (many accepts).ends c ↔
      ∃ piece after, c.rest = piece ++ after ∧ (∀ x ∈ piece, accepts x = true) ∧
        d = c.advance piece after :=
  Cursor.mem_spanOnto_nil

theorem mem_ends_few {accepts : Char → Bool} {c d : Cursor} :
    d ∈ (few accepts).ends c ↔
      ∃ piece after, c.rest = piece ++ after ∧ (∀ x ∈ piece, accepts x = true) ∧
        d = c.advance piece after :=
  List.mem_reverse.trans Cursor.mem_spanOnto_nil

theorem mem_ends_ahead {piece : Pattern} {c d : Cursor} :
    d ∈ (ahead piece).ends c ↔ (∃ e, e ∈ piece.ends c) ∧ d = c := by
  show d ∈ (if (piece.ends c).isEmpty then [] else [c]) ↔ _
  cases piece.ends c with
  | nil =>
      simp
  | cons e rest =>
      constructor
      · intro hd
        exact ⟨⟨e, List.mem_cons_self⟩, List.mem_singleton.mp hd⟩
      · intro h
        rcases h with ⟨_, rfl⟩
        exact List.mem_singleton.mpr rfl

theorem mem_ends_literal {s : String} {c d : Cursor} :
    d ∈ (literal s).ends c ↔
      ∃ after, c.rest = s.toList ++ after ∧ d = c.advance s.toList after := by
  unfold literal sequence
  generalize s.toList = t
  induction t generalizing c with
  | nil =>
      constructor
      · intro h
        exact ⟨c.rest, rfl, by rw [Cursor.advance_nil]; exact mem_ends_nothing.mp h⟩
      · intro h
        rcases h with ⟨after, hrest, hd⟩
        have hafter : c.rest = after := hrest
        rw [← hafter, Cursor.advance_nil] at hd
        exact mem_ends_nothing.mpr hd
  | cons x t ih =>
      rw [List.map_cons, List.foldr_cons, mem_ends_seq]
      constructor
      · intro h
        rcases h with ⟨e, he, hd⟩
        rcases mem_ends_char.mp he with ⟨y, after, hrest, hy, rfl⟩
        rcases ih.mp hd with ⟨later, hafter, rfl⟩
        have hxy : y = x := by
          simpa using hy
        rw [hxy] at hrest ⊢
        simp only [Cursor.advance] at hafter
        refine ⟨later, ?_, ?_⟩
        · rw [hrest, hafter]
          rfl
        · exact (Cursor.advance_cons c x t later).symm
      · intro h
        rcases h with ⟨later, hrest, rfl⟩
        refine ⟨c.advance [x] (t ++ later), ?_, ?_⟩
        · exact mem_ends_char.mpr ⟨x, t ++ later, hrest, by simp, rfl⟩
        · exact ih.mpr ⟨later, rfl, Cursor.advance_cons c x t later⟩

end Pattern
end SourceAudit
