import SourceAudit.Pattern.Lemmas

/-!
# Spans of a pattern

## Before, piece and after

A place of a text is a split of the text into what lies before and what lies after.  A pattern spans
a piece of a text when a match that begins in front of the piece can end behind it.  Every end of a
match is the end of a piece, so the ends of a pattern are known once its spans are.
-/

namespace SourceAudit
namespace Cursor

def between (before after : Text) : Cursor :=
  ⟨before.length, before.getLast?, after⟩

@[simp] theorem between_pos (before after : Text) :
    (between before after).pos = before.length := rfl

@[simp] theorem between_prev (before after : Text) :
    (between before after).prev = before.getLast? := rfl

@[simp] theorem between_rest (before after : Text) :
    (between before after).rest = after := rfl

theorem advance_between (before piece after : Text) :
    (between before (piece ++ after)).advance piece after = between (before ++ piece) after := by
  unfold advance between
  rw [List.length_append, List.getLast?_append]

theorem upTo_between (before piece after : Text) :
    (between before (piece ++ after)).upTo (between (before ++ piece) after) = piece := by
  unfold upTo
  simp

theorem atStart_between (before after : Text) :
    (between before after).atStart = true ↔ before = [] := by
  unfold atStart
  rw [between_prev, Option.isNone_iff_eq_none, List.getLast?_eq_none_iff]

theorem atLineStart_between (before after : Text) :
    (between before after).atLineStart = true ↔ ∀ x ∈ before.getLast?, x = '\n' := by
  unfold atLineStart
  rw [between_prev]
  cases before.getLast? with
  | none =>
      simp
  | some x =>
      simp

theorem atLineEnd_between (before after : Text) :
    (between before after).atLineEnd = true ↔ ∀ x ∈ after.head?, x = '\n' := by
  unfold atLineEnd
  rw [between_rest]
  cases after with
  | nil =>
      simp
  | cons x rest =>
      simp

theorem atWordBoundary_before {before rest : Text} {x : Char} (hhead : rest.head? = some x)
    (hx : Text.isWord x = true) :
    (between before rest).atWordBoundary = true ↔
      ∀ y ∈ before.getLast?, Text.isWord y = false := by
  unfold atWordBoundary
  rw [between_prev, between_rest, hhead]
  cases before.getLast? with
  | none =>
      simp [hx]
  | some y =>
      simp [hx]

theorem atWordBoundary_behind {before piece after : Text} (hne : piece ≠ [])
    (hpiece : ∀ x ∈ piece, Text.isWord x = true) :
    (between (before ++ piece) after).atWordBoundary = true ↔
      ∀ y ∈ after.head?, Text.isWord y = false := by
  have hlast := hpiece _ (List.getLast_mem hne)
  unfold atWordBoundary
  rw [between_prev, between_rest, List.getLast?_append, List.getLast?_eq_some_getLast hne,
    Option.some_or]
  cases after.head? with
  | none =>
      simp [hlast]
  | some y =>
      simp [hlast]

/-!
# Where matches end
-/

theorem skip_eq_advance (accepts : Char → Bool) (c : Cursor) :
    ∃ piece after, c.rest = piece ++ after ∧ (∀ x ∈ piece, accepts x = true) ∧
      (∀ x ∈ after.head?, accepts x = false) ∧ c.skip accepts = c.advance piece after := by
  cases c with
  | mk pos prev rest =>
      unfold skip
      induction rest generalizing pos prev with
      | nil =>
          refine ⟨[], [], rfl, ?_, ?_, rfl⟩
          · intro x hx
            cases hx
          · intro x hx
            cases hx
      | cons x rest ih =>
          unfold skipFrom
          by_cases hx : accepts x = true
          · rw [if_pos hx]
            rcases ih (pos + 1) (some x) with ⟨piece, after, hsplit, hpiece, hafter, hskip⟩
            refine ⟨x :: piece, after, ?_, ?_, hafter, ?_⟩
            · show x :: rest = x :: piece ++ after
              rw [show rest = piece ++ after from hsplit]
              rfl
            · intro y hy
              rcases List.mem_cons.mp hy with rfl | hy
              · exact hx
              · exact hpiece y hy
            · rw [hskip, advance_cons, show rest = piece ++ after from hsplit]
          · rw [if_neg hx]
            refine ⟨[], x :: rest, rfl, ?_, ?_, rfl⟩
            · intro y hy
              cases hy
            · intro y hy
              have hxy : x = y := by
                simpa using hy
              rw [← hxy]
              simpa using hx

theorem advance_advance (c : Cursor) (piece piece' after after' : Text) :
    (c.advance piece after).advance piece' after' = c.advance (piece ++ piece') after' := by
  unfold advance
  rw [List.length_append, List.getLast?_append, Option.or_assoc, Nat.add_assoc]

end Cursor

namespace Pattern

theorem exists_advance_of_mem_roundsOnto {step : Cursor → Option Cursor}
    (hstep : ∀ c d, step c = some d →
      ∃ piece after, c.rest = piece ++ after ∧ d = c.advance piece after)
    (start : Cursor) (limit : Nat) (passed : List Cursor) (c : Cursor)
    (hpassed : ∀ d ∈ c :: passed,
      ∃ piece after, start.rest = piece ++ after ∧ d = start.advance piece after) :
    ∀ d ∈ roundsOnto step limit passed c,
      ∃ piece after, start.rest = piece ++ after ∧ d = start.advance piece after := by
  induction limit generalizing passed c with
  | zero =>
      exact hpassed
  | succ limit ih =>
      unfold roundsOnto
      cases hd : step c with
      | none =>
          exact hpassed
      | some d =>
          by_cases hlt : c.pos < d.pos
          · simp only [hlt, if_true]
            apply ih
            intro e he
            rcases List.mem_cons.mp he with rfl | he
            · rcases hpassed c List.mem_cons_self with ⟨piece, after, hrest, hc⟩
              rcases hstep c e hd with ⟨piece', after', hrest', he⟩
              rw [hc] at hrest'
              refine ⟨piece ++ piece', after', ?_, ?_⟩
              · rw [hrest, show after = piece' ++ after' from hrest', List.append_assoc]
              · rw [he, hc, Cursor.advance_advance]
            · exact hpassed e he
          · simp only [hlt, if_false]
            exact hpassed

theorem exists_advance_of_mem_ends {p : Pattern} {c d : Cursor} (h : d ∈ p.ends c) :
    ∃ piece after, c.rest = piece ++ after ∧ d = c.advance piece after := by
  induction p generalizing c d with
  | nothing =>
      exact ⟨[], c.rest, rfl, (mem_ends_nothing.mp h).trans (Cursor.advance_nil c).symm⟩
  | char accepts =>
      rcases mem_ends_char.mp h with ⟨x, after, hrest, _, hd⟩
      exact ⟨[x], after, hrest, hd⟩
  | check holds =>
      exact ⟨[], c.rest, rfl, (mem_ends_check.mp h).2.trans (Cursor.advance_nil c).symm⟩
  | seq first second ihFirst ihSecond =>
      rcases mem_ends_seq.mp h with ⟨e, he, hd⟩
      rcases ihFirst he with ⟨piece, after, hrest, rfl⟩
      rcases ihSecond hd with ⟨piece', after', hrest', rfl⟩
      refine ⟨piece ++ piece', after', ?_, Cursor.advance_advance c piece piece' _ after'⟩
      rw [hrest, show after = piece' ++ after' from hrest', List.append_assoc]
  | either preferred other ihPreferred ihOther =>
      rcases mem_ends_either.mp h with h | h
      · exact ihPreferred h
      · exact ihOther h
  | whole accepts =>
      rcases Cursor.skip_eq_advance accepts c with ⟨piece, after, hrest, _, _, hskip⟩
      exact ⟨piece, after, hrest, (mem_ends_whole.mp h).trans hskip⟩
  | many accepts =>
      rcases mem_ends_many.mp h with ⟨piece, after, hrest, _, hd⟩
      exact ⟨piece, after, hrest, hd⟩
  | few accepts =>
      rcases mem_ends_few.mp h with ⟨piece, after, hrest, _, hd⟩
      exact ⟨piece, after, hrest, hd⟩
  | rounds piece ih =>
      apply exists_advance_of_mem_roundsOnto _ c c.rest.length [] c _ d h
      · intro e f hf
        exact ih (List.mem_of_mem_head? hf)
      · intro e he
        rw [List.mem_singleton.mp he]
        exact ⟨[], c.rest, rfl, (Cursor.advance_nil c).symm⟩
  | ahead piece =>
      exact ⟨[], c.rest, rfl, (mem_ends_ahead.mp h).2.trans (Cursor.advance_nil c).symm⟩

/-!
# Spans
-/

/-- Whether a match that begins between `before` and `piece` can end between `piece` and
`after`. -/
def Spans (p : Pattern) (before piece after : Text) : Prop :=
  Cursor.between (before ++ piece) after ∈ p.ends (Cursor.between before (piece ++ after))

/-- The ends of a match are the ends of the pieces that its pattern spans. -/
theorem mem_ends_between {p : Pattern} {before rest : Text} {d : Cursor} :
    d ∈ p.ends (Cursor.between before rest) ↔
      ∃ piece after, rest = piece ++ after ∧ p.Spans before piece after ∧
        d = Cursor.between (before ++ piece) after := by
  constructor
  · intro h
    rcases exists_advance_of_mem_ends h with ⟨piece, after, hrest, hd⟩
    have hsplit : rest = piece ++ after := hrest
    rw [hsplit, Cursor.advance_between] at hd
    refine ⟨piece, after, hsplit, ?_, hd⟩
    unfold Spans
    rw [← hd, ← hsplit]
    exact h
  · intro h
    rcases h with ⟨piece, after, rfl, hspans, rfl⟩
    exact hspans

theorem between_eq_between_iff {before piece after : Text} :
    Cursor.between (before ++ piece) after = Cursor.between before (piece ++ after) ↔
      piece = [] := by
  constructor
  · intro h
    have hafter : after = piece ++ after := congrArg Cursor.rest h
    exact List.self_eq_append_left.mp hafter
  · intro h
    rw [h, List.append_nil]
    rfl

theorem spans_nothing {before piece after : Text} :
    nothing.Spans before piece after ↔ piece = [] := by
  unfold Spans
  rw [mem_ends_nothing, between_eq_between_iff]

theorem spans_check {holds : Cursor → Bool} {before piece after : Text} :
    (check holds).Spans before piece after ↔
      piece = [] ∧ holds (Cursor.between before after) = true := by
  unfold Spans
  rw [mem_ends_check, between_eq_between_iff]
  constructor
  · intro h
    rcases h with ⟨hholds, rfl⟩
    exact ⟨rfl, hholds⟩
  · intro h
    rcases h with ⟨rfl, hholds⟩
    exact ⟨hholds, rfl⟩

theorem spans_lineStart {before piece after : Text} :
    lineStart.Spans before piece after ↔ piece = [] ∧ ∀ x ∈ before.getLast?, x = '\n' := by
  unfold lineStart
  rw [spans_check, Cursor.atLineStart_between]

theorem spans_lineEnd {before piece after : Text} :
    lineEnd.Spans before piece after ↔ piece = [] ∧ ∀ x ∈ after.head?, x = '\n' := by
  unfold lineEnd
  rw [spans_check, Cursor.atLineEnd_between]

theorem spans_ahead {p : Pattern} {before piece after : Text} :
    (ahead p).Spans before piece after ↔
      piece = [] ∧ ∃ u v, after = u ++ v ∧ p.Spans before u v := by
  unfold Spans
  rw [mem_ends_ahead, between_eq_between_iff]
  constructor
  · intro h
    rcases h with ⟨⟨e, he⟩, rfl⟩
    rcases mem_ends_between.mp he with ⟨u, v, hsplit, hspans, _⟩
    exact ⟨rfl, u, v, hsplit, hspans⟩
  · intro h
    rcases h with ⟨rfl, u, v, rfl, hspans⟩
    exact ⟨⟨_, hspans⟩, rfl⟩

/-- A span over a class of characters, when the ends of a pattern are known as pieces. -/
theorem spans_iff_of_mem_ends {p : Pattern} {before piece after : Text} {P : Text → Text → Prop}
    (h : ∀ d, d ∈ p.ends (Cursor.between before (piece ++ after)) ↔
      ∃ found later, piece ++ after = found ++ later ∧ P found later ∧
        d = (Cursor.between before (piece ++ after)).advance found later) :
    p.Spans before piece after ↔ P piece after := by
  unfold Spans
  rw [h]
  constructor
  · intro hspan
    rcases hspan with ⟨found, later, hsplit, hP, hd⟩
    have hafter : after = later := congrArg Cursor.rest hd
    rw [← hafter] at hsplit hP
    rw [List.append_cancel_right hsplit]
    exact hP
  · intro hP
    exact ⟨piece, after, rfl, hP, (Cursor.advance_between before piece after).symm⟩

theorem spans_char {accepts : Char → Bool} {before piece after : Text} :
    (char accepts).Spans before piece after ↔ ∃ x, piece = [x] ∧ accepts x = true := by
  apply spans_iff_of_mem_ends (P := fun found _ => ∃ x, found = [x] ∧ accepts x = true)
  intro d
  rw [mem_ends_char]
  constructor
  · intro h
    rcases h with ⟨x, later, hrest, hx, hd⟩
    exact ⟨[x], later, hrest, ⟨x, rfl, hx⟩, hd⟩
  · intro h
    rcases h with ⟨_, later, hrest, ⟨x, rfl, hx⟩, hd⟩
    exact ⟨x, later, hrest, hx, hd⟩

theorem spans_exactly {x : Char} {before piece after : Text} :
    (exactly x).Spans before piece after ↔ piece = [x] := by
  unfold exactly
  rw [spans_char]
  constructor
  · intro h
    rcases h with ⟨y, hpiece, hy⟩
    rw [hpiece, beq_iff_eq.mp hy]
  · intro h
    exact ⟨x, h, beq_self_eq_true x⟩

theorem spans_many {accepts : Char → Bool} {before piece after : Text} :
    (many accepts).Spans before piece after ↔ ∀ x ∈ piece, accepts x = true :=
  spans_iff_of_mem_ends (P := fun found _ => ∀ x ∈ found, accepts x = true)
    fun _ => mem_ends_many

theorem spans_few {accepts : Char → Bool} {before piece after : Text} :
    (few accepts).Spans before piece after ↔ ∀ x ∈ piece, accepts x = true :=
  spans_iff_of_mem_ends (P := fun found _ => ∀ x ∈ found, accepts x = true)
    fun _ => mem_ends_few

/-- A piece of one class that a character of another class, or nothing, follows is the only one at
its place. -/
theorem append_inj_of_class {accepts : Char → Bool} {piece piece' after after' : Text}
    (hsplit : piece ++ after = piece' ++ after')
    (hpiece : ∀ x ∈ piece, accepts x = true) (hafter : ∀ x ∈ after.head?, accepts x = false)
    (hpiece' : ∀ x ∈ piece', accepts x = true) (hafter' : ∀ x ∈ after'.head?, accepts x = false) :
    piece = piece' ∧ after = after' := by
  induction piece generalizing piece' with
  | nil =>
      cases piece' with
      | nil =>
          exact ⟨rfl, hsplit⟩
      | cons y rest' =>
          have hy := hpiece' y List.mem_cons_self
          rw [hafter y (by rw [show after = y :: rest' ++ after' from hsplit]; rfl)] at hy
          cases hy
  | cons x rest ih =>
      cases piece' with
      | nil =>
          have hx := hpiece x List.mem_cons_self
          rw [hafter' x (by rw [← show x :: rest ++ after = after' from hsplit]; rfl)] at hx
          cases hx
      | cons y rest' =>
          simp only [List.cons_append, List.cons.injEq] at hsplit
          rcases hsplit with ⟨rfl, hrest⟩
          have htail := ih hrest (fun z hz => hpiece z (List.mem_cons_of_mem x hz))
            (fun z hz => hpiece' z (List.mem_cons_of_mem x hz))
          exact ⟨by rw [htail.1], htail.2⟩

theorem spans_whole {accepts : Char → Bool} {before piece after : Text} :
    (whole accepts).Spans before piece after ↔
      (∀ x ∈ piece, accepts x = true) ∧ ∀ x ∈ after.head?, accepts x = false := by
  apply spans_iff_of_mem_ends
    (P := fun found later => (∀ x ∈ found, accepts x = true) ∧ ∀ x ∈ later.head?, accepts x = false)
  intro d
  rw [mem_ends_whole]
  rcases Cursor.skip_eq_advance accepts (Cursor.between before (piece ++ after)) with
    ⟨found, later, hrest, hfound, hlater, hskip⟩
  have hsplit : piece ++ after = found ++ later := hrest
  constructor
  · intro hd
    exact ⟨found, later, hsplit, ⟨hfound, hlater⟩, hd.trans hskip⟩
  · intro h
    rcases h with ⟨found', later', hsplit', ⟨hfound', hlater'⟩, hd⟩
    rcases append_inj_of_class (hsplit'.symm.trans hsplit) hfound' hlater' hfound hlater with
      ⟨rfl, rfl⟩
    exact hd.trans hskip.symm

theorem spans_indentation {before piece after : Text} :
    indentation.Spans before piece after ↔
      (∀ x ∈ piece, Text.isIndent x = true) ∧ ∀ x ∈ after.head?, Text.isIndent x = false :=
  spans_whole

theorem spans_restOfLine {before piece after : Text} :
    restOfLine.Spans before piece after ↔ '\n' ∉ piece ∧ ∀ x ∈ after.head?, x = '\n' := by
  unfold restOfLine
  simp only [spans_whole, bne_iff_ne, bne_eq_false_iff_eq]
  apply and_congr_left
  intro _
  constructor
  · intro h hfeed
    exact h '\n' hfeed rfl
  · intro h x hx heq
    exact h (heq ▸ hx)

theorem spans_seq {first second : Pattern} {before piece after : Text} :
    (seq first second).Spans before piece after ↔
      ∃ u v, piece = u ++ v ∧ first.Spans before u (v ++ after) ∧
        second.Spans (before ++ u) v after := by
  constructor
  · intro h
    rcases mem_ends_seq.mp h with ⟨d, hd, he⟩
    rcases mem_ends_between.mp hd with ⟨u, rest, hsplit, hfirst, rfl⟩
    rcases mem_ends_between.mp he with ⟨v, later, rfl, hsecond, hend⟩
    have hafter : after = later := congrArg Cursor.rest hend
    rw [← hafter, ← List.append_assoc] at hsplit
    refine ⟨u, v, List.append_cancel_right hsplit, ?_, ?_⟩
    · rw [hafter]
      exact hfirst
    · rw [hafter]
      exact hsecond
  · intro h
    rcases h with ⟨u, v, rfl, hfirst, hsecond⟩
    apply mem_ends_seq.mpr
    refine ⟨Cursor.between (before ++ u) (v ++ after), ?_, ?_⟩
    · rw [List.append_assoc]
      exact hfirst
    · rw [← List.append_assoc]
      exact hsecond

theorem spans_seq_assoc {first second third : Pattern} {before piece after : Text} :
    (seq (seq first second) third).Spans before piece after ↔
      (seq first (seq second third)).Spans before piece after := by
  unfold Spans
  simp only [ends, List.flatMap_assoc]

theorem spans_either {preferred other : Pattern} {before piece after : Text} :
    (either preferred other).Spans before piece after ↔
      preferred.Spans before piece after ∨ other.Spans before piece after :=
  mem_ends_either

theorem spans_optional {p : Pattern} {before piece after : Text} :
    (optional p).Spans before piece after ↔ p.Spans before piece after ∨ piece = [] := by
  unfold optional
  rw [spans_either, spans_nothing]

theorem spans_several {accepts : Char → Bool} {before piece after : Text} :
    (several accepts).Spans before piece after ↔
      piece ≠ [] ∧ (∀ x ∈ piece, accepts x = true) ∧ ∀ x ∈ after.head?, accepts x = false := by
  unfold several
  rw [spans_seq]
  constructor
  · intro h
    rcases h with ⟨u, v, rfl, hu, hv⟩
    rcases spans_char.mp hu with ⟨x, rfl, hx⟩
    rcases spans_whole.mp hv with ⟨hall, hafter⟩
    refine ⟨by simp, ?_, hafter⟩
    intro y hy
    rcases List.mem_cons.mp hy with rfl | hy
    · exact hx
    · exact hall y hy
  · intro h
    rcases h with ⟨hne, hall, hafter⟩
    cases piece with
    | nil =>
        exact absurd rfl hne
    | cons x rest =>
        refine ⟨[x], rest, rfl, ?_, ?_⟩
        · exact spans_char.mpr ⟨x, rfl, hall x List.mem_cons_self⟩
        · exact spans_whole.mpr ⟨fun y hy => hall y (List.mem_cons_of_mem x hy), hafter⟩

theorem spans_literal {s : String} {before piece after : Text} :
    (literal s).Spans before piece after ↔ piece = s.toList := by
  apply spans_iff_of_mem_ends (P := fun found _ => found = s.toList)
  intro d
  rw [mem_ends_literal]
  constructor
  · intro h
    rcases h with ⟨later, hrest, hd⟩
    exact ⟨s.toList, later, hrest, rfl, hd⟩
  · intro h
    rcases h with ⟨_, later, hrest, rfl, hd⟩
    exact ⟨later, hrest, hd⟩

theorem spans_sequence_cons_cons {p q : Pattern} {parts : List Pattern}
    {before piece after : Text} :
    (sequence (p :: q :: parts)).Spans before piece after ↔
      ∃ u v, piece = u ++ v ∧ p.Spans before u (v ++ after) ∧
        (sequence (q :: parts)).Spans (before ++ u) v after :=
  spans_seq

theorem spans_sequence_singleton {p : Pattern} {before piece after : Text} :
    (sequence [p]).Spans before piece after ↔ p.Spans before piece after := by
  show (seq p nothing).Spans before piece after ↔ _
  rw [spans_seq]
  constructor
  · intro h
    rcases h with ⟨u, v, rfl, hu, hv⟩
    rw [spans_nothing.mp hv] at hu ⊢
    rw [List.append_nil]
    exact hu
  · intro h
    exact ⟨piece, [], (List.append_nil piece).symm, h, spans_nothing.mpr rfl⟩

theorem spans_oneOf {choices : List Pattern} {before piece after : Text} :
    (oneOf choices).Spans before piece after ↔
      ∃ choice ∈ choices, choice.Spans before piece after := by
  induction choices with
  | nil =>
      constructor
      · intro h
        cases (spans_check.mp h).2
      · intro h
        rcases h with ⟨_, hmem, _⟩
        cases hmem
  | cons choice others ih =>
      simp only [List.mem_cons, exists_eq_or_imp]
      rw [← ih]
      exact spans_either

/-- Some whole words: none is empty and all have word characters only. -/
def AreWords (words : List String) : Prop :=
  ∀ word ∈ words, word.toList ≠ [] ∧ ∀ x ∈ word.toList, Text.isWord x = true

theorem spans_wholeWord {words : List String} (hwords : AreWords words)
    {before piece after : Text} :
    (wholeWord words).Spans before piece after ↔
      (∃ word ∈ words, piece = word.toList) ∧ ∀ x ∈ after.head?, Text.isWord x = false := by
  unfold wholeWord wordBoundary
  rw [spans_seq]
  constructor
  · intro h
    rcases h with ⟨u, v, rfl, hu, hv⟩
    rcases spans_check.mp hv with ⟨rfl, hboundary⟩
    rcases spans_oneOf.mp hu with ⟨choice, hchoice, hspans⟩
    rcases List.mem_map.mp hchoice with ⟨word, hword, rfl⟩
    have hpiece := spans_literal.mp hspans
    rw [List.append_nil]
    refine ⟨⟨word, hword, hpiece⟩, ?_⟩
    rw [hpiece] at hboundary
    exact (Cursor.atWordBoundary_behind (hwords word hword).1 (hwords word hword).2).mp hboundary
  · intro h
    rcases h with ⟨⟨word, hword, rfl⟩, hafter⟩
    refine ⟨word.toList, [], (List.append_nil _).symm, ?_, ?_⟩
    · exact spans_oneOf.mpr ⟨literal word, List.mem_map_of_mem hword, spans_literal.mpr rfl⟩
    · apply spans_check.mpr
      exact ⟨rfl, (Cursor.atWordBoundary_behind (hwords word hword).1
        (hwords word hword).2).mpr hafter⟩

theorem occursIn_iff_spans {p : Pattern} {t : Text} :
    p.occursIn t = true ↔
      ∃ before piece after, t = before ++ (piece ++ after) ∧ p.Spans before piece after := by
  rw [occursIn_iff]
  constructor
  · intro h
    rcases h with ⟨c, hc, d, hd⟩
    rcases Cursor.mem_all.mp hc with ⟨before, rest, rfl, rfl⟩
    rcases mem_ends_between.mp hd with ⟨piece, after, rfl, hspans, _⟩
    exact ⟨before, piece, after, rfl, hspans⟩
  · intro h
    rcases h with ⟨before, piece, after, rfl, hspans⟩
    exact ⟨Cursor.between before (piece ++ after), Cursor.mem_all.mpr ⟨before, _, rfl, rfl⟩,
      _, hspans⟩

end Pattern
end SourceAudit
