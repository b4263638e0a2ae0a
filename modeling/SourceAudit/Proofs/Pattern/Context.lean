import SourceAudit.Proofs.Pattern.Spans

/-!
# Patterns between other lines

## Matches in a wider text

A test of a place looks at its two neighbours, and a run over a class of characters at the character
behind it.  Lines around a text change neither, except where the text ends: a run that stopped there
may go on.  So a pattern that ends with a character of its own spans the same pieces when its text
stands between other lines.
-/

namespace SourceAudit
namespace Cursor

variable (above below before after : Text)

theorem getLast?_behind_line :
    (above ++ '\n' :: before).getLast? = before.getLast?.or (some '\n') := by
  rw [List.getLast?_append]
  cases before with
  | nil =>
      rfl
  | cons x rest =>
      simp [List.getLast?_cons]

theorem head?_before_line :
    (after ++ '\n' :: below).head? = after.head?.or (some '\n') := by
  cases after <;> rfl

/-- A word boundary of a text is one between other lines, since a line feed is no part of a word. -/
theorem atWordBoundary_between_lines :
    (between (above ++ '\n' :: before) (after ++ '\n' :: below)).atWordBoundary =
      (between before after).atWordBoundary := by
  have hfeed : Text.isWord '\n' = false := by
    decide
  have hany : ∀ neighbour : Option Char,
      (neighbour.or (some '\n')).any Text.isWord = neighbour.any Text.isWord := by
    intro neighbour
    cases neighbour with
    | none =>
        exact hfeed
    | some x =>
        rfl
  unfold atWordBoundary
  rw [between_prev, between_prev, between_rest, between_rest, getLast?_behind_line,
    head?_before_line, hany, hany]

end Cursor

namespace Pattern

/-!
# Parts of a pattern
-/

/-- Whether what a pattern spans in front of further characters is spanned between other lines. -/
def IsLocal (p : Pattern) : Prop :=
  ∀ {before piece after : Text} (above below : Text), after ≠ [] → p.Spans before piece after →
    p.Spans (above ++ '\n' :: before) piece (after ++ '\n' :: below)

variable {p q : Pattern}

@[simp] theorem isLocal_nothing : nothing.IsLocal := by
  intro before piece after above below _ h
  exact spans_nothing.mpr (spans_nothing.mp h)

@[simp] theorem isLocal_char (accepts : Char → Bool) : (char accepts).IsLocal := by
  intro before piece after above below _ h
  exact spans_char.mpr (spans_char.mp h)

@[simp] theorem isLocal_exactly (x : Char) : (exactly x).IsLocal :=
  isLocal_char _

@[simp] theorem isLocal_few (accepts : Char → Bool) : (few accepts).IsLocal := by
  intro before piece after above below _ h
  exact spans_few.mpr (spans_few.mp h)

@[simp] theorem isLocal_literal (s : String) : (literal s).IsLocal := by
  intro before piece after above below _ h
  exact spans_literal.mpr (spans_literal.mp h)

@[simp] theorem isLocal_whole (accepts : Char → Bool) : (whole accepts).IsLocal := by
  intro before piece after above below hafter h
  rcases spans_whole.mp h with ⟨hpiece, hhead⟩
  rcases List.exists_cons_of_ne_nil hafter with ⟨x, rest, rfl⟩
  exact spans_whole.mpr ⟨hpiece, hhead⟩

@[simp] theorem isLocal_wordBoundary : wordBoundary.IsLocal := by
  intro before piece after above below _ h
  rcases spans_check.mp h with ⟨hpiece, hholds⟩
  refine spans_check.mpr ⟨hpiece, ?_⟩
  rw [Cursor.atWordBoundary_between_lines]
  exact hholds

theorem IsLocal.seq (hp : p.IsLocal) (hq : q.IsLocal) : (Pattern.seq p q).IsLocal := by
  intro before piece after above below hafter h
  rcases spans_seq.mp h with ⟨u, v, rfl, hu, hv⟩
  have hne : v ++ after ≠ [] := by
    simp [hafter]
  refine spans_seq.mpr ⟨u, v, rfl, ?_, ?_⟩
  · have hwider := hp above below hne hu
    rw [List.append_assoc] at hwider
    exact hwider
  · have hwider := hq above below hafter hv
    rw [List.append_assoc]
    exact hwider

@[simp] theorem isLocal_several (accepts : Char → Bool) : (several accepts).IsLocal :=
  IsLocal.seq (isLocal_char accepts) (isLocal_whole accepts)

@[simp] theorem isLocal_blanks : blanks.IsLocal :=
  isLocal_whole _

@[simp] theorem isLocal_someBlanks : someBlanks.IsLocal :=
  isLocal_several _

theorem isLocal_oneOf {choices : List Pattern} (h : ∀ choice ∈ choices, choice.IsLocal) :
    (oneOf choices).IsLocal := by
  intro before piece after above below hafter hspans
  rcases spans_oneOf.mp hspans with ⟨choice, hchoice, hpiece⟩
  exact spans_oneOf.mpr ⟨choice, hchoice, h choice hchoice above below hafter hpiece⟩

/-!
# Patterns that end with a character
-/

/-- Whether what a pattern spans is not empty, and is spanned between other lines even where the
text ends behind it. -/
structure IsClosed (p : Pattern) : Prop where
  ne_nil {before piece after : Text} : p.Spans before piece after → piece ≠ []
  spans_between_lines {before piece after : Text} (above below : Text) :
    p.Spans before piece after → p.Spans (above ++ '\n' :: before) piece (after ++ '\n' :: below)

theorem isClosed_char (accepts : Char → Bool) : (char accepts).IsClosed where
  ne_nil h := by
    rcases spans_char.mp h with ⟨x, rfl, _⟩
    exact List.cons_ne_nil x []
  spans_between_lines _ _ h := spans_char.mpr (spans_char.mp h)

theorem IsLocal.seq_closed (hp : p.IsLocal) (hq : q.IsClosed) : (Pattern.seq p q).IsClosed where
  ne_nil h := by
    rcases spans_seq.mp h with ⟨u, v, rfl, _, hv⟩
    simp [hq.ne_nil hv]
  spans_between_lines {before piece after} above below h := by
    rcases spans_seq.mp h with ⟨u, v, rfl, hu, hv⟩
    have hne : v ++ after ≠ [] := by
      simp [hq.ne_nil hv]
    refine spans_seq.mpr ⟨u, v, rfl, ?_, ?_⟩
    · have hwider := hp above below hne hu
      rw [List.append_assoc] at hwider
      exact hwider
    · have hwider := hq.spans_between_lines above below hv
      rw [List.append_assoc]
      exact hwider

theorem isClosed_sequence {parts : List Pattern} (hlocal : ∀ part ∈ parts, part.IsLocal)
    {accepts : Char → Bool} (hlast : parts.getLast? = some (char accepts)) :
    (sequence parts).IsClosed := by
  induction parts with
  | nil =>
      cases hlast
  | cons first rest ih =>
      cases rest with
      | nil =>
          cases hlast
          have hclosed := isClosed_char accepts
          constructor
          · intro before piece after h
            exact hclosed.ne_nil (spans_sequence_singleton.mp h)
          · intro before piece after above below h
            apply spans_sequence_singleton.mpr
            exact hclosed.spans_between_lines above below (spans_sequence_singleton.mp h)
      | cons second more =>
          rw [List.getLast?_cons_cons] at hlast
          rcases List.forall_mem_cons.mp hlocal with ⟨hfirst, hrest⟩
          exact IsLocal.seq_closed hfirst (ih hrest hlast)

/-- A closed pattern that occurs in a text occurs in it between other lines. -/
theorem IsClosed.occursIn_between_lines (hp : p.IsClosed) {t : Text} (above below : Text)
    (h : p.occursIn t = true) : p.occursIn (above ++ '\n' :: (t ++ '\n' :: below)) = true := by
  rcases occursIn_iff_spans.mp h with ⟨before, piece, after, rfl, hspans⟩
  apply occursIn_iff_spans.mpr
  refine ⟨above ++ '\n' :: before, piece, after ++ '\n' :: below, ?_,
    hp.spans_between_lines above below hspans⟩
  simp

end Pattern
end SourceAudit
