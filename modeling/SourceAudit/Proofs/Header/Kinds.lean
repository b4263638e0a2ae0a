import SourceAudit.Proofs.Header.Nesting
import SourceAudit.Proofs.Names.Occurrences
import SourceAudit.Proofs.Pattern.Outermost

/-!
# Headers of functions and classes

## One shape for both kinds

A header is a keyword, blanks, a word, blanks or none, and an ending: a parenthesised text, blanks
and a colon.  The header of a class may also end in a colon alone.

At one place begins at most one header of a kind, and headers of a kind are nested.
-/

namespace SourceAudit

namespace Header

open Pattern

inductive DefinitionKind where
  | function
  | classOf
  deriving DecidableEq, Repr

namespace DefinitionKind

def keyword : DefinitionKind → Text
  | .function => "def".toList
  | .classOf => "class".toList

def pattern : DefinitionKind → Pattern → Pattern
  | .function => Header.function
  | .classOf => Header.classOf

/-- Whether a text ends a header of a kind, from the sign behind its word on. -/
inductive Ends : DefinitionKind → Text → Prop where
  | list {kind : DefinitionKind} {inner space : Text} :
      (∀ x ∈ inner, x ≠ ')') → (∀ x ∈ space, Text.isBlank x = true) →
        Ends kind ('(' :: (inner ++ ')' :: (space ++ [':'])))
  | colon : Ends .classOf [':']

/-- Whether a text is a header of a kind with some word. -/
def IsHeaderOf (kind : DefinitionKind) (word header : Text) : Prop :=
  ∃ gap space ending, header = kind.keyword ++ (gap ++ (word ++ (space ++ ending))) ∧
    gap ≠ [] ∧ (∀ x ∈ gap, Text.isBlank x = true) ∧ (∀ x ∈ space, Text.isBlank x = true) ∧
    kind.Ends ending

/-- Whether a text is a header of a kind with a word of some class. -/
def IsHeader (kind : DefinitionKind) (Named : Text → Prop) (header : Text) : Prop :=
  ∃ word, Named word ∧ kind.IsHeaderOf word header

variable {kind : DefinitionKind}

theorem isWord_keyword (kind : DefinitionKind) : IsWord kind.keyword := by
  cases kind <;> simp [IsWord, keyword, Text.isWord]

theorem Ends.exists_sign {ending : Text} (h : kind.Ends ending) :
    ∃ sign inner, ending = sign :: inner ∧ Text.isBlank sign = false ∧
      Text.isWord sign = false := by
  cases h with
  | list _ _ =>
      exact ⟨'(', _, rfl, by decide, by decide⟩
  | colon =>
      exact ⟨':', _, rfl, by decide, by decide⟩

theorem Ends.isBlank_head? {ending : Text} (h : kind.Ends ending) (after : Text) :
    ∀ x ∈ (ending ++ after).head?, Text.isBlank x = false := by
  rcases h.exists_sign with ⟨sign, inner, rfl, hblank, _⟩
  intro x hx
  cases hx
  exact hblank

theorem Ends.isWord_head? {space ending : Text} (h : kind.Ends ending)
    (hspace : ∀ x ∈ space, Text.isBlank x = true) (after : Text) :
    ∀ x ∈ (space ++ (ending ++ after)).head?, Text.isWord x = false := by
  rcases h.exists_sign with ⟨sign, inner, rfl, _, hsign⟩
  intro x hx
  cases space with
  | nil =>
      cases hx
      exact hsign
  | cons y more =>
      cases hx
      exact Text.isWord_eq_false_of_isBlank (hspace _ List.mem_cons_self)

theorem IsHeaderOf.begins {word header : Text} (h : kind.IsHeaderOf word header)
    (hword : IsWord word) (after : Text) : Begins kind.keyword (header ++ after) := by
  rcases h with ⟨gap, space, ending, rfl, hgap, hgapBlank, _⟩
  simp only [List.append_assoc]
  exact begins_of_isWord hgap hgapBlank hword

/-!
# Spans
-/

theorem spans_parenthesised {before piece after : Text} :
    parenthesised.Spans before piece after ↔
      ∃ inner, piece = '(' :: (inner ++ [')']) ∧ ∀ x ∈ inner, x ≠ ')' := by
  unfold parenthesised
  simp only [spans_sequence_cons_cons, spans_sequence_singleton, spans_exactly, spans_whole,
    bne_iff_ne]
  constructor
  · intro h
    rcases h with ⟨_, _, rfl, rfl, inner, _, rfl, ⟨hinner, _⟩, rfl⟩
    exact ⟨inner, rfl, hinner⟩
  · intro h
    rcases h with ⟨inner, rfl, hinner⟩
    refine ⟨['('], inner ++ [')'], rfl, rfl, inner, [')'], rfl, ⟨hinner, ?_⟩, rfl⟩
    intro x hx
    cases hx
    decide

def rest : DefinitionKind → Pattern
  | .function => sequence [blanks, parenthesised, blanks, exactly ':']
  | .classOf => sequence [optional (seq blanks parenthesised), blanks, exactly ':']

theorem pattern_eq (kind : DefinitionKind) (named : Pattern) :
    kind.pattern named =
      seq (literal (String.ofList kind.keyword)) (seq someBlanks (seq named kind.rest)) := by
  cases kind <;> rfl

theorem spans_list {before piece after : Text} :
    (seq blanks parenthesised).Spans before piece after ↔
      ∃ space inner, piece = space ++ '(' :: (inner ++ [')']) ∧
        (∀ x ∈ space, Text.isBlank x = true) ∧ ∀ x ∈ inner, x ≠ ')' := by
  simp only [spans_seq, blanks, spans_whole, spans_parenthesised]
  constructor
  · intro h
    rcases h with ⟨space, _, rfl, ⟨hspace, _⟩, inner, rfl, hinner⟩
    exact ⟨space, inner, rfl, hspace, hinner⟩
  · intro h
    rcases h with ⟨space, inner, rfl, hspace, hinner⟩
    refine ⟨space, _, rfl, ⟨hspace, ?_⟩, inner, rfl, hinner⟩
    intro x hx
    cases hx
    decide

theorem spans_colon {before piece after : Text} :
    (sequence [blanks, exactly ':']).Spans before piece after ↔
      ∃ space, piece = space ++ [':'] ∧ ∀ x ∈ space, Text.isBlank x = true := by
  simp only [spans_sequence_cons_cons, spans_sequence_singleton, blanks, spans_whole,
    spans_exactly]
  constructor
  · intro h
    rcases h with ⟨space, _, rfl, ⟨hspace, _⟩, rfl⟩
    exact ⟨space, rfl, hspace⟩
  · intro h
    rcases h with ⟨space, rfl, hspace⟩
    refine ⟨space, [':'], rfl, ⟨hspace, ?_⟩, rfl⟩
    intro x hx
    cases hx
    decide

theorem spans_rest {before piece after : Text} :
    kind.rest.Spans before piece after ↔
      ∃ space ending, piece = space ++ ending ∧ (∀ x ∈ space, Text.isBlank x = true) ∧
        kind.Ends ending := by
  have hparts : kind.rest.Spans before piece after ↔
      ∃ list colon, piece = list ++ colon ∧
        ((seq blanks parenthesised).Spans before list (colon ++ after) ∨
          kind = .classOf ∧ list = []) ∧
        (sequence [blanks, exactly ':']).Spans (before ++ list) colon after := by
    cases kind with
    | function =>
        show (seq blanks (seq parenthesised (sequence [blanks, exactly ':']))).Spans _ _ _ ↔ _
        rw [← spans_seq_assoc, spans_seq]
        simp
    | classOf =>
        show (seq (optional (seq blanks parenthesised)) (sequence [blanks, exactly ':'])).Spans
          _ _ _ ↔ _
        rw [spans_seq]
        simp only [spans_optional, true_and]
  rw [hparts]
  simp only [spans_list, spans_colon]
  constructor
  · intro h
    rcases h with ⟨list, _, rfl, hlist, last, rfl, hlast⟩
    rcases hlist with ⟨space, inner, rfl, hspace, hinner⟩ | ⟨rfl, rfl⟩
    · exact ⟨space, _, by simp, hspace, .list hinner hlast⟩
    · exact ⟨last, [':'], rfl, hlast, .colon⟩
  · intro h
    rcases h with ⟨space, ending, rfl, hspace, hending⟩
    cases hending with
    | @list _ inner last hinner hlast =>
        exact ⟨space ++ '(' :: (inner ++ [')']), last ++ [':'], by simp,
          Or.inl ⟨space, inner, rfl, hspace, hinner⟩, last, rfl, hlast⟩
    | colon =>
        exact ⟨[], space ++ [':'], rfl, Or.inr ⟨rfl, rfl⟩, space, rfl, hspace⟩

theorem spans_pattern {named : Pattern} {Named : Text → Prop}
    (hnamed : ∀ {before piece after : Text}, named.Spans before piece after ↔
      Named piece ∧ ∀ x ∈ after.head?, Text.isWord x = false)
    (hword : ∀ {word : Text}, Named word → IsWord word) {before piece after : Text} :
    (kind.pattern named).Spans before piece after ↔ kind.IsHeader Named piece := by
  rw [pattern_eq]
  simp only [spans_seq, spans_literal, String.toList_ofList, someBlanks, spans_several, hnamed,
    spans_rest]
  constructor
  · intro h
    rcases h with ⟨_, _, rfl, rfl, gap, _, rfl, ⟨hgap, hgapBlank, _⟩, word, _, rfl,
      ⟨hnamedWord, _⟩, space, ending, rfl, hspace, hending⟩
    exact ⟨word, hnamedWord, gap, space, ending, rfl, hgap, hgapBlank, hspace, hending⟩
  · intro h
    rcases h with ⟨word, hnamedWord, gap, space, ending, rfl, hgap, hgapBlank, hspace, hending⟩
    refine ⟨kind.keyword, _, rfl, rfl, gap, _, rfl, ⟨hgap, hgapBlank, ?_⟩, word, _, rfl,
      ⟨hnamedWord, ?_⟩, space, ending, rfl, hspace, hending⟩
    · rw [List.append_assoc]
      intro x hx
      exact Text.isBlank_eq_false_of_isWord ((hword hnamedWord).isWord_head? _ x hx)
    · rw [List.append_assoc]
      exact hending.isWord_head? hspace after

theorem spans_word {before piece after : Text} :
    word.Spans before piece after ↔ IsWord piece ∧ ∀ x ∈ after.head?, Text.isWord x = false := by
  unfold word IsWord
  rw [spans_several, and_assoc]

theorem isWord_of_isName {name : Text} (h : IsName name) : IsWord name := by
  rcases h with ⟨⟨x, more, rfl, _⟩, hall⟩
  exact ⟨List.cons_ne_nil x more, hall⟩

theorem spans_pattern_word {before piece after : Text} :
    (kind.pattern word).Spans before piece after ↔ kind.IsHeader IsWord piece :=
  spans_pattern spans_word id

theorem spans_pattern_name {before piece after : Text} :
    (kind.pattern name).Spans before piece after ↔ kind.IsHeader IsName piece :=
  spans_pattern Names.spans_name isWord_of_isName

/-- A header with a proper name occurs in a text when a piece of the text is one. -/
theorem occursIn_pattern_name_iff {t : Text} :
    (kind.pattern name).occursIn t = true ↔
      ∃ before header after, t = before ++ (header ++ after) ∧ kind.IsHeader IsName header := by
  simp only [occursIn_iff_spans, spans_pattern_name]

/-!
# One header at a place
-/

theorem blanks_colon_inj {space space' after after' : Text}
    (h : space ++ ':' :: after = space' ++ ':' :: after')
    (hspace : ∀ x ∈ space, Text.isBlank x = true)
    (hspace' : ∀ x ∈ space', Text.isBlank x = true) : space = space' ∧ after = after' := by
  have hcolon : ∀ {t : Text}, (∀ x ∈ t, Text.isBlank x = true) → ∀ x ∈ t, x ≠ ':' := by
    intro t ht x hx heq
    rw [heq] at hx
    cases ht _ hx
  exact append_sign_inj h (hcolon hspace) (hcolon hspace')

theorem Ends.unique {ending ending' after after' : Text} (h : kind.Ends ending)
    (h' : kind.Ends ending') (hsplit : ending ++ after = ending' ++ after') :
    ending = ending' := by
  cases h with
  | @list _ inner space hinner hspace =>
      cases h' with
      | @list _ inner' space' hinner' hspace' =>
          simp only [List.cons_append, List.append_assoc, List.cons.injEq, true_and] at hsplit
          rcases append_sign_inj hsplit hinner hinner' with ⟨rfl, hrest⟩
          rw [(blanks_colon_inj hrest hspace hspace').1]
      | colon =>
          cases (List.cons.inj hsplit).1
  | colon =>
      cases h' with
      | list _ _ =>
          cases (List.cons.inj hsplit).1
      | colon =>
          rfl

theorem IsHeaderOf.unique {word word' header header' after after' : Text}
    (h : kind.IsHeaderOf word header) (h' : kind.IsHeaderOf word' header') (hword : IsWord word)
    (hword' : IsWord word') (hsplit : header ++ after = header' ++ after') :
    word = word' ∧ header = header' := by
  rcases h with ⟨gap, space, ending, rfl, _, hgap, hspace, hending⟩
  rcases h' with ⟨gap', space', ending', rfl, _, hgap', hspace', hending'⟩
  simp only [List.append_assoc, List.append_cancel_left_eq] at hsplit
  -- The blanks, the word and the other blanks each end where the next part begins.
  have hfirst : ∀ {word after : Text}, IsWord word →
      ∀ x ∈ (word ++ after).head?, Text.isBlank x = false :=
    fun hword x hx => Text.isBlank_eq_false_of_isWord (hword.isWord_head? _ x hx)
  rcases append_inj_of_class hsplit hgap (hfirst hword) hgap' (hfirst hword') with
    ⟨rfl, hwordSplit⟩
  rcases append_inj_of_class hwordSplit hword.2 (hending.isWord_head? hspace _) hword'.2
    (hending'.isWord_head? hspace' _) with ⟨rfl, hspaceSplit⟩
  rcases append_inj_of_class hspaceSplit hspace (hending.isBlank_head? _) hspace'
    (hending'.isBlank_head? _) with ⟨rfl, hendingSplit⟩
  rw [hending.unique hending' hendingSplit]
  exact ⟨rfl, rfl⟩

theorem IsHeader.unique {header header' after after' : Text} (h : kind.IsHeader IsWord header)
    (h' : kind.IsHeader IsWord header') (hsplit : header ++ after = header' ++ after') :
    header = header' := by
  rcases h with ⟨word, hword, hheader⟩
  rcases h' with ⟨word', hword', hheader'⟩
  exact (hheader.unique hheader' hword hword' hsplit).2

/-!
# Headers inside of headers
-/

theorem not_begins_among {front after left rest : Text} (hsplit : front ++ after = left ++ rest)
    (hfront : ∀ x ∈ front, Text.isWord x = false) (hinside : left.length < front.length) :
    ¬∀ x ∈ rest.head?, Text.isWord x = true := by
  intro hrest
  rcases append_cases hsplit with ⟨m, rfl, _⟩ | ⟨x, m, rfl, rfl⟩
  · rw [List.length_append] at hinside
    omega
  · have hx := hrest x rfl
    rw [hfront x (by simp)] at hx
    cases hx

theorem IsHeader.length_le {header after front space behind : Text}
    (h : kind.IsHeader IsWord header) (hfront : ∀ x ∈ front, x ≠ ')')
    (hspace : ∀ x ∈ space, Text.isBlank x = true)
    (hsplit : header ++ after = front ++ ')' :: (space ++ ':' :: behind)) :
    header.length ≤ front.length + (space.length + 2) := by
  rcases h with ⟨word, hword, gap, before, ending, rfl, _, hgap, hbefore, hending⟩
  cases hending with
  | @list _ inner last hinner hlast =>
      have hsame : kind.keyword ++ (gap ++ (word ++ before)) ++ '(' :: inner ++
          ')' :: (last ++ ':' :: after) = front ++ ')' :: (space ++ ':' :: behind) := by
        rw [← hsplit]
        simp
      have hopening :=
        ne_closing_of_mem_start (isWord_keyword kind) hgap hword hbefore hinner
      rcases append_sign_inj hsame hopening hfront with ⟨hfrontEq, hrest⟩
      rw [← (blanks_colon_inj hrest hlast hspace).1, ← hfrontEq]
      simp only [List.length_append, List.length_cons, List.length_nil]
      omega
  | colon =>
      rcases append_cases hsplit with ⟨m, rfl, _⟩ | ⟨x, m, hshape, hx⟩
      · simp only [List.length_append, List.length_cons, List.length_nil]
        omega
      · -- The closing parenthesis would be a character of the header.
        exfalso
        have hsame : DefinitionKind.classOf.keyword ++ (gap ++ (word ++ before)) ++ [':'] =
            front ++ x :: m := by
          rw [← hshape]
          simp
        have hclosing : ')' ∈ front ++ x :: m := by
          rw [(List.cons.inj hx).1]
          simp
        rw [← hsame] at hclosing
        rcases List.mem_append.mp hclosing with hmem | hmem
        · exact ne_of_mem_start (isWord_keyword .classOf) hgap hword hbefore (by decide)
            (by decide) _ hmem rfl
        · cases List.mem_singleton.mp hmem

theorem IsHeader.nested {header header' left after after' : Text}
    (h : kind.IsHeader IsWord header) (h' : kind.IsHeader IsWord header')
    (hsplit : header ++ after = left ++ (header' ++ after')) (hleft : left ≠ [])
    (hinside : left.length < header.length) : (left ++ header').length ≤ header.length := by
  rcases h with ⟨word, hword, gap, space, ending, rfl, hgap, hgapBlank, hspace, hending⟩
  have hbegins : Begins kind.keyword (header' ++ after') := by
    rcases h' with ⟨word', hword', hheader'⟩
    exact hheader'.begins hword' after'
  rcases hending.exists_sign with ⟨sign, inner, rfl, hblank, hsign⟩
  simp only [List.append_assoc, List.cons_append] at hsplit
  rcases exists_behind_sign (isWord_keyword kind) hgap hgapBlank hword hspace hblank hsign hsplit
    hleft hbegins with ⟨behind, rfl, hbehind⟩
  simp only [List.length_append, List.length_cons] at hinside ⊢
  cases hending with
  | @list _ inner last hinner hlast =>
      simp only [List.append_assoc, List.cons_append, List.nil_append] at hbehind
      rcases append_cases hbehind with ⟨m, rfl, hrest⟩ | ⟨x, m, rfl, hrest⟩
      · -- Behind the list, only blanks and the colon are left.
        have hfront : ∀ x ∈ ')' :: (last ++ [':']), Text.isWord x = false := by
          intro x hx
          simp only [List.mem_cons, List.mem_append, List.not_mem_nil, or_false] at hx
          rcases hx with rfl | hx | rfl
          · decide
          · exact Text.isWord_eq_false_of_isBlank (hlast x hx)
          · decide
        have hlist : (')' :: (last ++ [':'])) ++ after = m ++ (header' ++ after') := by
          rw [← hrest]
          simp
        refine absurd (hbegins.isWord_head? (isWord_keyword kind))
          (not_begins_among hlist hfront ?_)
        simp only [List.length_append, List.length_cons, List.length_nil] at hinside ⊢
        omega
      · have hfront : ∀ y ∈ x :: m, y ≠ ')' :=
          fun y hy => hinner y (List.mem_append_right behind hy)
        have hle := h'.length_le hfront hlast hrest
        simp only [List.length_append, List.length_cons, List.length_nil] at hle ⊢
        omega
  | colon =>
      simp at hinside

end DefinitionKind
end Header
end SourceAudit
