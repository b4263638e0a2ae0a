import SourceAudit.Growth
import SourceAudit.Proofs.Pattern.Rounds
import SourceAudit.Proofs.Text.Lines
import SourceAudit.Proofs.Text.Words

/-!
# Loop headers

## Lines that open a loop

The guess for the running time looks at whole lines only.  It is quadratic when two lines open a
`for` loop and all lines between them are blank, but for the last one, which may be any line.
Otherwise it is linear when some line opens a loop, and constant when none does.

A match of the nested pattern need not begin or end with a line.  It stands behind whole lines, it
ends inside of the second header, and the parts between the headers are the lines between them.
-/

namespace SourceAudit
namespace Growth

open Pattern Text

/-- Whether a line opens a loop: spaces and tabs, one of some whole words, and later a colon. -/
def IsHeader (keywords : List String) (line : Text) : Prop :=
  ∃ indent, ∃ keyword ∈ keywords, ∃ behind, line = indent ++ (keyword.toList ++ behind) ∧
    (∀ x ∈ indent, isIndent x = true) ∧ (∀ x ∈ behind.head?, isWord x = false) ∧ ':' ∈ behind

def opensAt (keyword : String) (line : Text) (k : Nat) : Bool :=
  let behind := (line.drop k).drop keyword.toList.length
  (line.take k).all isIndent && keyword.toList.isPrefixOf (line.drop k) &&
    !behind.head?.any isWord && behind.contains ':'

theorem opensAt_iff {keyword : String} {line : Text} {k : Nat} :
    opensAt keyword line k = true ↔ ∃ behind, line.drop k = keyword.toList ++ behind ∧
      (∀ x ∈ line.take k, isIndent x = true) ∧ (∀ x ∈ behind.head?, isWord x = false) ∧
      ':' ∈ behind := by
  have hword : ∀ behind : Text,
      (!behind.head?.any isWord) = true ↔ ∀ x ∈ behind.head?, isWord x = false := by
    intro behind
    cases behind.head? <;> simp
  unfold opensAt
  simp only [Bool.and_eq_true, List.all_eq_true, List.isPrefixOf_iff_prefix,
    List.contains_iff_mem, hword]
  constructor
  · intro h
    rcases h with ⟨⟨⟨hindent, behind, hbehind⟩, hboundary⟩, hcolon⟩
    rw [← hbehind, List.drop_left] at hboundary hcolon
    exact ⟨behind, hbehind.symm, hindent, hboundary, hcolon⟩
  · intro h
    rcases h with ⟨behind, hbehind, hindent, hboundary, hcolon⟩
    rw [hbehind, List.drop_left]
    exact ⟨⟨⟨hindent, List.prefix_append _ _⟩, hboundary⟩, hcolon⟩

theorem isHeader_iff_any {keywords : List String} {line : Text} :
    IsHeader keywords line ↔ ((List.range (line.length + 1)).any fun k =>
      keywords.any fun keyword => opensAt keyword line k) = true := by
  simp only [List.any_eq_true, opensAt_iff]
  constructor
  · intro h
    rcases h with ⟨indent, keyword, hkeyword, behind, rfl, hindent, hboundary, hcolon⟩
    refine ⟨indent.length, ?_, keyword, hkeyword, behind, List.drop_left, ?_, hboundary, hcolon⟩
    · rw [List.mem_range, List.length_append]
      omega
    · rw [List.take_left]
      exact hindent
  · intro h
    rcases h with ⟨k, _, keyword, hkeyword, behind, hbehind, hindent, hboundary, hcolon⟩
    refine ⟨line.take k, keyword, hkeyword, behind, ?_, hindent, hboundary, hcolon⟩
    rw [← hbehind, List.take_append_drop]

instance (keywords : List String) (line : Text) : Decidable (IsHeader keywords line) :=
  decidable_of_iff _ isHeader_iff_any.symm

theorem IsHeader.mono {keywords keywords' : List String} {line : Text} (h : IsHeader keywords line)
    (hsubset : keywords ⊆ keywords') : IsHeader keywords' line := by
  rcases h with ⟨indent, keyword, hkeyword, rest⟩
  exact ⟨indent, keyword, hsubset hkeyword, rest⟩

/-- Whether two lines open a `for` loop and the lines between them, all but the last one at most,
are spaces and tabs. -/
def HasNestedHeaders (lines : List Text) : Prop :=
  ∃ i j first second, i < j ∧ lines[i]? = some first ∧ lines[j]? = some second ∧
    IsHeader ["for"] first ∧ IsHeader ["for"] second ∧
    ∀ k line, i < k → k < j → k ≠ j - 1 → lines[k]? = some line →
      ∀ x ∈ line, isIndent x = true

/-!
# Headers
-/

/-- Whether a piece of a text is the part of a loop header up to its first colon. -/
def IsHeaderStart (keywords : List String) (piece : Text) : Prop :=
  ∃ indent, ∃ keyword ∈ keywords, ∃ behind,
    piece = indent ++ (keyword.toList ++ (behind ++ [':'])) ∧
    (∀ x ∈ indent, isIndent x = true) ∧ (∀ x ∈ behind.head?, isWord x = false) ∧
    ∀ x ∈ behind, x ≠ ':' ∧ x ≠ '\n'

theorem isWord_head?_append_colon {behind : Text} (after : Text) :
    (∀ x ∈ (behind ++ ':' :: after).head?, isWord x = false) ↔
      ∀ x ∈ behind.head?, isWord x = false := by
  cases behind with
  | nil =>
      constructor
      · intro _ x hx
        cases hx
      · intro _ x hx
        cases hx
        decide
  | cons y rest =>
      exact Iff.rfl

theorem spans_throughColon {before piece after : Text} :
    throughColon.Spans before piece after ↔
      ∃ behind, piece = behind ++ [':'] ∧ ∀ x ∈ behind, x ≠ ':' ∧ x ≠ '\n' := by
  unfold throughColon
  rw [spans_seq]
  constructor
  · intro h
    rcases h with ⟨behind, colon, rfl, hbehind, hcolon⟩
    refine ⟨behind, by rw [spans_exactly.mp hcolon], ?_⟩
    simpa using (spans_whole.mp hbehind).1
  · intro h
    rcases h with ⟨behind, rfl, hbehind⟩
    refine ⟨behind, [':'], rfl, spans_whole.mpr ⟨by simpa using hbehind, ?_⟩,
      spans_exactly.mpr rfl⟩
    simp

theorem spans_loopHeader {keywords : List String} (hkeywords : AreWords keywords)
    {before piece after : Text} :
    (loopHeader keywords).Spans before piece after ↔ IsHeaderStart keywords piece := by
  unfold loopHeader
  rw [spans_sequence_cons_cons]
  constructor
  · intro h
    rcases h with ⟨indent, _, rfl, hindent, h⟩
    rcases spans_sequence_cons_cons.mp h with ⟨_, _, rfl, hword, hbehind⟩
    rcases (spans_wholeWord hkeywords).mp hword with ⟨⟨keyword, hkeyword, rfl⟩, hboundary⟩
    rcases spans_throughColon.mp (spans_sequence_singleton.mp hbehind) with
      ⟨behind, rfl, hcolon⟩
    rw [List.append_assoc] at hboundary
    exact ⟨indent, keyword, hkeyword, behind, rfl, (spans_whole.mp hindent).1,
      (isWord_head?_append_colon after).mp hboundary, hcolon⟩
  · intro h
    rcases h with ⟨indent, keyword, hkeyword, behind, rfl, hindent, hboundary, hbehind⟩
    rcases hkeywords keyword hkeyword with ⟨hne, hword⟩
    refine ⟨indent, keyword.toList ++ (behind ++ [':']), rfl, spans_whole.mpr ⟨hindent, ?_⟩, ?_⟩
    · intro x hx
      rw [List.append_assoc, List.head?_append_of_ne_nil _ hne] at hx
      exact isIndent_eq_false_of_isWord (hword x (List.mem_of_mem_head? hx))
    · apply spans_sequence_cons_cons.mpr
      refine ⟨keyword.toList, behind ++ [':'], rfl, (spans_wholeWord hkeywords).mpr ⟨?_, ?_⟩, ?_⟩
      · exact ⟨keyword, hkeyword, rfl⟩
      · rw [List.append_assoc]
        exact (isWord_head?_append_colon after).mpr hboundary
      · exact spans_sequence_singleton.mpr (spans_throughColon.mpr ⟨behind, rfl, hbehind⟩)

theorem isHeader_iff {keywords : List String} {line : Text} (hline : '\n' ∉ line) :
    IsHeader keywords line ↔ ∃ piece more, line = piece ++ more ∧ IsHeaderStart keywords piece := by
  constructor
  · intro h
    rcases h with ⟨indent, keyword, hkeyword, behind, rfl, hindent, hboundary, hcolon⟩
    rcases List.eq_append_cons_of_mem hcolon with ⟨near, far, rfl, hnear⟩
    refine ⟨indent ++ (keyword.toList ++ (near ++ [':'])), far, by simp, indent, keyword, hkeyword,
      near, rfl, hindent, (isWord_head?_append_colon far).mp hboundary, ?_⟩
    intro x hx
    constructor
    · intro heq
      exact hnear (heq ▸ hx)
    · intro heq
      rw [heq] at hx
      apply hline
      simp [hx]
  · intro h
    rcases h with ⟨_, more, rfl, indent, keyword, hkeyword, behind, rfl, hindent, hboundary, _⟩
    refine ⟨indent, keyword, hkeyword, behind ++ ':' :: more, by simp, hindent, ?_, by simp⟩
    exact (isWord_head?_append_colon more).mpr hboundary

theorem IsHeaderStart.not_mem {keywords : List String} (hkeywords : AreWords keywords)
    {piece : Text} (h : IsHeaderStart keywords piece) : '\n' ∉ piece := by
  rcases h with ⟨indent, keyword, hkeyword, behind, rfl, hindent, _, hbehind⟩
  intro hmem
  simp only [List.mem_append, List.mem_singleton] at hmem
  rcases hmem with hmem | hmem | hmem | hmem
  · cases hindent _ hmem
  · have hword := (hkeywords keyword hkeyword).2 _ hmem
    revert hword
    decide
  · exact (hbehind _ hmem).2 rfl
  · cases hmem

theorem areWords_for : AreWords ["for"] := by
  simp [AreWords, isWord]

theorem areWords_for_while : AreWords ["for", "while"] := by
  simp [AreWords, isWord]

/-!
# One header
-/

section Keywords

variable {keywords : List String} (hkeywords : AreWords keywords)

include hkeywords

theorem exists_lines_of_isHeaderStart {piece : Text} (h : IsHeaderStart keywords piece)
    (after : Text) :
    ∃ line others, lines (piece ++ after) = line :: others ∧ IsHeader keywords line := by
  rcases exists_lines_append_eq (h.not_mem hkeywords) after with ⟨more, others, hlines⟩
  have hline : '\n' ∉ piece ++ more :=
    not_mem_of_mem_lines (t := piece ++ after) (by rw [hlines]; exact List.mem_cons_self)
  exact ⟨piece ++ more, others, hlines, (isHeader_iff hline).mpr ⟨piece, more, rfl, h⟩⟩

omit hkeywords in
theorem exists_isHeaderStart_of_lines {t line : Text} {rows others : List Text}
    (h : t.lines = rows ++ line :: others) (hline : IsHeader keywords line) :
    ∃ piece after, t = endLines rows ++ (piece ++ after) ∧ IsHeaderStart keywords piece := by
  have hmem : line ∈ t.lines := by
    rw [h]
    simp
  rcases (isHeader_iff (not_mem_of_mem_lines hmem)).mp hline with ⟨piece, more, rfl, hpiece⟩
  rcases exists_of_lines_eq_append h (List.cons_ne_nil _ _) with ⟨rest, rfl, hrest⟩
  rcases exists_of_lines_eq hrest with ⟨after, rfl, _⟩
  exact ⟨piece, more ++ after, by rw [List.append_assoc], hpiece⟩

/-- A loop header occurs in a text when it is a line of the text. -/
theorem occursIn_loopHeader_iff {t : Text} :
    (seq lineStart (loopHeader keywords)).occursIn t = true ↔
      ∃ line ∈ t.lines, IsHeader keywords line := by
  rw [occursIn_iff_spans]
  constructor
  · intro h
    rcases h with ⟨before, _, after, rfl, hspans⟩
    rcases spans_seq.mp hspans with ⟨_, piece, rfl, hempty, hheader⟩
    rcases spans_lineStart.mp hempty with ⟨rfl, hstart⟩
    rcases exists_eq_endLines hstart with ⟨rows, rfl, hrows⟩
    rcases exists_lines_of_isHeaderStart hkeywords ((spans_loopHeader hkeywords).mp hheader)
      after with ⟨line, others, hlines, hline⟩
    refine ⟨line, ?_, hline⟩
    rw [List.nil_append, lines_endLines_append hrows, hlines]
    simp
  · intro h
    rcases h with ⟨line, hline, hheader⟩
    rcases List.append_of_mem hline with ⟨rows, others, hlines⟩
    rcases exists_isHeaderStart_of_lines hlines hheader with ⟨piece, after, rfl, hpiece⟩
    refine ⟨endLines rows, piece, after, rfl, spans_seq.mpr ?_⟩
    exact ⟨[], piece, rfl, spans_lineStart.mpr ⟨rfl, forall_mem_getLast?_endLines rows⟩,
      (spans_loopHeader hkeywords).mpr hpiece⟩

end Keywords

/-!
# Lines between two headers
-/

theorem spans_anyLine {before piece after : Text} :
    anyLine.Spans before piece after ↔ ∃ row, piece = row ++ ['\n'] ∧ '\n' ∉ row := by
  unfold anyLine
  rw [spans_seq]
  constructor
  · intro h
    rcases h with ⟨row, feed, rfl, hrow, hfeed⟩
    exact ⟨row, by rw [spans_exactly.mp hfeed], (spans_restOfLine.mp hrow).1⟩
  · intro h
    rcases h with ⟨row, rfl, hrow⟩
    exact ⟨row, ['\n'], rfl, spans_restOfLine.mpr ⟨hrow, by simp⟩, spans_exactly.mpr rfl⟩

theorem spans_blankLine {before piece after : Text} :
    blankLine.Spans before piece after ↔
      ∃ row, piece = row ++ ['\n'] ∧ ∀ x ∈ row, isIndent x = true := by
  unfold blankLine indentation
  rw [spans_seq]
  constructor
  · intro h
    rcases h with ⟨row, feed, rfl, hrow, hfeed⟩
    exact ⟨row, by rw [spans_exactly.mp hfeed], (spans_whole.mp hrow).1⟩
  · intro h
    rcases h with ⟨row, rfl, hrow⟩
    refine ⟨row, ['\n'], rfl, spans_whole.mpr ⟨hrow, ?_⟩, spans_exactly.mpr rfl⟩
    intro x hx
    cases hx
    decide

theorem isSingle_blankLine : blankLine.IsSingle :=
  (isSingle_whole _).seq (isSingle_char _)

theorem spans_rounds_blankLine {before piece after : Text} :
    (rounds blankLine).Spans before piece after ↔
      ∃ blanks, piece = endLines blanks ∧ ∀ row ∈ blanks, ∀ x ∈ row, isIndent x = true := by
  rw [spans_rounds isSingle_blankLine]
  constructor
  · intro h
    rcases h with ⟨pieces, rfl, hrow⟩
    induction hrow with
    | nil =>
        exact ⟨[], rfl, by simp⟩
    | cons _ hspans _ ih =>
        rcases ih with ⟨blanks, hblanks, hall⟩
        rcases spans_blankLine.mp hspans with ⟨row, rfl, hrow⟩
        refine ⟨row :: blanks, ?_, List.forall_mem_cons.mpr ⟨hrow, hall⟩⟩
        rw [List.flatten_cons, hblanks, endLines_cons, List.append_assoc]
        rfl
  · intro h
    rcases h with ⟨blanks, rfl, hall⟩
    refine ⟨blanks.map (· ++ ['\n']), List.flatMap_def, ?_⟩
    induction blanks generalizing before with
    | nil =>
        exact SpansRow.nil
    | cons row rest ih =>
        rcases List.forall_mem_cons.mp hall with ⟨hrow, hrest⟩
        exact SpansRow.cons (by simp) (spans_blankLine.mpr ⟨row, rfl, hrow⟩) (ih hrest)

theorem spans_optional_anyLine {before piece after : Text} :
    (optional anyLine).Spans before piece after ↔
      ∃ other, piece = endLines other ∧ other.length ≤ 1 ∧ ∀ row ∈ other, '\n' ∉ row := by
  rw [spans_optional, spans_anyLine]
  constructor
  · intro h
    rcases h with ⟨row, rfl, hrow⟩ | rfl
    · exact ⟨[row], (endLines_singleton row).symm, Nat.le_refl 1, by simpa using hrow⟩
    · exact ⟨[], rfl, Nat.zero_le 1, by simp⟩
  · intro h
    rcases h with ⟨other, rfl, hlength, hother⟩
    rcases other with _ | ⟨row, _ | ⟨next, rest⟩⟩
    · exact Or.inr rfl
    · exact Or.inl ⟨row, endLines_singleton row, hother row List.mem_cons_self⟩
    · simp at hlength

/-!
# Two headers
-/

theorem spans_nestedLoops {before piece after : Text} :
    nestedLoops.Spans before piece after ↔
      (∀ x ∈ before.getLast?, x = '\n') ∧
        ∃ first more blanks other second,
          piece = first ++ (more ++ '\n' :: (endLines (blanks ++ other) ++ second)) ∧
          IsHeaderStart ["for"] first ∧ '\n' ∉ more ∧
          (∀ row ∈ blanks, ∀ x ∈ row, isIndent x = true) ∧ other.length ≤ 1 ∧
          (∀ row ∈ other, '\n' ∉ row) ∧ IsHeaderStart ["for"] second := by
  unfold nestedLoops
  simp only [spans_sequence_cons_cons, spans_sequence_singleton, spans_lineStart,
    spans_loopHeader areWords_for, spans_anyLine, spans_rounds_blankLine, spans_optional_anyLine]
  constructor
  · intro h
    rcases h with ⟨_, _, rfl, ⟨rfl, hstart⟩, first, _, rfl, hfirst, _, _, rfl, ⟨more, rfl, hmore⟩,
      _, _, rfl, ⟨blanks, rfl, hblanks⟩, _, second, rfl, ⟨other, rfl, hlength, hother⟩, hsecond⟩
    refine ⟨hstart, first, more, blanks, other, second, ?_, hfirst, hmore, hblanks, hlength,
      hother, hsecond⟩
    rw [endLines_append]
    simp
  · intro h
    rcases h with ⟨hstart, first, more, blanks, other, second, rfl, hfirst, hmore, hblanks,
      hlength, hother, hsecond⟩
    refine ⟨[], _, rfl, ⟨rfl, hstart⟩, first, _, rfl, hfirst, more ++ ['\n'],
      endLines blanks ++ (endLines other ++ second), ?_, ⟨more, rfl, hmore⟩,
      endLines blanks, _, rfl, ⟨blanks, rfl, hblanks⟩,
      endLines other, second, rfl, ⟨other, rfl, hlength, hother⟩, hsecond⟩
    rw [endLines_append]
    simp

theorem append_headers (front between : List Text) (first more second after : Text) :
    endLines front ++ (first ++ (more ++ '\n' :: (endLines between ++ second)) ++ after) =
      endLines (front ++ (first ++ more) :: between) ++ (second ++ after) := by
  rw [endLines_append front, endLines_cons]
  simp only [List.append_assoc, List.cons_append]

/-- Whether some lines can be cut at two `for` headers with blank lines and at most one other line
between them. -/
def CutAtHeaders (rows : List Text) : Prop :=
  ∃ front first blanks other second back,
    rows = front ++ first :: (blanks ++ (other ++ second :: back)) ∧ IsHeader ["for"] first ∧
    (∀ row ∈ blanks, ∀ x ∈ row, isIndent x = true) ∧ other.length ≤ 1 ∧ IsHeader ["for"] second

theorem CutAtHeaders.append {lines : List Text} (h : CutAtHeaders lines)
    (above below : List Text) : CutAtHeaders (above ++ (lines ++ below)) := by
  rcases h with ⟨front, first, blanks, other, second, back, rfl, hfirst, hblanks, hlength, hsecond⟩
  exact ⟨above ++ front, first, blanks, other, second, back ++ below, by simp, hfirst, hblanks,
    hlength, hsecond⟩

/-- The nested pattern occurs in a text when the lines of the text can be cut at two headers. -/
theorem occursIn_nestedLoops_iff {t : Text} :
    nestedLoops.occursIn t = true ↔ CutAtHeaders t.lines := by
  rw [occursIn_iff_spans]
  constructor
  · intro h
    rcases h with ⟨before, piece, after, rfl, hspans⟩
    rcases spans_nestedLoops.mp hspans with ⟨hstart, first, more, blanks, other, second, rfl,
      hfirst, hmore, hblanks, hlength, hother, hsecond⟩
    rcases exists_eq_endLines hstart with ⟨front, rfl, hfront⟩
    rcases exists_lines_of_isHeaderStart areWords_for hsecond after with
      ⟨line, back, hlines, hline⟩
    have hrows : ∀ row ∈ front ++ (first ++ more) :: (blanks ++ other), '\n' ∉ row := by
      intro row hrow
      simp only [List.mem_append, List.mem_cons] at hrow
      rcases hrow with hrow | rfl | hrow | hrow
      · exact hfront row hrow
      · simp [hfirst.not_mem areWords_for, hmore]
      · intro hmem
        cases hblanks row hrow _ hmem
      · exact hother row hrow
    -- All lines up to the second header are whole, and the text goes on inside of that one.
    rw [append_headers, lines_endLines_append hrows, hlines]
    refine ⟨front, first ++ more, blanks, other, line, back, by simp, ?_, hblanks, hlength, hline⟩
    exact (isHeader_iff (hrows _ (by simp))).mpr ⟨first, more, rfl, hfirst⟩
  · intro h
    rcases h with ⟨front, first, blanks, other, second, back, hlines, hfirst, hblanks, hlength,
      hsecond⟩
    have hmem : ∀ row ∈ front ++ first :: (blanks ++ (other ++ second :: back)), '\n' ∉ row := by
      rw [← hlines]
      exact fun row hrow => not_mem_of_mem_lines hrow
    have hcut : t.lines = (front ++ first :: (blanks ++ other)) ++ second :: back := by
      rw [hlines]
      simp
    rcases exists_isHeaderStart_of_lines hcut hsecond with ⟨last, after, rfl, hlast⟩
    rcases (isHeader_iff (hmem first (by simp))).mp hfirst with ⟨start, more, rfl, hstart⟩
    have hmore : '\n' ∉ start ++ more := hmem _ (by simp)
    refine ⟨endLines front, start ++ (more ++ '\n' :: (endLines (blanks ++ other) ++ last)), after,
      (append_headers _ _ _ _ _ _).symm,
      spans_nestedLoops.mpr ⟨forall_mem_getLast?_endLines front, start, more, blanks, other, last,
        rfl, hstart, ?_, hblanks, hlength, ?_, hlast⟩⟩
    · intro hfeed
      exact hmore (List.mem_append_right start hfeed)
    · intro row hrow
      exact hmem row (by simp [hrow])

/-!
# Lines by their numbers
-/

theorem exists_append_of_getElem? {α : Type} {items : List α} {i : Nat} {item : α}
    (h : items[i]? = some item) :
    ∃ front back, items = front ++ item :: back ∧ front.length = i := by
  rcases List.getElem?_eq_some_iff.mp h with ⟨hlt, rfl⟩
  refine ⟨items.take i, items.drop (i + 1), ?_, List.length_take_of_le (Nat.le_of_lt hlt)⟩
  rw [← List.drop_eq_getElem_cons hlt, List.take_append_drop]

theorem hasNestedHeaders_iff {lines : List Text} : HasNestedHeaders lines ↔ CutAtHeaders lines := by
  constructor
  · intro h
    rcases h with ⟨i, j, first, second, hlt, hi, hj, hfirst, hsecond, hbetween⟩
    rcases exists_append_of_getElem? hi with ⟨front, rest, rfl, rfl⟩
    have hj' : rest[j - (front.length + 1)]? = some second := by
      rw [List.getElem?_append_right (Nat.le_of_lt hlt),
        show j - front.length = j - (front.length + 1) + 1 by omega] at hj
      exact hj
    rcases exists_append_of_getElem? hj' with ⟨between, back, rfl, hlength⟩
    rcases List.eq_nil_or_concat between with rfl | ⟨blanks, last, rfl⟩
    · exact ⟨front, first, [], [], second, back, rfl, hfirst, by simp, Nat.zero_le 1, hsecond⟩
    · rw [List.concat_eq_append] at hlength hbetween ⊢
      refine ⟨front, first, blanks, [last], second, back, by simp, hfirst, ?_, Nat.le_refl 1,
        hsecond⟩
      intro row hrow
      rcases List.getElem_of_mem hrow with ⟨k, hk, hget⟩
      rw [List.length_append, List.length_singleton] at hlength
      apply hbetween (front.length + (k + 1)) row (by omega) (by omega) (by omega)
      rw [List.getElem?_append_right (by omega), Nat.add_sub_cancel_left, List.getElem?_cons_succ,
        List.append_assoc, List.getElem?_append_left hk, List.getElem?_eq_getElem hk, hget]
  · intro h
    rcases h with ⟨front, first, blanks, other, second, back, rfl, hfirst, hblanks, hlength,
      hsecond⟩
    refine ⟨front.length, front.length + (blanks.length + other.length + 1), first, second,
      by omega, by simp, ?_, hfirst, hsecond, ?_⟩
    · rw [List.getElem?_append_right (by omega), Nat.add_sub_cancel_left, List.getElem?_cons_succ,
        ← List.append_assoc, ← List.length_append, List.getElem?_append_right (Nat.le_refl _),
        Nat.sub_self]
      rfl
    · intro k row hlow hhigh hne hget
      have hk : k = front.length + (k - (front.length + 1) + 1) := by
        omega
      have hinner : k - (front.length + 1) < blanks.length := by
        omega
      rw [hk, List.getElem?_append_right (by omega), Nat.add_sub_cancel_left,
        List.getElem?_cons_succ, List.getElem?_append_left hinner] at hget
      exact hblanks row (List.mem_of_getElem? hget)

/-!
# The guess
-/

theorem label_injective {growth growth' : Growth} (h : growth.label = growth'.label) :
    growth = growth' := by
  revert h
  cases growth <;> cases growth' <;> decide

theorem ofTime_eq_quadratic_iff {t : Text} : ofTime t = quadratic ↔ CutAtHeaders t.lines := by
  rw [← occursIn_nestedLoops_iff]
  unfold ofTime
  cases nestedLoops.occursIn t <;> cases anyLoop.occursIn t <;> simp

/-- The guess for the running time of a text names the lines of the text: quadratic for two `for`
headers that have only blank lines and one other line between them, linear for any other loop
header, and constant without one. -/
theorem label_ofTime_eq_iff (t : Text) :
    ((ofTime t).label = quadratic.label ↔ HasNestedHeaders t.lines) ∧
    ((ofTime t).label = linear.label ↔
      ¬HasNestedHeaders t.lines ∧ ∃ line ∈ t.lines, IsHeader ["for", "while"] line) ∧
    ((ofTime t).label = constant.label ↔
      ¬HasNestedHeaders t.lines ∧ ¬∃ line ∈ t.lines, IsHeader ["for", "while"] line) := by
  have hnested : nestedLoops.occursIn t = true ↔ HasNestedHeaders t.lines :=
    occursIn_nestedLoops_iff.trans hasNestedHeaders_iff.symm
  have hloop : anyLoop.occursIn t = true ↔ ∃ line ∈ t.lines, IsHeader ["for", "while"] line :=
    occursIn_loopHeader_iff areWords_for_while
  have hlabel : ∀ growth : Growth, (ofTime t).label = growth.label ↔ ofTime t = growth :=
    fun growth => ⟨label_injective, congrArg label⟩
  rw [hlabel, hlabel, hlabel, ← hnested, ← hloop]
  unfold ofTime
  cases nestedLoops.occursIn t <;> cases anyLoop.occursIn t <;> simp

end Growth
end SourceAudit
