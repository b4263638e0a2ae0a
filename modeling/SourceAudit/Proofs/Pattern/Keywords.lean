import SourceAudit.Proofs.Pattern.LineBound
import SourceAudit.Proofs.Pattern.WordRuns

/-!
# Keywords

## Whole words from a list

A keyword is a whole word, so it lies within a line, and there is none within a longer word.  A text
has as many keywords from a list as it has words that are in the list.  Lists that share no word
count different places of a text.
-/

namespace SourceAudit
namespace Pattern

variable {words : List String} {before piece after : Text}

theorem spans_words (hwords : AreWords words) :
    (seq wordBoundary (wholeWord words)).Spans before piece after ↔
      (∃ word ∈ words, piece = word.toList) ∧
        (∀ x ∈ before.getLast?, Text.isWord x = false) ∧
        ∀ x ∈ after.head?, Text.isWord x = false := by
  rw [spans_seq]
  constructor
  · intro h
    rcases h with ⟨u, v, rfl, hu, hv⟩
    rcases spans_check.mp hu with ⟨rfl, hboundary⟩
    rcases (spans_wholeWord hwords).mp hv with ⟨⟨word, hword, rfl⟩, hafter⟩
    refine ⟨⟨word, hword, rfl⟩, ?_, hafter⟩
    rcases List.exists_cons_of_ne_nil (hwords word hword).1 with ⟨x, rest, hx⟩
    exact (Cursor.atWordBoundary_before (by rw [hx]; rfl)
      ((hwords word hword).2 x (by rw [hx]; exact List.mem_cons_self))).mp hboundary
  · intro h
    rcases h with ⟨⟨word, hword, rfl⟩, hbefore, hafter⟩
    rcases List.exists_cons_of_ne_nil (hwords word hword).1 with ⟨x, rest, hx⟩
    refine ⟨[], word.toList, rfl, ?_, ?_⟩
    · refine spans_check.mpr ⟨rfl, ?_⟩
      exact (Cursor.atWordBoundary_before (by rw [hx]; rfl)
        ((hwords word hword).2 x (by rw [hx]; exact List.mem_cons_self))).mpr hbefore
    · rw [List.append_nil]
      exact (spans_wholeWord hwords).mpr ⟨⟨word, hword, rfl⟩, hafter⟩

theorem isLineBound_words (hwords : AreWords words) :
    (seq wordBoundary (wholeWord words)).IsLineBound where
  unique := by
    intro before piece piece' after after' h h' hsplit
    rcases (spans_words hwords).mp h with ⟨⟨word, hword, rfl⟩, _, hafter⟩
    rcases (spans_words hwords).mp h' with ⟨⟨word', hword', rfl⟩, _, hafter'⟩
    exact (append_inj_of_class hsplit (hwords word hword).2 hafter (hwords word' hword').2
      hafter').1
  not_mem h := by
    rcases (spans_words hwords).mp h with ⟨⟨word, hword, rfl⟩, _, _⟩
    intro hfeed
    have hisWord := (hwords word hword).2 '\n' hfeed
    revert hisWord
    decide
  spans_before_line {before piece after below} := by
    rw [spans_words hwords, spans_words hwords, Cursor.head?_before_line]
    cases after.head? with
    | none =>
        simp [Text.isWord]
    | some x =>
        simp
  spans_behind_line {above before piece after} := by
    rw [spans_words hwords, spans_words hwords, Cursor.getLast?_behind_line]
    cases before.getLast? with
    | none =>
        simp [Text.isWord]
    | some x =>
        simp

theorem isWordwise_words (hwords : AreWords words) :
    (seq wordBoundary (wholeWord words)).IsWordwise
      fun run => decide (run.1 ∈ words.map String.toList) where
  exists_isWordRun h := by
    rcases (spans_words hwords).mp h with ⟨⟨word, hword, rfl⟩, hbefore, hafter⟩
    refine ⟨word.toList, [], (List.append_nil _).symm, List.forall_mem_nil _, ?_, ?_⟩
    · exact ⟨(hwords word hword).1, (hwords word hword).2, hbefore, hafter⟩
    · exact decide_eq_true (List.mem_map_of_mem hword)
  exists_spans {before run behind} hrun hholds := by
    rcases List.mem_map.mp (of_decide_eq_true hholds) with ⟨word, hword, rfl⟩
    refine ⟨[], behind, rfl, ?_⟩
    rw [List.append_nil]
    exact (spans_words hwords).mpr ⟨⟨word, hword, rfl⟩, hrun.before, hrun.after⟩

theorem occursIn_words_iff (hwords : AreWords words) {t : Text} :
    (seq wordBoundary (wholeWord words)).occursIn t = true ↔
      ∃ before, ∃ word ∈ words, ∃ after, t = before ++ (word.toList ++ after) ∧
        (∀ x ∈ before.getLast?, Text.isWord x = false) ∧
        ∀ x ∈ after.head?, Text.isWord x = false := by
  rw [occursIn_iff_spans]
  constructor
  · intro h
    rcases h with ⟨before, _, after, rfl, hspans⟩
    rcases (spans_words hwords).mp hspans with ⟨⟨word, hword, rfl⟩, hbefore, hafter⟩
    exact ⟨before, word, hword, after, rfl, hbefore, hafter⟩
  · intro h
    rcases h with ⟨before, word, hword, after, rfl, hbefore, hafter⟩
    exact ⟨before, word.toList, after, rfl,
      (spans_words hwords).mpr ⟨⟨word, hword, rfl⟩, hbefore, hafter⟩⟩

/-!
# Lists without a common word
-/

theorem AreWords.of_subset {part : List String} (hwords : AreWords words) (h : part ⊆ words) :
    AreWords part :=
  fun word hword => hwords word (h hword)

/-- Two lists of keywords without a common one count no place twice, and each place counts for a
list that holds both. -/
theorem countIn_words_add_le {first second : List String} (hwords : AreWords words)
    (hfirst : first ⊆ words) (hsecond : second ⊆ words) (hdisjoint : first.Disjoint second)
    (t : Text) :
    (seq wordBoundary (wholeWord first)).countIn t +
        (seq wordBoundary (wholeWord second)).countIn t ≤
      (seq wordBoundary (wholeWord words)).countIn t := by
  rw [(isWordwise_words (hwords.of_subset hfirst)).countIn_eq_countP_wordRuns,
    (isWordwise_words (hwords.of_subset hsecond)).countIn_eq_countP_wordRuns,
    (isWordwise_words hwords).countIn_eq_countP_wordRuns]
  -- The words of the whole list are cut in those of the first list and the others.
  have hcut := List.countP_eq_countP_filter_add t.wordRuns
    (fun run => decide (run.1 ∈ words.map String.toList))
    (fun run => decide (run.1 ∈ first.map String.toList))
  rw [hcut, List.countP_filter, List.countP_filter]
  apply Nat.add_le_add
  · apply List.countP_mono_left
    intro run _ hrun
    have hmem := of_decide_eq_true hrun
    simp [hmem, List.map_subset _ hfirst hmem]
  · apply List.countP_mono_left
    intro run _ hrun
    have hmem := of_decide_eq_true hrun
    have hother : run.1 ∉ first.map String.toList := by
      intro hboth
      rcases List.mem_map.mp hmem with ⟨word, hword, hrun⟩
      rcases List.mem_map.mp hboth with ⟨word', hword', hrun'⟩
      rw [String.toList_injective (hrun'.trans hrun.symm)] at hword'
      exact hdisjoint hword' hword
    simp [hother, List.map_subset _ hsecond hmem]

end Pattern
end SourceAudit
