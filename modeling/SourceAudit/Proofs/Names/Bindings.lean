import SourceAudit.Proofs.Names.Introduced
import SourceAudit.Proofs.Pattern.Visits

/-!
# Readings of loops and aliases

## What is read at a place

A loop is the word `for`, blanks, a row of targets, blanks and the whole word `in`.  The row is the
shortest that such an end follows; its characters are those of words, blanks and commas, and the
first one begins a name.  An alias is the word `as`, blanks and a name.  Line feeds are blanks here,
so both may go on in the next line.
-/

namespace SourceAudit
namespace Names

open Pattern Text

def isTargetChar (x : Char) : Bool :=
  isWord x || isBlank x || x == ','

/-- Whether a text may stand between `for` and `in`, blanks at its ends apart. -/
def IsTargets (targets : Text) : Prop :=
  (∃ x more, targets = x :: more ∧ isNameStart x = true) ∧ ∀ x ∈ targets, isTargetChar x = true

/-- Whether the end of a row of targets comes next: blanks and the whole word `in`. -/
def EndsTargets (rest : Text) : Prop :=
  ∃ gap after, rest = gap ++ ("in".toList ++ after) ∧ gap ≠ [] ∧ (∀ x ∈ gap, isBlank x = true) ∧
    ∀ x ∈ after.head?, isWord x = false

/-- Whether a piece, with some text behind it, is a loop or an alias with the given targets. -/
inductive Binds : Text → Text → List Text → Prop where
  | loop {gap targets finish after : Text} : gap ≠ [] → (∀ x ∈ gap, isBlank x = true) →
      IsTargets targets → finish ≠ [] → (∀ x ∈ finish, isBlank x = true) →
      (∀ x ∈ after.head?, isWord x = false) →
      (∀ u v, targets = u ++ v → u ≠ [] → v ≠ [] →
        ¬EndsTargets (v ++ (finish ++ ("in".toList ++ after)))) →
      Binds ("for".toList ++ (gap ++ (targets ++ (finish ++ "in".toList)))) after
        (splitTargets targets)
  | named {gap name after : Text} : gap ≠ [] → (∀ x ∈ gap, isBlank x = true) → IsName name →
      (∀ x ∈ after.head?, isWord x = false) → Binds ("as".toList ++ (gap ++ name)) after [name]

/-!
# Parts of a loop
-/

theorem isBlank_head?_of_isName {name : Text} (h : IsName name) (after : Text) :
    ∀ x ∈ (name ++ after).head?, isBlank x = false := by
  intro x hx
  exact isBlank_eq_false_of_isWord (h.isWord_head? after x hx)

theorem IsTargets.isBlank_head? {targets : Text} (h : IsTargets targets) (after : Text) :
    ∀ x ∈ (targets ++ after).head?, isBlank x = false := by
  rcases h.1 with ⟨x, more, rfl, hx⟩
  intro y hy
  cases hy
  exact isBlank_eq_false_of_isWord (isWord_of_isNameStart hx)

theorem isSingle_loopStart : loopStart.IsSingle :=
  (isSingle_literal "for").seq (isSingle_several isBlank)

theorem isSingle_aliasStart : aliasStart.IsSingle :=
  (isSingle_literal "as").seq (isSingle_several isBlank)

theorem spans_literal_someBlanks {s : String} {before piece after : Text} :
    (seq (literal s) someBlanks).Spans before piece after ↔
      ∃ gap, piece = s.toList ++ gap ∧ gap ≠ [] ∧ (∀ x ∈ gap, isBlank x = true) ∧
        ∀ x ∈ after.head?, isBlank x = false := by
  unfold someBlanks
  rw [spans_seq]
  simp only [spans_literal, spans_several]
  constructor
  · intro h
    rcases h with ⟨_, gap, rfl, rfl, hgap⟩
    exact ⟨gap, rfl, hgap⟩
  · intro h
    rcases h with ⟨gap, rfl, hgap⟩
    exact ⟨s.toList, gap, rfl, rfl, hgap⟩

theorem isSingle_loopEnd : loopEnd.IsSingle := by
  apply isSingle_sequence
  intro p hp
  simp only [List.mem_cons, List.not_mem_nil, or_false] at hp
  rcases hp with rfl | rfl | rfl
  · exact isSingle_several isBlank
  · exact isSingle_literal "in"
  · exact isSingle_check _

theorem spans_loopEnd {before piece after : Text} :
    loopEnd.Spans before piece after ↔
      ∃ gap, piece = gap ++ "in".toList ∧ gap ≠ [] ∧ (∀ x ∈ gap, isBlank x = true) ∧
        ∀ x ∈ after.head?, isWord x = false := by
  have hboundary : ∀ front : Text,
      (Cursor.between (front ++ "in".toList) after).atWordBoundary = true ↔
        ∀ x ∈ after.head?, isWord x = false :=
    fun front => Cursor.atWordBoundary_behind (by decide) (List.all_eq_true.mp (by decide))
  unfold loopEnd someBlanks wordBoundary
  simp only [spans_sequence_cons_cons, spans_sequence_singleton, spans_several, spans_literal,
    spans_check]
  constructor
  · intro h
    rcases h with ⟨gap, _, rfl, ⟨hne, hgap, _⟩, _, _, rfl, rfl, rfl, hafter⟩
    exact ⟨gap, rfl, hne, hgap, (hboundary _).mp hafter⟩
  · intro h
    rcases h with ⟨gap, rfl, hne, hgap, hafter⟩
    refine ⟨gap, "in".toList, rfl, ⟨hne, hgap, ?_⟩, "in".toList, [], rfl, rfl, rfl,
      (hboundary _).mpr hafter⟩
    intro x hx
    cases hx
    decide

theorem endsTargets_iff (before : Text) {rest : Text} :
    EndsTargets rest ↔ ∃ piece after, rest = piece ++ after ∧ loopEnd.Spans before piece after := by
  simp only [spans_loopEnd]
  constructor
  · intro h
    rcases h with ⟨gap, after, rfl, hne, hgap, hafter⟩
    exact ⟨gap ++ "in".toList, after, by simp, gap, rfl, hne, hgap, hafter⟩
  · intro h
    rcases h with ⟨_, after, rfl, gap, rfl, hne, hgap, hafter⟩
    exact ⟨gap, after, by simp, hne, hgap, hafter⟩

theorem run_loopEnd_eq_none_iff {α : Type} {before rest : Text} {k : Cursor → α} :
    loopEnd.run (Cursor.between before rest) (fun c => some (k c)) = none ↔ ¬EndsTargets rest := by
  rw [endsTargets_iff before, ← not_iff_not, not_not, ← ne_eq, Option.ne_none_iff_exists']
  simp only [isSingle_loopEnd.run_eq_some_iff]
  constructor
  · intro h
    rcases h with ⟨_, piece, after, hsplit, hspans, _⟩
    exact ⟨piece, after, hsplit, hspans⟩
  · intro h
    rcases h with ⟨piece, after, hsplit, hspans⟩
    exact ⟨_, piece, after, hsplit, hspans, rfl⟩

theorem run_loopTargets_eq_some_iff {α : Type} {before rest : Text} {k : Cursor → Option α}
    {result : α} :
    loopTargets.run (Cursor.between before rest) k = some result ↔
      ∃ targets after, rest = targets ++ after ∧ IsTargets targets ∧
        k (Cursor.between (before ++ targets) after) = some result ∧
        ∀ u v, targets = u ++ v → u ≠ [] → v ≠ [] →
          k (Cursor.between (before ++ u) (v ++ after)) = none := by
  show (char isNameStart).run _ (fun c => (few isTargetChar).run c k) = _ ↔ _
  simp only [(isSingle_char isNameStart).run_eq_some_iff, spans_char, run_few_eq_some_iff]
  constructor
  · intro h
    rcases h with ⟨_, _, rfl, ⟨x, rfl, hx⟩, more, after, rfl, hmore, hk, hfirst⟩
    refine ⟨x :: more, after, rfl, ⟨⟨x, more, rfl, hx⟩, ?_⟩, ?_, ?_⟩
    · intro y hy
      rcases List.mem_cons.mp hy with rfl | hy
      · unfold isTargetChar
        rw [isWord_of_isNameStart hx, Bool.true_or, Bool.true_or]
      · exact hmore y hy
    · rw [List.append_cons]
      exact hk
    · intro u v huv hu hv
      rcases List.exists_cons_of_ne_nil hu with ⟨y, u, rfl⟩
      rcases List.cons.inj huv with ⟨rfl, hmoreEq⟩
      rw [List.append_cons]
      exact hfirst u v hmoreEq hv
  · intro h
    rcases h with ⟨_, after, rfl, ⟨⟨x, more, rfl, hx⟩, hall⟩, hk, hfirst⟩
    refine ⟨[x], more ++ after, rfl, ⟨x, rfl, hx⟩, more, after, rfl, ?_, ?_, ?_⟩
    · intro y hy
      exact hall y (List.mem_cons_of_mem x hy)
    · rw [← List.append_cons]
      exact hk
    · intro u v huv hv
      rw [← List.append_cons]
      exact hfirst (x :: u) v (by rw [huv]; rfl) (List.cons_ne_nil x u) hv

/-!
# Readings
-/

theorem readLoop_eq_some_iff {before rest : Text} {d : Cursor} {value : List Text} :
    readLoop (Cursor.between before rest) = some (d, value) ↔
      ∃ gap targets finish after,
        rest = "for".toList ++ (gap ++ (targets ++ (finish ++ ("in".toList ++ after)))) ∧
        gap ≠ [] ∧ (∀ x ∈ gap, isBlank x = true) ∧ IsTargets targets ∧
        finish ≠ [] ∧ (∀ x ∈ finish, isBlank x = true) ∧ (∀ x ∈ after.head?, isWord x = false) ∧
        (∀ u v, targets = u ++ v → u ≠ [] → v ≠ [] →
          ¬EndsTargets (v ++ (finish ++ ("in".toList ++ after)))) ∧
        d = Cursor.between
          (before ++ ("for".toList ++ (gap ++ (targets ++ (finish ++ "in".toList))))) after ∧
        value = splitTargets targets := by
  unfold readLoop
  simp only [isSingle_loopStart.run_eq_some_iff, run_loopTargets_eq_some_iff,
    isSingle_loopEnd.run_eq_some_iff, run_loopEnd_eq_none_iff, spans_loopEnd]
  unfold loopStart
  simp only [spans_literal_someBlanks]
  constructor
  · intro h
    rcases h with ⟨_, _, rfl, ⟨gap, rfl, hne, hgap, _⟩, targets, _, rfl, htargets,
      ⟨_, after, rfl, ⟨finish, rfl, hfinishNe, hfinish, hafter⟩, hvalue⟩, hfirst⟩
    rw [Cursor.upTo_between] at hvalue
    cases hvalue
    refine ⟨gap, targets, finish, after, by simp, hne, hgap, htargets, hfinishNe, hfinish, hafter,
      ?_, by simp, rfl⟩
    intro u v huv hu hv
    have hnone := hfirst u v huv hu hv
    rw [List.append_assoc] at hnone
    exact hnone
  · intro h
    rcases h with ⟨gap, targets, finish, after, rfl, hne, hgap, htargets, hfinishNe, hfinish,
      hafter, hfirst, rfl, rfl⟩
    refine ⟨"for".toList ++ gap, targets ++ (finish ++ "in".toList ++ after), by simp,
      ⟨gap, rfl, hne, hgap, htargets.isBlank_head? _⟩, targets, _, rfl, htargets,
      ⟨_, after, rfl, ⟨finish, rfl, hfinishNe, hfinish, hafter⟩, ?_⟩, ?_⟩
    · rw [Cursor.upTo_between]
      simp
    · intro u v huv hu hv
      rw [List.append_assoc]
      exact hfirst u v huv hu hv

theorem readAlias_eq_some_iff {before rest : Text} {d : Cursor} {value : List Text} :
    readAlias (Cursor.between before rest) = some (d, value) ↔
      ∃ gap name after, rest = "as".toList ++ (gap ++ (name ++ after)) ∧
        gap ≠ [] ∧ (∀ x ∈ gap, isBlank x = true) ∧ IsName name ∧
        (∀ x ∈ after.head?, isWord x = false) ∧
        d = Cursor.between (before ++ ("as".toList ++ (gap ++ name))) after ∧ value = [name] := by
  unfold readAlias
  simp only [isSingle_aliasStart.run_eq_some_iff, isSingle_name.run_eq_some_iff, spans_name]
  unfold aliasStart
  simp only [spans_literal_someBlanks]
  constructor
  · intro h
    rcases h with ⟨_, _, rfl, ⟨gap, rfl, hne, hgap, _⟩, name, after, rfl, ⟨hname, hafter⟩, hvalue⟩
    rw [Cursor.upTo_between] at hvalue
    cases hvalue
    exact ⟨gap, name, after, by simp, hne, hgap, hname, hafter, by simp, rfl⟩
  · intro h
    rcases h with ⟨gap, name, after, rfl, hne, hgap, hname, hafter, rfl, rfl⟩
    refine ⟨"as".toList ++ gap, name ++ after, by simp,
      ⟨gap, rfl, hne, hgap, isBlank_head?_of_isName hname after⟩, name, after, rfl, ⟨hname, hafter⟩,
      ?_⟩
    rw [Cursor.upTo_between]
    simp

/-- A loop or an alias is read behind no character of a word. -/
theorem readBinding_eq_some_iff {before rest : Text} {d : Cursor} {value : List Text} :
    readBinding (Cursor.between before rest) = some (d, value) ↔
      (∀ x ∈ before.getLast?, isWord x = false) ∧ ∃ piece after, rest = piece ++ after ∧
        Binds piece after value ∧ d = Cursor.between (before ++ piece) after := by
  show (if (Cursor.between before rest).atWordBoundary then
    readLoop (Cursor.between before rest) <|> readAlias (Cursor.between before rest) else none) =
      some (d, value) ↔ _
  constructor
  · intro h
    split at h
    · rename_i hboundary
      cases hloop : readLoop (Cursor.between before rest) with
      | some next =>
          rw [hloop] at h
          cases h
          rcases readLoop_eq_some_iff.mp hloop with ⟨gap, targets, finish, after, rfl, hne, hgap,
            htargets, hfinishNe, hfinish, hafter, hfirst, rfl, rfl⟩
          exact ⟨(Cursor.atWordBoundary_before rfl (by decide)).mp hboundary, _, after, by simp,
            .loop hne hgap htargets hfinishNe hfinish hafter hfirst, rfl⟩
      | none =>
          rw [hloop] at h
          rcases readAlias_eq_some_iff.mp h with ⟨gap, name, after, rfl, hne, hgap, hname, hafter,
            rfl, rfl⟩
          exact ⟨(Cursor.atWordBoundary_before rfl (by decide)).mp hboundary, _, after, by simp,
            .named hne hgap hname hafter, rfl⟩
    · cases h
  · intro h
    rcases h with ⟨hbefore, _, after, rfl, hbinds, rfl⟩
    cases hbinds with
    | @loop gap targets finish _ hne hgap htargets hfinishNe hfinish hafter hfirst =>
        have hloop := readLoop_eq_some_iff.mpr ⟨gap, targets, finish, after, rfl, hne, hgap,
          htargets, hfinishNe, hfinish, hafter, hfirst, Eq.refl (Cursor.between (before ++ _) after),
          rfl⟩
        rw [if_pos ((Cursor.atWordBoundary_before rfl (by decide)).mpr hbefore)]
        simp only [List.append_assoc] at hloop ⊢
        rw [hloop]
        rfl
    | @named gap name _ hne hgap hname hafter =>
        have halias := readAlias_eq_some_iff.mpr ⟨gap, name, after, rfl, hne, hgap, hname, hafter,
          Eq.refl (Cursor.between (before ++ _) after), rfl⟩
        have hloop : readLoop (Cursor.between before ("as".toList ++ (gap ++ (name ++ after)))) =
            none := by
          cases hread : readLoop (Cursor.between before ("as".toList ++ (gap ++ (name ++ after)))) with
          | none =>
              rfl
          | some next =>
              rcases readLoop_eq_some_iff.mp hread with ⟨_, _, _, _, hrest, _⟩
              cases (List.cons.inj hrest).1
        rw [if_pos ((Cursor.atWordBoundary_before rfl (by decide)).mpr hbefore)]
        simp only [List.append_assoc] at halias ⊢
        rw [hloop, halias]
        rfl

theorem Binds.ne_nil {piece after : Text} {value : List Text} (h : Binds piece after value) :
    piece ≠ [] := by
  cases h <;> exact List.cons_ne_nil _ _

theorem Binds.head? {piece after : Text} {value : List Text} (h : Binds piece after value) :
    piece.head? = some 'f' ∨ piece.head? = some 'a' := by
  cases h
  · exact Or.inl rfl
  · exact Or.inr rfl

theorem moves_readBinding : readBinding.Moves := by
  intro before rest d value h
  rcases readBinding_eq_some_iff.mp h with ⟨_, piece, after, rfl, hbinds, rfl⟩
  exact ⟨piece, after, hbinds.ne_nil, rfl, rfl⟩

theorem reads_readBinding_iff {before piece after : Text} {value : List Text} :
    readBinding.Reads before piece after value ↔
      (∀ x ∈ before.getLast?, isWord x = false) ∧ Binds piece after value := by
  unfold Reader.Reads
  rw [readBinding_eq_some_iff]
  constructor
  · intro h
    rcases h with ⟨hbefore, piece', after', hrest, hbinds, hend⟩
    have hlength := congrArg Cursor.pos hend
    simp only [Cursor.between_pos, List.length_append] at hlength
    rcases List.append_inj hrest (by omega) with ⟨rfl, rfl⟩
    exact ⟨hbefore, hbinds⟩
  · intro h
    exact ⟨h.1, piece, after, rfl, h.2, rfl⟩

/-- The targets of loops and aliases in a body are those read at the visited places. -/
theorem mem_boundNames_iff {body name : Text} :
    name ∈ boundNames body ↔
      ∃ before piece after value, body = before ++ (piece ++ after) ∧
        readBinding.Visits before (piece ++ after) ∧ readBinding.Reads before piece after value ∧
        name ∈ value := by
  unfold boundNames
  simp only [List.mem_flatten, Reader.mem_scan_iff moves_readBinding]
  constructor
  · intro h
    rcases h with ⟨value, ⟨before, piece, after, hbody, hvisits, hreads⟩, hname⟩
    exact ⟨before, piece, after, value, hbody, hvisits, hreads, hname⟩
  · intro h
    rcases h with ⟨before, piece, after, value, hbody, hvisits, hreads, hname⟩
    exact ⟨value, ⟨before, piece, after, hbody, hvisits, hreads⟩, hname⟩

end Names
end SourceAudit
