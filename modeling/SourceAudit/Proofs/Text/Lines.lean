import SourceAudit.Proofs.Text.Cut

/-!
# Lines of a text

## Lines in front of a place

A text behind some lines has these lines in front of its own.  A place where a line starts has whole
lines before it, and what follows the place begins with the line that starts there.
-/

namespace SourceAudit
namespace Text

/-- Some lines, each with its line feed. -/
def endLines (rows : List Text) : Text :=
  rows.flatMap (· ++ ['\n'])

theorem endLines_cons (row : Text) (rows : List Text) :
    endLines (row :: rows) = row ++ '\n' :: endLines rows := by
  unfold endLines
  rw [List.flatMap_cons, List.append_assoc]
  rfl

@[simp] theorem endLines_singleton (row : Text) : endLines [row] = row ++ ['\n'] :=
  List.append_nil (row ++ ['\n'])

theorem endLines_append (rows others : List Text) :
    endLines (rows ++ others) = endLines rows ++ endLines others :=
  List.flatMap_append

theorem lines_of_not_mem {t : Text} (h : '\n' ∉ t) : t.lines = [t] :=
  cutAt_of_not_mem h

theorem not_mem_of_mem_lines {t row : Text} (h : row ∈ t.lines) : '\n' ∉ row :=
  not_mem_of_mem_cutAt h

theorem lines_append_feed (a b : Text) : lines (a ++ '\n' :: b) = lines a ++ lines b :=
  cutAt_append_cons '\n' a b

theorem lines_ne_nil (t : Text) : t.lines ≠ [] :=
  cutAt_ne_nil '\n' t

theorem lines_endLines_append {rows : List Text} (h : ∀ row ∈ rows, '\n' ∉ row) (rest : Text) :
    lines (endLines rows ++ rest) = rows ++ lines rest := by
  induction rows with
  | nil =>
      rfl
  | cons row others ih =>
      rw [endLines_cons, List.append_assoc, List.cons_append, lines_append_feed,
        lines_of_not_mem (h row List.mem_cons_self),
        ih fun other hother => h other (List.mem_cons_of_mem row hother)]
      rfl

theorem eq_of_lines_eq {t t' : Text} (h : t.lines = t'.lines) : t = t' :=
  cutAt_injective '\n' h

theorem exists_of_lines_eq_cons {t row : Text} {others : List Text} (h : t.lines = row :: others)
    (hothers : others ≠ []) : ∃ rest : Text, t = row ++ '\n' :: rest ∧ rest.lines = others := by
  have ht : t = row ++ '\n' :: join ['\n'] others := by
    have hjoin : join ['\n'] t.lines = t := join_cutAt '\n' t
    rw [← hjoin, h]
    exact join_cons ['\n'] row others hothers
  refine ⟨join ['\n'] others, ht, ?_⟩
  have hrow : '\n' ∉ row := not_mem_of_mem_lines (t := t) (by rw [h]; exact List.mem_cons_self)
  rw [ht, lines_append_feed, lines_of_not_mem hrow] at h
  exact (List.cons.inj h).2

theorem exists_of_lines_eq_append {t : Text} {rows others : List Text}
    (h : t.lines = rows ++ others) (hothers : others ≠ []) :
    ∃ rest : Text, t = endLines rows ++ rest ∧ rest.lines = others := by
  induction rows generalizing t with
  | nil =>
      exact ⟨t, rfl, h⟩
  | cons row more ih =>
      rcases exists_of_lines_eq_cons h (by simp [hothers]) with ⟨rest, rfl, hrest⟩
      rcases ih hrest with ⟨last, rfl, hlast⟩
      refine ⟨last, ?_, hlast⟩
      rw [endLines_cons, List.append_assoc, List.cons_append]

theorem exists_eq_endLines {before : Text} (h : ∀ x ∈ before.getLast?, x = '\n') :
    ∃ rows, before = endLines rows ∧ ∀ row ∈ rows, '\n' ∉ row := by
  rcases List.eq_nil_or_concat before with rfl | ⟨front, c, rfl⟩
  · exact ⟨[], rfl, by simp⟩
  · rw [List.concat_eq_append] at h ⊢
    rw [h c (by simp)]
    have hlines : lines (front ++ ['\n']) = lines front ++ [[]] := lines_append_feed front []
    rcases exists_of_lines_eq_append hlines (by simp) with ⟨rest, hsplit, hrest⟩
    have hnil : rest = [] := eq_of_lines_eq (show lines rest = lines [] from hrest)
    rw [hnil, List.append_nil] at hsplit
    exact ⟨lines front, hsplit, fun row hrow => not_mem_of_mem_lines hrow⟩

theorem forall_mem_getLast?_endLines (rows : List Text) :
    ∀ x ∈ (endLines rows).getLast?, x = '\n' := by
  intro x hx
  rcases List.eq_nil_or_concat rows with rfl | ⟨front, row, rfl⟩
  · cases hx
  · rw [List.concat_eq_append, endLines_append, endLines_cons, List.getLast?_append] at hx
    simpa [endLines] using hx.symm

theorem exists_of_lines_eq {t row : Text} {others : List Text} (h : t.lines = row :: others) :
    ∃ rest, t = row ++ rest ∧ ∀ x ∈ rest.head?, x = '\n' := by
  by_cases hothers : others = []
  · rw [hothers] at h
    have hrow : '\n' ∉ row := not_mem_of_mem_lines (t := t) (by rw [h]; exact List.mem_cons_self)
    refine ⟨[], ?_, by simp⟩
    rw [List.append_nil]
    exact eq_of_lines_eq (h.trans (lines_of_not_mem hrow).symm)
  · rcases exists_of_lines_eq_cons h hothers with ⟨rest, ht, _⟩
    exact ⟨'\n' :: rest, ht, by simp⟩

def startLines (rows : List Text) : Text :=
  rows.flatMap ('\n' :: ·)

theorem startLines_cons (row : Text) (rows : List Text) :
    startLines (row :: rows) = '\n' :: (row ++ startLines rows) :=
  List.flatMap_cons

theorem startLines_append (rows others : List Text) :
    startLines (rows ++ others) = startLines rows ++ startLines others :=
  List.flatMap_append

theorem forall_mem_head?_startLines (rows : List Text) :
    ∀ x ∈ (startLines rows).head?, x = '\n' := by
  intro x hx
  cases rows with
  | nil =>
      cases hx
  | cons row others =>
      cases hx
      rfl

theorem eq_append_startLines {t row : Text} {others : List Text} (h : t.lines = row :: others) :
    t = row ++ startLines others := by
  induction others generalizing t row with
  | nil =>
      have hrow : '\n' ∉ row := not_mem_of_mem_lines (t := t) (by rw [h]; exact List.mem_cons_self)
      rw [eq_of_lines_eq (h.trans (lines_of_not_mem hrow).symm)]
      exact (List.append_nil row).symm
  | cons other others ih =>
      rcases exists_of_lines_eq_cons h (List.cons_ne_nil other others) with ⟨rest, rfl, hrest⟩
      rw [startLines_cons, ← ih hrest]

theorem exists_of_startLines_eq {rows : List Text} (hrows : ∀ row ∈ rows, '\n' ∉ row)
    {before after : Text} (h : startLines rows = before ++ '\n' :: after) :
    ∃ row ∈ rows, ∃ more, after = row ++ startLines more := by
  induction rows generalizing before with
  | nil =>
      cases before <;> cases h
  | cons row others ih =>
      rw [startLines_cons] at h
      cases before with
      | nil =>
          exact ⟨row, List.mem_cons_self, others, (List.cons.inj h).2.symm⟩
      | cons x before =>
          have hrest : row ++ startLines others = before ++ '\n' :: after := (List.cons.inj h).2
          rcases append_cases hrest with ⟨m, rfl, hm⟩ | ⟨y, m, rfl, hm⟩
          · rcases ih (fun other hother => hrows other (List.mem_cons_of_mem row hother)) hm with
              ⟨found, hfound, more, hmore⟩
            exact ⟨found, List.mem_cons_of_mem row hfound, more, hmore⟩
          · rw [← (List.cons.inj hm).1] at hrows
            exact absurd (by simp) (hrows _ List.mem_cons_self)

theorem exists_lines_append_eq {piece : Text} (h : '\n' ∉ piece) (after : Text) :
    ∃ more others, lines (piece ++ after) = (piece ++ more) :: others := by
  rcases List.exists_cons_of_ne_nil (lines_ne_nil after) with ⟨row, others, hlines⟩
  refine ⟨row, others, ?_⟩
  rcases exists_of_lines_eq hlines with ⟨rest, rfl, hrest⟩
  have hrow : '\n' ∉ row :=
    not_mem_of_mem_lines (t := row ++ rest) (by rw [hlines]; exact List.mem_cons_self)
  have hpiece : '\n' ∉ piece ++ row := by
    simp [h, hrow]
  rcases rest with _ | ⟨x, later⟩
  · rw [List.append_nil, lines_of_not_mem hrow] at hlines
    rw [List.append_nil, lines_of_not_mem hpiece, (List.cons.inj hlines).2]
  · rw [hrest x rfl, lines_append_feed, lines_of_not_mem hrow] at hlines
    rw [hrest x rfl, ← List.append_assoc, lines_append_feed, lines_of_not_mem hpiece,
      ← (List.cons.inj hlines).2]
    rfl

/-- The lines of a text are the pieces without line feeds between its line feeds or ends. -/
theorem mem_lines_iff {t line : Text} :
    line ∈ t.lines ↔ '\n' ∉ line ∧ ∃ before after, t = before ++ (line ++ after) ∧
      (∀ x ∈ before.getLast?, x = '\n') ∧ ∀ x ∈ after.head?, x = '\n' := by
  constructor
  · intro h
    rcases List.append_of_mem h with ⟨rows, others, hlines⟩
    rcases exists_of_lines_eq_append hlines (List.cons_ne_nil _ _) with ⟨rest, rfl, hrest⟩
    rcases exists_of_lines_eq hrest with ⟨after, rfl, hafter⟩
    exact ⟨not_mem_of_mem_lines h, endLines rows, after, rfl, forall_mem_getLast?_endLines rows,
      hafter⟩
  · intro h
    rcases h with ⟨hline, before, after, rfl, hbefore, hafter⟩
    rcases exists_eq_endLines hbefore with ⟨rows, rfl, hrows⟩
    rw [lines_endLines_append hrows]
    cases after with
    | nil =>
        rw [List.append_nil, lines_of_not_mem hline]
        simp
    | cons x rest =>
        rw [hafter x rfl, lines_append_feed, lines_of_not_mem hline]
        simp

end Text
end SourceAudit
