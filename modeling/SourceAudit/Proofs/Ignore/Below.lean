import SourceAudit.Ignore.Scope
import SourceAudit.Proofs.Text.Cut

/-!
# Patterns below a directory

## Slashes inside

A pattern put below a directory is the directory, a slash and a rest that depends on the pattern
only.  If others than slashes stand in the rest, the whole has a slash inside.  Below a second
directory it is then kept as it is, and both directories stand in front of the same rest as if they
had been one.

The rest of a pattern that is slashes only is slashes as well.  Behind a directory without a slash
inside it makes none, so the second directory gets the first one for a name at any depth.
-/

namespace SourceAudit

/-!
# Slashes inside of a pattern
-/

theorem hasInnerSlash_iff {pattern : Text} :
    hasInnerSlash pattern = true ↔
      ∃ front behind, pattern = front ++ '/' :: behind ∧ ∃ c ∈ behind, c ≠ '/' := by
  unfold hasInnerSlash
  rw [List.contains_iff_mem]
  constructor
  · intro hmem
    rcases List.append_of_mem hmem with ⟨front, kept, hkept⟩
    rcases Text.eq_dropEndWhile_append '/' pattern with ⟨k, hpattern⟩
    have hlast := Text.getLast?_dropEndWhile (· == '/') pattern
    rw [hkept, List.getLast?_append, List.getLast?_cons, Option.some_or] at hlast
    refine ⟨front, kept ++ List.replicate k '/', ?_, ?_⟩
    · rw [hkept, List.append_assoc, List.cons_append] at hpattern
      exact hpattern
    · cases kept with
      | nil =>
          exact absurd (hlast '/' rfl) (by decide)
      | cons x rest =>
          have hcons : x :: rest ≠ [] := List.cons_ne_nil x rest
          refine ⟨(x :: rest).getLast hcons, ?_, ?_⟩
          · exact List.mem_append_left _ (List.getLast_mem _)
          · simpa using hlast _ (by rw [List.getLast?_eq_some_getLast hcons]; rfl)
  · intro h
    rcases h with ⟨front, behind, rfl, c, hc, hne⟩
    rcases List.append_of_mem hc with ⟨near, far, rfl⟩
    have hkept := @Text.dropEndWhile_append_cons (· == '/') c (by simpa using hne)
      (front ++ '/' :: near) far
    rw [List.append_assoc, List.cons_append] at hkept
    rw [hkept]
    simp

theorem hasInnerSlash_append_iff (front rest : Text) :
    hasInnerSlash (front ++ '/' :: rest) = true ↔
      hasInnerSlash front = true ∨ ∃ c ∈ rest, c ≠ '/' := by
  constructor
  · intro h
    rcases hasInnerSlash_iff.mp h with ⟨near, behind, hsplit, c, hc, hne⟩
    rcases append_cases hsplit with ⟨m, rfl, hm⟩ | ⟨x, m, rfl, hm⟩
    · right
      refine ⟨c, ?_, hne⟩
      cases m with
      | nil =>
          rw [(List.cons.inj hm).2]
          exact hc
      | cons y more =>
          rw [(List.cons.inj hm).2]
          exact List.mem_append_right more (List.mem_cons_of_mem '/' hc)
    · rcases List.cons.inj hm with ⟨rfl, rfl⟩
      rcases List.mem_append.mp hc with hc | hc
      · left
        exact hasInnerSlash_iff.mpr ⟨near, m, rfl, c, hc, hne⟩
      · right
        exact ⟨c, (List.mem_cons.mp hc).resolve_left hne, hne⟩
  · intro h
    rcases h with h | h
    · rcases hasInnerSlash_iff.mp h with ⟨near, behind, rfl, c, hc, hne⟩
      apply hasInnerSlash_iff.mpr
      refine ⟨near, behind ++ '/' :: rest, by simp, c, List.mem_append_left _ hc, hne⟩
    · exact hasInnerSlash_iff.mpr ⟨front, rest, rfl, h⟩

/-!
# Patterns below a directory
-/

/-- What a pattern put below a directory has behind the directory and a slash. -/
def belowScope (pattern : Text) : Text :=
  if pattern.head? = some '/' then pattern.tail
  else if hasInnerSlash pattern then pattern
  else ['*', '*', '/'] ++ pattern

theorem scopedPattern_eq_append (scope pattern : Text) :
    scopedPattern scope pattern = scope ++ '/' :: belowScope pattern := by
  unfold scopedPattern belowScope
  by_cases hhead : pattern.head? = some '/'
  · rcases List.head?_eq_some_iff.mp hhead with ⟨rest, rfl⟩
    rw [if_pos hhead, if_pos hhead]
    rfl
  · rw [if_neg hhead, if_neg hhead]
    split
    · exact List.append_assoc scope ['/'] pattern
    · exact List.append_assoc scope ['/', '*', '*', '/'] pattern

theorem exists_mem_belowScope_iff {pattern : Text} :
    (∃ c ∈ belowScope pattern, c ≠ '/') ↔ pattern = [] ∨ ∃ c ∈ pattern, c ≠ '/' := by
  unfold belowScope
  by_cases hhead : pattern.head? = some '/'
  · rcases List.head?_eq_some_iff.mp hhead with ⟨rest, rfl⟩
    rw [if_pos hhead]
    simp
  · rw [if_neg hhead]
    have hother : pattern = [] ∨ ∃ c ∈ pattern, c ≠ '/' := by
      cases pattern with
      | nil =>
          exact Or.inl rfl
      | cons x rest =>
          exact Or.inr ⟨x, List.mem_cons_self, fun hx => hhead (congrArg some hx)⟩
    apply iff_of_true _ hother
    by_cases hinner : hasInnerSlash pattern = true
    · rw [if_pos hinner]
      rcases hasInnerSlash_iff.mp hinner with ⟨front, behind, rfl, c, hc, hne⟩
      exact ⟨c, List.mem_append_right front (List.mem_cons_of_mem '/' hc), hne⟩
    · rw [if_neg hinner]
      exact ⟨'*', List.mem_cons_self, by decide⟩

/-- Patterns are put below two directories one after the other as below both at once, unless they
are slashes only and the inner directory has no slash inside. -/
theorem scopedPattern_scopedPattern_iff {outer inner : Text} (hne : inner ≠ [])
    (hhead : inner.head? ≠ some '/') (pattern : Text) :
    scopedPattern outer (scopedPattern inner pattern) =
        scopedPattern (outer ++ '/' :: inner) pattern ↔
      hasInnerSlash inner = true ∨ pattern = [] ∨ ∃ c ∈ pattern, c ≠ '/' := by
  have hscoped : (inner ++ '/' :: belowScope pattern).head? ≠ some '/' := by
    rw [List.head?_append_of_ne_nil inner hne]
    exact hhead
  rw [← exists_mem_belowScope_iff, ← hasInnerSlash_append_iff, scopedPattern_eq_append inner,
    scopedPattern_eq_append (outer ++ '/' :: inner)]
  unfold scopedPattern
  rw [if_neg hscoped]
  by_cases hinner : hasInnerSlash (inner ++ '/' :: belowScope pattern) = true
  · rw [if_pos hinner]
    apply iff_of_true _ hinner
    simp
  · rw [if_neg hinner]
    apply iff_of_false _ hinner
    intro hsame
    have hlength := congrArg List.length hsame
    simp only [List.length_append, List.length_cons, List.length_nil] at hlength
    omega

end SourceAudit
