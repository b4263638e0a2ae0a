import SourceAudit.Proofs.Ignore.Scoping

/-!
# Directories within directories

## One rewriting for two

A line is rewritten for the directory that holds it.  Rewritten once more for a directory around
that one, it keeps its sign, and its pattern is put below both directories.  The result is the line
rewritten for the whole path at once.  Blank lines and comments stay as they are in both ways.
-/

namespace SourceAudit

variable {outer inner : Text}

theorem splitNegation_sign_append (line : Text) {pattern : Text}
    (hhead : pattern.head? ≠ some '!') :
    splitNegation ((splitNegation line).1 ++ pattern) = ((splitNegation line).1, pattern) := by
  rcases IgnoreRule.splitSign_eq line with ⟨_, rfl, _, _⟩ | ⟨_, _, hsplit⟩
  · rfl
  · rw [hsplit]
    rcases IgnoreRule.splitSign_eq pattern with ⟨_, rfl, _, _⟩ | ⟨_, _, hplain⟩
    · exact absurd rfl hhead
    · exact hplain

theorem exists_mem_pattern_of_kept {line : Text}
    (h : line.isAllBlank = true ∨ line.head? = some '#') :
    (splitNegation line).2 = [] ∨ ∃ c ∈ (splitNegation line).2, c ≠ '/' := by
  have hstart : ∀ c ∈ line.head?, c ≠ '!' ∧ c ≠ '/' := by
    intro c hc
    rcases h with hblank | hcomment
    · have hisBlank := List.all_eq_true.mp hblank c (List.mem_of_mem_head? hc)
      constructor
      · intro hsign
        rw [hsign] at hisBlank
        exact absurd hisBlank (by decide)
      · intro hslash
        rw [hslash] at hisBlank
        exact absurd hisBlank (by decide)
    · rw [hcomment] at hc
      cases hc
      decide
  rcases IgnoreRule.splitSign_eq line with ⟨_, rfl, _, _⟩ | ⟨_, _, hsplit⟩
  · exact absurd rfl (hstart '!' rfl).1
  · rw [hsplit]
    cases line with
    | nil =>
        exact Or.inl rfl
    | cons x rest =>
        exact Or.inr ⟨x, List.mem_cons_self, (hstart x rfl).2⟩

theorem scopedLine_signed_append (houter : outer ≠ []) (hinner : inner ≠ [])
    (hstart : ∀ c ∈ inner.head?, c ≠ '#' ∧ c ≠ '!') (line rest : Text) :
    scopedLine outer ((splitNegation line).1 ++ (inner ++ '/' :: rest)) =
      (splitNegation line).1 ++ scopedPattern outer (inner ++ '/' :: rest) := by
  rcases List.exists_cons_of_ne_nil hinner with ⟨x, more, rfl⟩
  rcases hstart x rfl with ⟨hcomment, hsign⟩
  have hsplit : splitNegation ((splitNegation line).1 ++ (x :: more ++ '/' :: rest)) =
      ((splitNegation line).1, x :: more ++ '/' :: rest) :=
    splitNegation_sign_append line (by simpa using hsign)
  rw [IgnoreRule.scopedLine_eq houter, hsplit]
  · apply Bool.eq_false_iff.mpr
    intro hblank
    have hslash := List.all_eq_true.mp hblank '/' (by simp)
    exact absurd hslash (by decide)
  · rcases IgnoreRule.splitSign_eq line with ⟨_, rfl, _, _⟩ | ⟨_, _, hplain⟩
    · simp [splitNegation]
    · rw [hplain]
      simpa using hcomment

/-- A line rewritten for a directory and then for one around it is the line rewritten for both at
once.  This fails only for a pattern of slashes in a directory that has no slash inside. -/
theorem scopedLine_scopedLine_iff (houter : outer ≠ []) (hinner : inner ≠ [])
    (hstart : ∀ c ∈ inner.head?, c ≠ '#' ∧ c ≠ '!' ∧ c ≠ '/') (line : Text) :
    scopedLine outer (scopedLine inner line) = scopedLine (outer ++ '/' :: inner) line ↔
      hasInnerSlash inner = true ∨ (splitNegation line).2 = [] ∨
        ∃ c ∈ (splitNegation line).2, c ≠ '/' := by
  by_cases hkept : line.isAllBlank = true ∨ line.head? = some '#'
  · simp only [IgnoreRule.scopedLine_eq_self (Or.inr hkept)]
    exact iff_of_true trivial (Or.inr (exists_mem_pattern_of_kept hkept))
  · rcases not_or.mp hkept with ⟨hblank, hcomment⟩
    rw [Bool.not_eq_true] at hblank
    have hhead : inner.head? ≠ some '/' := fun h => (hstart '/' h).2.2 rfl
    rw [IgnoreRule.scopedLine_eq hinner hblank hcomment,
      IgnoreRule.scopedLine_eq (List.append_ne_nil_of_left_ne_nil houter _) hblank hcomment,
      scopedPattern_eq_append inner,
      scopedLine_signed_append houter hinner fun c hc => ⟨(hstart c hc).1, (hstart c hc).2.1⟩,
      ← scopedPattern_eq_append, List.append_right_inj]
    exact scopedPattern_scopedPattern_iff hinner hhead _

/-- A negated line of a directory in another one. -/
theorem scopedLine_scopedLine_negated :
    "lib".toList ≠ [] ∧ "src".toList ≠ [] ∧
    (∀ c ∈ "src".toList.head?, c ≠ '#' ∧ c ≠ '!' ∧ c ≠ '/') ∧
    scopedLine "lib".toList (scopedLine "src".toList "!gen//".toList) =
      scopedLine ("lib".toList ++ '/' :: "src".toList) "!gen//".toList := by
  have hstart : ∀ c ∈ "src".toList.head?, c ≠ '#' ∧ c ≠ '!' ∧ c ≠ '/' := by
    intro c hc
    cases hc
    decide
  refine ⟨by decide, by decide, hstart, ?_⟩
  apply (scopedLine_scopedLine_iff (by decide) (by decide) hstart _).mpr
  right
  right
  exact ⟨'g', by decide, by decide⟩

end SourceAudit
