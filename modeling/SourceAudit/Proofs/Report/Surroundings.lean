import SourceAudit.Proofs.Growth.Loops
import SourceAudit.Proofs.Pattern.Context
import SourceAudit.Security

/-!
# Findings between other lines

## What surrounding lines cannot hide

The rules about habits and unsafe constructs are patterns that end with a character of their own, so
each of them occurs in a text whenever it occurs in some lines of it.  The loop headers of some
lines are loop headers of the whole text, with the same lines between them.  So more lines around a
text can add findings and raise the guess for its running time, but they take nothing away.
-/

namespace SourceAudit

open Pattern

/-!
# Rules
-/

theorem isClosed_of_mem_practice {rule : Pattern × Finding} (h : rule ∈ Practice.rules) :
    rule.1.IsClosed := by
  simp only [Practice.rules, List.mem_cons, List.not_mem_nil, or_false] at h
  rcases h with rfl | rfl
  · exact isClosed_sequence (by simp [Header.word]) rfl
  · exact isClosed_sequence (by simp) rfl

theorem isClosed_dynamicEvaluation : Security.dynamicEvaluation.IsClosed := by
  have hcalls : (oneOf [literal "eval", literal "exec"]).IsLocal :=
    isLocal_oneOf (by simp)
  exact isClosed_sequence (by simp [hcalls]) rfl

theorem isClosed_of_mem_security {rule : Pattern × Finding} (h : rule ∈ Security.rules) :
    rule.1.IsClosed := by
  rcases List.mem_cons.mp h with rfl | h
  · exact isClosed_dynamicEvaluation
  · rcases List.mem_map.mp h with ⟨label, _, rfl⟩
    exact isClosed_sequence (by simp) rfl

theorem ruleFindings_sublist_between_lines {rules : List (Pattern × Finding)}
    (h : ∀ rule ∈ rules, rule.1.IsClosed) (above t below : Text) :
    (ruleFindings rules t).Sublist
      (ruleFindings rules (above ++ '\n' :: (t ++ '\n' :: below))) := by
  unfold ruleFindings
  apply List.Sublist.map
  induction rules with
  | nil =>
      exact List.Sublist.refl _
  | cons rule rest ih =>
      rcases List.forall_mem_cons.mp h with ⟨hrule, hrest⟩
      rw [List.filter_cons, List.filter_cons]
      cases hoccurs : rule.1.occursIn t with
      | true =>
          rw [if_pos rfl, if_pos (hrule.occursIn_between_lines above below hoccurs)]
          exact (ih hrest).cons_cons rule
      | false =>
          rw [if_neg Bool.false_ne_true]
          split
          · exact (ih hrest).cons rule
          · exact ih hrest

/-!
# Loops
-/

namespace Growth

theorem lines_between_lines (above t below : Text) :
    Text.lines (above ++ '\n' :: (t ++ '\n' :: below)) =
      above.lines ++ (t.lines ++ below.lines) := by
  rw [Text.lines_append_feed, Text.lines_append_feed]

theorem nestedLoops_between_lines (above below : Text) {t : Text}
    (h : nestedLoops.occursIn t = true) :
    nestedLoops.occursIn (above ++ '\n' :: (t ++ '\n' :: below)) = true := by
  apply occursIn_nestedLoops_iff.mpr
  rw [lines_between_lines]
  exact (occursIn_nestedLoops_iff.mp h).append above.lines below.lines

theorem anyLoop_between_lines (above below : Text) {t : Text} (h : anyLoop.occursIn t = true) :
    anyLoop.occursIn (above ++ '\n' :: (t ++ '\n' :: below)) = true := by
  rcases (occursIn_loopHeader_iff areWords_for_while).mp h with ⟨line, hline, hheader⟩
  apply (occursIn_loopHeader_iff areWords_for_while).mpr
  refine ⟨line, ?_, hheader⟩
  rw [lines_between_lines]
  simp [hline]

theorem rank_ofTime_le {t t' : Text}
    (hnested : nestedLoops.occursIn t = true → nestedLoops.occursIn t' = true)
    (hloop : anyLoop.occursIn t = true → anyLoop.occursIn t' = true) :
    (ofTime t).rank ≤ (ofTime t').rank := by
  unfold ofTime
  cases hfirst : nestedLoops.occursIn t with
  | true =>
      rw [hnested hfirst]
      exact Nat.le_refl _
  | false =>
      cases hsecond : anyLoop.occursIn t with
      | true =>
          rw [hloop hsecond]
          cases nestedLoops.occursIn t' <;> decide
      | false =>
          exact Nat.zero_le _

end Growth

/-!
# All passes
-/

/-- Lines above and below a text hide none of its findings about unsafe constructs and habits, whose
order stays, and do not lower the guess for its running time. -/
theorem findings_kept_between_lines (above t below : Text) :
    (securityFindings t).Sublist (securityFindings (above ++ '\n' :: (t ++ '\n' :: below))) ∧
    (practiceFindings t).Sublist (practiceFindings (above ++ '\n' :: (t ++ '\n' :: below))) ∧
    (Growth.ofTime t).rank ≤
      (Growth.ofTime (above ++ '\n' :: (t ++ '\n' :: below))).rank := by
  refine ⟨?_, ?_, ?_⟩
  · exact ruleFindings_sublist_between_lines (fun _ => isClosed_of_mem_security) above t below
  · exact ruleFindings_sublist_between_lines (fun _ => isClosed_of_mem_practice) above t below
  · exact Growth.rank_ofTime_le (Growth.nestedLoops_between_lines above below)
      (Growth.anyLoop_between_lines above below)

end SourceAudit
