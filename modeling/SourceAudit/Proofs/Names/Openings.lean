import SourceAudit.Proofs.Names.Bindings

/-!
# Loops and aliases that stay open

## What reaches over the beginning of a header

The header of a loop begins with the word `for`.  What is read in front of it stays as it is, but a
reading that has met neither the word `in` nor a name by then goes on over the beginning of the
header.  In front of the header there is in this case the word `for` with nothing but words, blanks
and commas behind it, or the word `as` with nothing but blanks.  Line feeds are blanks, so such a
word may stand some lines above.
-/

namespace SourceAudit
namespace Names

open Pattern Text

/-- Whether a text is the beginning of a loop or of an alias that does not end there. -/
inductive Opens : Text → Prop where
  | loop {gap targets : Text} : gap ≠ [] → (∀ x ∈ gap, isBlank x = true) →
      (targets = [] ∨ IsTargets targets) →
      (∀ u v, targets = u ++ v → u ≠ [] → ¬EndsTargets v) → Opens ("for".toList ++ (gap ++ targets))
  | named {gap : Text} : gap ≠ [] → (∀ x ∈ gap, isBlank x = true) → Opens ("as".toList ++ gap)

/-- Whether a scan of a text comes to a place where a loop or an alias begins that does not end in
the text. -/
def Swallows (front : Text) : Prop :=
  ∃ a x, front = a ++ x ∧ (∀ y ∈ a.getLast?, isWord y = false) ∧ Opens x ∧ readBinding.Visits a x

theorem Opens.ne_nil {x : Text} (h : Opens x) : x ≠ [] := by
  cases h <;> exact List.cons_ne_nil _ _

/-!
# The end of the targets
-/

theorem EndsTargets.of_append {s tail : Text} (h : EndsTargets (s ++ tail))
    (hsign : ∀ x ∈ tail.head?, x ≠ 'i' ∧ x ≠ 'n')
    (hblank : (∀ x ∈ s, isBlank x = true) → ∀ x ∈ tail.head?, isBlank x = false) :
    EndsTargets s := by
  rcases h with ⟨gap, after, hsplit, hne, hgap, hafter⟩
  rcases append_cases hsplit with ⟨m, rfl, rfl⟩ | ⟨x, m, rfl, hword⟩
  · exfalso
    have hs : ∀ x ∈ s, isBlank x = true := fun x hx => hgap x (List.mem_append_left m hx)
    cases m with
    | nil =>
        exact (hsign 'i' rfl).1 rfl
    | cons x m =>
        have hx := hgap x (by simp)
        rw [hblank hs x rfl] at hx
        cases hx
  · rcases List.cons.inj (show 'i' :: 'n' :: after = x :: (m ++ tail) from hword) with ⟨rfl, hrest⟩
    cases m with
    | nil =>
        have htail : 'n' :: after = tail := hrest
        exact absurd rfl (hsign 'n' (by rw [← htail]; rfl)).2
    | cons y m =>
        rcases List.cons.inj (show 'n' :: after = y :: (m ++ tail) from hrest) with ⟨rfl, rfl⟩
        refine ⟨gap, m, rfl, hne, hgap, ?_⟩
        intro x hx
        apply hafter
        rw [List.head?_append, hx]
        rfl

theorem EndsTargets.append {s : Text} (h : EndsTargets s)
    (hlast : ∀ x ∈ s.getLast?, isWord x = false) (tail : Text) : EndsTargets (s ++ tail) := by
  rcases h with ⟨gap, after, rfl, hne, hgap, hafter⟩
  cases after with
  | nil =>
      have hword := hlast 'n' (by rw [List.getLast?_append]; rfl)
      exact absurd hword (by decide)
  | cons x more =>
      exact ⟨gap, x :: more ++ tail, by simp, hne, hgap, hafter⟩

theorem EndsTargets.of_append_header {s tail : Text} (h : EndsTargets (s ++ tail))
    (htail : tail.head? = some 'f') : EndsTargets s := by
  have hsign : ∀ x ∈ tail.head?, isBlank x = false ∧ x ≠ 'i' ∧ x ≠ 'n' := by
    intro x hx
    rw [htail] at hx
    cases hx
    decide
  exact h.of_append (fun x hx => (hsign x hx).2) fun _ x hx => (hsign x hx).1

theorem endsTargets_append_header_iff {s tail : Text} (hlast : ∀ x ∈ s.getLast?, isWord x = false)
    (htail : tail.head? = some 'f') : EndsTargets (s ++ tail) ↔ EndsTargets s :=
  ⟨fun h => h.of_append_header htail, fun h => h.append hlast tail⟩

/-!
# Readings in front of a header
-/

theorem Binds.isWord_getLast? {piece after : Text} {value : List Text}
    (h : Binds piece after value) : ∃ x ∈ piece.getLast?, isWord x = true := by
  cases h with
  | loop =>
      refine ⟨'n', ?_, by decide⟩
      simp only [← List.append_assoc]
      rw [List.getLast?_append]
      rfl
  | @named gap name _ _ _ hname _ =>
      rw [← List.append_assoc]
      exact hname.exists_isWord_getLast? (List.append_nil name).symm hname.ne_nil _

/-- A text that begins with the word of a header changes no reading in front of it. -/
theorem binds_append_iff {piece after tail : Text} {value : List Text}
    (hlast : ∀ x ∈ (piece ++ after).getLast?, isWord x = false) (htail : tail.head? = some 'f') :
    Binds piece (after ++ tail) value ↔ Binds piece after value := by
  cases after with
  | nil =>
      -- The piece ends with a character of a word, so it does not reach as far as the header.
      have hnone : ∀ rest, ¬Binds piece rest value := by
        intro rest h
        rcases h.isWord_getLast? with ⟨x, hx, hword⟩
        rw [List.append_nil] at hlast
        rw [hlast x hx] at hword
        cases hword
      exact iff_of_false (hnone _) (hnone _)
  | cons y more =>
      have hmore : ∀ x ∈ (y :: more : Text).getLast?, isWord x = false :=
        forall_mem_getLast?_of_append hlast
      have hends : ∀ front : Text, EndsTargets (front ++ ("in".toList ++ (y :: more ++ tail))) ↔
          EndsTargets (front ++ ("in".toList ++ y :: more)) := by
        intro front
        have hassoc : front ++ ("in".toList ++ (y :: more ++ tail)) =
            front ++ ("in".toList ++ y :: more) ++ tail := by
          simp
        rw [hassoc]
        apply endsTargets_append_header_iff _ htail
        rw [← List.append_assoc, List.getLast?_append_of_ne_nil _ (List.cons_ne_nil y more)]
        exact hmore
      constructor
      · intro h
        generalize hrest : y :: more ++ tail = rest at h
        cases h with
        | loop hne hgap htargets hfinishNe hfinish hafter hfirst =>
            rw [← hrest] at hafter hfirst
            refine .loop hne hgap htargets hfinishNe hfinish hafter ?_
            intro u v huv hu hv
            rw [← List.append_assoc, ← hends, List.append_assoc]
            exact hfirst u v huv hu hv
        | named hne hgap hname hafter =>
            rw [← hrest] at hafter
            exact .named hne hgap hname hafter
      · intro h
        generalize hrest : y :: more = rest at h
        cases h with
        | loop hne hgap htargets hfinishNe hfinish hafter hfirst =>
            rw [← hrest] at hafter hfirst ⊢
            refine .loop hne hgap htargets hfinishNe hfinish hafter ?_
            intro u v huv hu hv
            rw [← List.append_assoc, hends, List.append_assoc]
            exact hfirst u v huv hu hv
        | named hne hgap hname hafter =>
            rw [← hrest] at hafter ⊢
            exact .named hne hgap hname hafter

theorem isCut_readBinding {front tail : Text} (hlast : ∀ x ∈ front.getLast?, isWord x = false)
    (htail : tail.head? = some 'f') : readBinding.IsCut front tail := by
  intro a piece after hfront value
  rw [reads_readBinding_iff, reads_readBinding_iff, binds_append_iff _ htail]
  rw [hfront] at hlast
  exact forall_mem_getLast?_of_append hlast

theorem IsTargets.of_append {a b : Text} (h : IsTargets (a ++ b)) (ha : a ≠ []) : IsTargets a := by
  rcases h with ⟨⟨x, more, hx, hstart⟩, hall⟩
  rcases List.exists_cons_of_ne_nil ha with ⟨y, rest, rfl⟩
  rcases List.cons.inj hx with ⟨rfl, _⟩
  exact ⟨⟨y, rest, rfl, hstart⟩, fun z hz => hall z (List.mem_append_left b hz)⟩

theorem Binds.opens {x w after : Text} {value : List Text} (h : Binds (x ++ 'f' :: w) after value)
    (hne : x ≠ []) (hlast : ∀ y ∈ x.getLast?, isWord y = false) : Opens x := by
  have hblanks : ∀ {gap : Text}, (∀ y ∈ gap, isBlank y = true) → 'f' ∉ gap := by
    intro gap hgap hmem
    exact absurd (hgap 'f' hmem) (by decide)
  generalize hpiece : x ++ 'f' :: w = piece at h
  cases h with
  | @loop gap targets finish _ hgapNe hgap htargets _ hfinish _ hfirst =>
      -- The word `for` has its first letter once, and the blanks do not have it.
      rcases List.exists_cons_of_ne_nil hne with ⟨y, more, rfl⟩
      rcases List.cons.inj (show 'f' :: ("or".toList ++ _) = y :: (more ++ 'f' :: w) from
        hpiece.symm) with ⟨rfl, hmore⟩
      rcases exists_append_of_not_mem hmore (by decide) with ⟨m, rfl, hm⟩
      rcases exists_append_of_not_mem hm (hblanks hgap) with ⟨opened, rfl, hopened⟩
      rcases append_cases hopened with ⟨m', rfl, hend⟩ | ⟨y, m', rfl, hend⟩
      · -- The end of the targets does not have the letter either.
        exfalso
        have hmem : 'f' ∈ finish ++ "in".toList := by
          rw [hend]
          simp
        rcases List.mem_append.mp hmem with hmem | hmem
        · exact hblanks hfinish hmem
        · exact absurd hmem (by decide)
      · rcases List.cons.inj hend with ⟨rfl, rfl⟩
        show Opens ("for".toList ++ (gap ++ opened))
        refine .loop hgapNe hgap ?_ ?_
        · rcases Decidable.em (opened = []) with hnil | hopenedNe
          · exact Or.inl hnil
          · exact Or.inr (htargets.of_append hopenedNe)
        · rintro u v rfl hu hends
          rw [List.append_assoc] at hfirst
          apply hfirst u (v ++ 'f' :: m') rfl hu (by simp)
          rw [List.append_assoc]
          apply hends.append
          have hv : ∀ y ∈ ("for".toList ++ (gap ++ u) ++ v).getLast?, isWord y = false := by
            simpa using hlast
          exact forall_mem_getLast?_of_append hv
  | @named gap name _ hgapNe hgap hname _ =>
      rcases exists_append_of_not_mem hpiece.symm (by decide) with ⟨m, rfl, hm⟩
      rcases exists_append_of_not_mem hm (hblanks hgap) with ⟨opened, rfl, hopened⟩
      cases opened with
      | nil =>
          rw [List.append_nil]
          exact .named hgapNe hgap
      | cons y more =>
          -- The text in front of the header does not end within the name.
          exfalso
          rcases hname.exists_isWord_getLast? hopened (List.cons_ne_nil y more)
            ("as".toList ++ gap) with ⟨z, hz, hword⟩
          rw [List.append_assoc] at hz
          rw [hlast z hz] at hword
          cases hword

/-- The place in front of a header is hidden only by what stays open in the text in front. -/
theorem swallows_of_hides {front tail : Text} (hlast : ∀ x ∈ front.getLast?, isWord x = false)
    (htail : tail.head? = some 'f') (h : readBinding.Hides front tail) : Swallows front := by
  rcases (Reader.hides_iff_exists_visits moves_readBinding (isCut_readBinding hlast htail)).mp h with
    ⟨a, x, w, after, value, rfl, hsplit, hx, hw, hvisits, hreads⟩
  rcases List.exists_cons_of_ne_nil hw with ⟨y, more, rfl⟩
  have hy : y = 'f' := by
    rw [hsplit] at htail
    exact Option.some.inj htail
  rw [hy] at hreads
  rcases reads_readBinding_iff.mp hreads with ⟨hbefore, hbinds⟩
  exact ⟨a, x, rfl, hbefore, hbinds.opens hx (forall_mem_getLast?_of_append hlast), hvisits⟩

end Names
end SourceAudit
