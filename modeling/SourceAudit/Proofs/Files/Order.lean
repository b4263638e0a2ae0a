import SourceAudit.Files.Path

/-!
# The order of paths

## Strict orders

Names and rows of names are in a strict order, and of two different ones one comes before the other.
A row of names goes before another at the first name in which they differ.

What is sorted can be cut in front of any path: the first part holds exactly what comes before it.
-/

namespace SourceAudit

variable {α : Type}

/-- Whether a test of two values is a strict order in which any two different values are ordered. -/
structure IsOrder (isBefore : α → α → Bool) : Prop where
  irrefl : ∀ a, isBefore a a = false
  trans : ∀ {a b c}, isBefore a b = true → isBefore b c = true → isBefore a c = true
  total : ∀ a b, isBefore a b = true ∨ a = b ∨ isBefore b a = true

namespace IsOrder

variable {isBefore : α → α → Bool}

theorem asymm (h : IsOrder isBefore) {a b : α} (hab : isBefore a b = true) :
    isBefore b a = false := by
  cases hba : isBefore b a with
  | false =>
      rfl
  | true =>
      have haa := h.trans hab hba
      rw [h.irrefl a] at haa
      cases haa

theorem not_before_trans (h : IsOrder isBefore) {a b c : α} (hba : isBefore b a = false)
    (hcb : isBefore c b = false) : isBefore c a = false := by
  cases hca : isBefore c a with
  | false =>
      rfl
  | true =>
      rcases h.total b c with hbc | heq | hcb'
      · rw [h.trans hbc hca] at hba
        cases hba
      · rw [heq, hca] at hba
        cases hba
      · rw [hcb'] at hcb
        cases hcb

theorem lex [BEq α] [LawfulBEq α] (h : IsOrder isBefore) :
    IsOrder fun a b : List α => List.lex a b isBefore where
  irrefl := by
    intro a
    rw [List.lex_eq_false_iff_not_lex]
    apply List.lex_irrefl
    intro x hx
    rw [h.irrefl x] at hx
    cases hx
  trans := by
    intro a b c hab hbc
    rw [List.lex_eq_true_iff_lex] at hab hbc ⊢
    exact List.lex_trans h.trans hab hbc
  total := by
    intro a
    simp only [List.lex_eq_true_iff_lex]
    induction a with
    | nil =>
        intro b
        cases b with
        | nil =>
            exact Or.inr (Or.inl rfl)
        | cons y rest =>
            exact Or.inl List.Lex.nil
    | cons x more ih =>
        intro b
        cases b with
        | nil =>
            exact Or.inr (Or.inr List.Lex.nil)
        | cons y rest =>
            rcases h.total x y with hxy | rfl | hyx
            · exact Or.inl (List.Lex.rel hxy)
            · rcases ih rest with hbefore | rfl | hbehind
              · exact Or.inl (List.Lex.cons hbefore)
              · exact Or.inr (Or.inl rfl)
              · exact Or.inr (Or.inr (List.Lex.cons hbehind))
            · exact Or.inr (Or.inr (List.Lex.rel hyx))

theorem not_before_of_mem_dropWhile (h : IsOrder isBefore) {values : List α}
    (hsorted : values.Pairwise fun a b => isBefore b a = false) (bound : α) :
    ∀ b ∈ values.dropWhile (isBefore · bound), isBefore b bound = false := by
  induction values with
  | nil =>
      intro b hb
      cases hb
  | cons a rest ih =>
      rcases List.pairwise_cons.mp hsorted with ⟨hfirst, hrest⟩
      rw [List.dropWhile_cons]
      cases ha : isBefore a bound with
      | true =>
          exact ih hrest
      | false =>
          intro b hb
          rcases List.mem_cons.mp hb with rfl | hb
          · exact ha
          · exact h.not_before_trans ha (hfirst b hb)

end IsOrder

namespace Path

/-!
# Names and rows of names
-/

theorem isOrder_nameBefore : IsOrder nameBefore := by
  apply IsOrder.lex
  constructor
  · intro x
    simp
  · intro x y z hxy hyz
    simp only [decide_eq_true_eq] at hxy hyz ⊢
    exact Nat.lt_trans hxy hyz
  · intro x y
    simp only [decide_eq_true_eq]
    rcases Nat.lt_trichotomy x.toNat y.toNat with hlt | heq | hlt
    · exact Or.inl hlt
    · exact Or.inr (Or.inl (Char.toNat_inj.mp heq))
    · exact Or.inr (Or.inr hlt)

theorem isOrder_namesBefore : IsOrder namesBefore :=
  isOrder_nameBefore.lex

theorem namesBefore_cons (name name' : Text) (names names' : List Text) :
    namesBefore (name :: names) (name' :: names') =
      (nameBefore name name' || (name == name' && namesBefore names names')) := rfl

theorem namesBefore_append (front names names' : List Text) :
    namesBefore (front ++ names) (front ++ names') = namesBefore names names' := by
  induction front with
  | nil =>
      rfl
  | cons name rest ih =>
      rw [List.cons_append, List.cons_append, namesBefore_cons, isOrder_nameBefore.irrefl, ih]
      simp

theorem pairwise_sortNames (paths : List (List Text)) :
    (sortNames paths).Pairwise fun a b => namesBefore b a = false := by
  have hsorted : (sortNames paths).Pairwise fun a b => (!namesBefore b a) = true := by
    apply List.pairwise_mergeSort
    · intro a b c hab hbc
      rw [Bool.not_eq_true'] at hab hbc ⊢
      exact isOrder_namesBefore.not_before_trans hab hbc
    · intro a b
      rcases isOrder_namesBefore.total a b with hab | rfl | hba
      · simp [isOrder_namesBefore.asymm hab]
      · simp [isOrder_namesBefore.irrefl]
      · simp [isOrder_namesBefore.asymm hba]
  apply hsorted.imp
  intro a b hab
  simpa using hab

theorem sortNames_eq_self {paths : List (List Text)}
    (h : paths.Pairwise fun a b => namesBefore b a = false) : sortNames paths = paths := by
  apply List.mergeSort_of_pairwise
  apply h.imp
  intro a b hab
  rw [hab]
  rfl

/-- What is sorted can be cut in front of a path: the first part holds what comes before it. -/
theorem exists_cut_sortNames (paths : List (List Text)) (bound : List Text) :
    ∃ front back, sortNames paths = front ++ back ∧
      (∀ path ∈ front, namesBefore path bound = true) ∧
      ∀ path ∈ back, namesBefore path bound = false := by
  refine ⟨(sortNames paths).takeWhile (namesBefore · bound),
    (sortNames paths).dropWhile (namesBefore · bound),
    List.takeWhile_append_dropWhile.symm, ?_, ?_⟩
  · intro path hpath
    exact List.all_eq_true.mp List.all_takeWhile path hpath
  · exact isOrder_namesBefore.not_before_of_mem_dropWhile (pairwise_sortNames paths) bound

end Path
end SourceAudit
