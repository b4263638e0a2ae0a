import SourceAudit.Proofs.Text.Cut
import SourceAudit.Text.Blank

/-!
# Blanks at the ends of a text

## What is left

Stripping takes blanks from both ends of a text.  So a text that does not begin or end with a blank
is found again between blanks, and every other character of a text stays.
-/

namespace SourceAudit
namespace Text

theorem exists_eq_append_strip (t : Text) :
    ∃ left right, t = left ++ (strip t ++ right) ∧ (∀ x ∈ left, isBlank x = true) ∧
      ∀ x ∈ right, isBlank x = true := by
  rcases exists_eq_dropEndWhile_append isBlank (stripLeft t) with ⟨right, hstripped, hright⟩
  refine ⟨t.takeWhile isBlank, right, ?_, List.all_eq_true.mp List.all_takeWhile, hright⟩
  calc
    t = t.takeWhile isBlank ++ stripLeft t := List.takeWhile_append_dropWhile.symm
    _ = t.takeWhile isBlank ++ (strip t ++ right) := congrArg _ hstripped

theorem length_strip_le (t : Text) : (strip t).length ≤ t.length := by
  rcases exists_eq_append_strip t with ⟨left, right, ht, _⟩
  have hlength := congrArg List.length ht
  simp only [List.length_append] at hlength
  omega

theorem mem_strip {t : Text} {x : Char} (hmem : x ∈ t) (hx : isBlank x = false) : x ∈ strip t := by
  rcases exists_eq_append_strip t with ⟨left, right, ht, hleft, hright⟩
  rw [ht] at hmem
  simp only [List.mem_append] at hmem
  rcases hmem with hmem | hmem | hmem
  · rw [hleft x hmem] at hx
    cases hx
  · exact hmem
  · rw [hright x hmem] at hx
    cases hx

theorem strip_append_append {left t right : Text} (hleft : ∀ x ∈ left, isBlank x = true)
    (hright : ∀ x ∈ right, isBlank x = true) (hne : t ≠ [])
    (hhead : ∀ x ∈ t.head?, isBlank x = false) (hlast : ∀ x ∈ t.getLast?, isBlank x = false) :
    strip (left ++ (t ++ right)) = t := by
  have hfront : stripLeft (left ++ (t ++ right)) = t ++ right := by
    unfold stripLeft
    rw [List.dropWhile_append_of_pos hleft]
    rcases List.exists_cons_of_ne_nil hne with ⟨x, more, rfl⟩
    rw [List.cons_append, List.dropWhile_cons, hhead x rfl]
    rfl
  unfold strip
  rw [hfront]
  unfold stripRight dropEndWhile
  rw [List.reverse_append, List.dropWhile_append_of_pos fun x hx => hright x (List.mem_reverse.mp hx)]
  exact dropEndWhile_eq_self hlast

end Text
end SourceAudit
