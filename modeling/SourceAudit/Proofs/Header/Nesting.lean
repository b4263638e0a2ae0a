import Mathlib.Data.List.Basic
import SourceAudit.Header
import SourceAudit.Proofs.Pattern.Spans
import SourceAudit.Proofs.Text.Cut
import SourceAudit.Proofs.Text.Words

/-!
# Headers inside of headers

## Where a second keyword can begin

A header begins with a keyword, blanks and a word.  Behind its word and perhaps some blanks comes a
sign: the parenthesis that opens its list, or the colon that ends it.  No other header begins before
that sign, since the keyword, a blank and a word could not follow one another at any place there.

So a header that begins inside of another begins inside of its parentheses.  Both have the same
first closing parenthesis, unless the inner one ends before it, and so the inner header ends no
later.
-/

namespace SourceAudit

open Pattern

theorem append_sign_inj {sign : Char} {front front' back back' : Text}
    (h : front ++ sign :: back = front' ++ sign :: back') (hfront : ∀ x ∈ front, x ≠ sign)
    (hfront' : ∀ x ∈ front', x ≠ sign) : front = front' ∧ back = back' := by
  have hother : ∀ {t : Text}, (∀ x ∈ t, x ≠ sign) → ∀ x ∈ t, (x != sign) = true :=
    fun ht x hx => bne_iff_ne.mpr (ht x hx)
  have hhead : ∀ {t : Text}, ∀ x ∈ (sign :: t).head?, (x != sign) = false := by
    intro t x hx
    cases hx
    exact bne_self_eq_false sign
  rcases append_inj_of_class h (hother hfront) hhead (hother hfront') hhead with ⟨rfl, hback⟩
  exact ⟨rfl, (List.cons.inj hback).2⟩

namespace Header

/-- Whether a text is a word. -/
def IsWord (word : Text) : Prop :=
  word ≠ [] ∧ ∀ x ∈ word, Text.isWord x = true

theorem isWord_iff_all {word : Text} :
    IsWord word ↔ word ≠ [] ∧ word.all Text.isWord = true := by
  unfold IsWord
  rw [List.all_eq_true]

instance (word : Text) : Decidable (IsWord word) :=
  decidable_of_iff _ isWord_iff_all.symm

theorem IsWord.isWord_head? {word : Text} (h : IsWord word) (after : Text) :
    ∀ x ∈ (word ++ after).head?, Text.isWord x = true := by
  intro x hx
  rw [List.head?_append_of_ne_nil word h.1] at hx
  exact h.2 x (List.mem_of_mem_head? hx)

/-- Whether a text begins as a header does: a keyword, blanks and a word. -/
def Begins (keyword rest : Text) : Prop :=
  ∃ gap x more, rest = keyword ++ (gap ++ x :: more) ∧ gap ≠ [] ∧
    (∀ y ∈ gap, Text.isBlank y = true) ∧ Text.isWord x = true

theorem begins_of_isWord {keyword gap word more : Text} (hgap : gap ≠ [])
    (hblank : ∀ x ∈ gap, Text.isBlank x = true) (hword : IsWord word) :
    Begins keyword (keyword ++ (gap ++ (word ++ more))) := by
  cases word with
  | nil =>
      exact absurd rfl hword.1
  | cons x rest =>
      exact ⟨gap, x, rest ++ more, rfl, hgap, hblank, hword.2 x List.mem_cons_self⟩

section Keyword

variable {keyword : Text} (hkeyword : IsWord keyword)

include hkeyword

theorem Begins.isWord_head? {rest : Text} (h : Begins keyword rest) :
    ∀ x ∈ rest.head?, Text.isWord x = true := by
  rcases h with ⟨gap, x, more, rfl, _⟩
  exact hkeyword.isWord_head? _

theorem Begins.eq_keyword {run rest : Text} (h : Begins keyword (run ++ rest))
    (hrun : ∀ x ∈ run, Text.isWord x = true) (hrest : ∀ x ∈ rest.head?, Text.isWord x = false) :
    run = keyword ∧ ∃ gap x more, rest = gap ++ x :: more ∧
      (∀ y ∈ gap, Text.isBlank y = true) ∧ Text.isWord x = true := by
  rcases h with ⟨gap, x, more, hsplit, hgap, hblank, hx⟩
  have hhead : ∀ y ∈ (gap ++ x :: more).head?, Text.isWord y = false := by
    intro y hy
    rw [List.head?_append_of_ne_nil gap hgap] at hy
    exact Text.isWord_eq_false_of_isBlank (hblank y (List.mem_of_mem_head? hy))
  rcases append_inj_of_class hsplit hrun hrest hkeyword.2 hhead with ⟨rfl, rfl⟩
  exact ⟨rfl, gap, x, more, rfl, hblank, hx⟩

theorem ne_of_mem_start {gap word space : Text} {sign : Char}
    (hgap : ∀ x ∈ gap, Text.isBlank x = true) (hword : IsWord word)
    (hspace : ∀ x ∈ space, Text.isBlank x = true) (hblank : Text.isBlank sign = false)
    (hsign : Text.isWord sign = false) :
    ∀ x ∈ keyword ++ (gap ++ (word ++ space)), x ≠ sign := by
  intro x hx heq
  have hclass : Text.isWord x = true ∨ Text.isBlank x = true := by
    simp only [List.mem_append] at hx
    rcases hx with hx | hx | hx | hx
    · exact Or.inl (hkeyword.2 x hx)
    · exact Or.inr (hgap x hx)
    · exact Or.inl (hword.2 x hx)
    · exact Or.inr (hspace x hx)
  rw [heq, hblank, hsign] at hclass
  simp at hclass

theorem ne_closing_of_mem_start {gap word space inner : Text}
    (hgap : ∀ x ∈ gap, Text.isBlank x = true) (hword : IsWord word)
    (hspace : ∀ x ∈ space, Text.isBlank x = true) (hinner : ∀ x ∈ inner, x ≠ ')') :
    ∀ x ∈ keyword ++ (gap ++ (word ++ space)) ++ '(' :: inner, x ≠ ')' := by
  intro x hx
  rcases List.mem_append.mp hx with hx | hx
  · exact ne_of_mem_start hkeyword hgap hword hspace (by decide) (by decide) x hx
  · rcases List.mem_cons.mp hx with rfl | hx
    · decide
    · exact hinner x hx

theorem exists_behind_sign {gap word space inner left rest : Text} {sign : Char} (hgap : gap ≠ [])
    (hgapBlank : ∀ x ∈ gap, Text.isBlank x = true) (hword : IsWord word)
    (hspace : ∀ x ∈ space, Text.isBlank x = true) (hblank : Text.isBlank sign = false)
    (hsign : Text.isWord sign = false)
    (hsplit : keyword ++ (gap ++ (word ++ (space ++ sign :: inner))) = left ++ rest)
    (hleft : left ≠ []) (hrest : Begins keyword rest) :
    ∃ behind, left = keyword ++ (gap ++ (word ++ (space ++ sign :: behind))) ∧
      inner = behind ++ rest := by
  have hhead := hrest.isWord_head? hkeyword
  -- The first character of the second header is none of the blanks.
  have hnotBlank : ∀ {x : Char} {m after : Text}, rest = x :: m ++ after →
      Text.isBlank x = true → False := by
    intro x m after hx hxBlank
    have hxWord := hhead x (by rw [hx]; rfl)
    rw [Text.isWord_eq_false_of_isBlank hxBlank] at hxWord
    cases hxWord
  rcases append_cases hsplit with ⟨fromGap, rfl, hgapSplit⟩ | ⟨x, m, hkey, rfl⟩
  · rcases append_cases hgapSplit with ⟨fromWord, rfl, hwordSplit⟩ | ⟨x, m, hx, hrest'⟩
    · rcases append_cases hwordSplit with ⟨fromSpace, rfl, hspaceSplit⟩ | ⟨x, m, hx, rfl⟩
      · rcases append_cases hspaceSplit with ⟨fromSign, rfl, hsignSplit⟩ | ⟨x, m, hx, hrest'⟩
        · cases fromSign with
          | nil =>
              have hrest : rest = sign :: inner := hsignSplit.symm
              have hfirst := hhead sign (by rw [hrest]; rfl)
              rw [hsign] at hfirst
              cases hfirst
          | cons x behind =>
              rcases List.cons.inj hsignSplit with ⟨rfl, rfl⟩
              exact ⟨behind, rfl, rfl⟩
        · exact (hnotBlank hrest' (hspace x (by rw [hx]; simp))).elim
      · -- In the word: the rest of the word would be the keyword, and the sign a word.
        exfalso
        have hrun : ∀ y ∈ x :: m, Text.isWord y = true := by
          intro y hy
          exact hword.2 y (by rw [hx]; exact List.mem_append_right fromWord hy)
        have hstop : ∀ y ∈ (space ++ sign :: inner).head?, Text.isWord y = false := by
          intro y hy
          cases space with
          | nil =>
              cases hy
              exact hsign
          | cons z space =>
              cases hy
              exact Text.isWord_eq_false_of_isBlank (hspace _ List.mem_cons_self)
        rcases hrest.eq_keyword hkeyword hrun hstop with ⟨_, gap', y, more, heq, hgap', hy⟩
        have hsignHead : ∀ z ∈ (sign :: inner).head?, Text.isBlank z = false := by
          intro z hz
          cases hz
          exact hblank
        have hyHead : ∀ z ∈ (y :: more).head?, Text.isBlank z = false := by
          intro z hz
          cases hz
          exact Text.isBlank_eq_false_of_isWord hy
        rcases append_inj_of_class heq hspace hsignHead hgap' hyHead with ⟨_, hcons⟩
        rw [← (List.cons.inj hcons).1, hsign] at hy
        cases hy
    · exact (hnotBlank hrest' (hgapBlank x (by rw [hx]; simp))).elim
  · -- In the keyword: its rest would be the whole keyword.
    exfalso
    have hrun : ∀ y ∈ x :: m, Text.isWord y = true := by
      intro y hy
      exact hkeyword.2 y (by rw [hkey]; exact List.mem_append_right left hy)
    have hstop : ∀ y ∈ (gap ++ (word ++ (space ++ sign :: inner))).head?,
        Text.isWord y = false := by
      intro y hy
      rw [List.head?_append_of_ne_nil gap hgap] at hy
      exact Text.isWord_eq_false_of_isBlank (hgapBlank y (List.mem_of_mem_head? hy))
    have hwhole := (hrest.eq_keyword hkeyword hrun hstop).1
    rw [hwhole] at hkey
    exact hleft (List.self_eq_append_left.mp hkey)

end Keyword

end Header
end SourceAudit
