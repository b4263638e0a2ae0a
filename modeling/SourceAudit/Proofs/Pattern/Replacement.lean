import SourceAudit.Proofs.Pattern.Scan

/-!
# Replacing what is read

## From left to right

A text in which readings are replaced is passed from left to right: a character at which nothing is
read stays, and what is read gives way to its value.  The list of places is then no longer needed.
-/

namespace SourceAudit

open Cursor (between)

namespace Pattern

/-!
# The first success of a run
-/

theorem exists_of_run_eq_some {α : Type} {p : Pattern} {c : Cursor} {k : Cursor → Option α}
    {found : α} (h : p.run c k = some found) : ∃ d ∈ p.ends c, k d = some found := by
  rw [run_eq_findSome?] at h
  exact List.exists_of_findSome?_eq_some h

theorem run_exactly_between {α : Type} (x : Char) (before rest : Text)
    (k : Cursor → Option α) :
    (exactly x).run (between before (x :: rest)) k = k (between (before ++ [x]) rest) := by
  simp [exactly, run, between]

theorem firstOver_append {α : Type} {accepts : Char → Bool} {attempt : Cursor → Option α}
    {found : α} {piece rest : Text} (before : Text) (hpiece : ∀ x ∈ piece, accepts x = true)
    (hfail : ∀ u v, piece = u ++ v → v ≠ [] → attempt (between (before ++ u) (v ++ rest)) = none)
    (hfound : attempt (between (before ++ piece) rest) = some found) :
    Cursor.firstOver accepts attempt before.length before.getLast? (piece ++ rest) =
      some found := by
  induction piece generalizing before with
  | nil =>
      rw [List.append_nil] at hfound
      have hhere : attempt ⟨before.length, before.getLast?, rest⟩ = some found := hfound
      rw [List.nil_append]
      unfold Cursor.firstOver
      cases rest with
      | nil =>
          exact hhere
      | cons x later =>
          rw [hhere]
  | cons x later ih =>
      have hhere : attempt ⟨before.length, before.getLast?, x :: (later ++ rest)⟩ = none := by
        have hfirst := hfail [] (x :: later) rfl (List.cons_ne_nil _ _)
        rw [List.append_nil] at hfirst
        exact hfirst
      have hlater := ih (before ++ [x]) (fun y hy => hpiece y (List.mem_cons_of_mem x hy)) ?_ ?_
      · rw [List.length_append, List.getLast?_concat] at hlater
        rw [List.cons_append]
        unfold Cursor.firstOver
        rw [hhere, if_pos (hpiece x List.mem_cons_self)]
        exact hlater
      · intro u v hsplit hne
        have hnext := hfail (x :: u) v (by rw [hsplit]; rfl) hne
        rw [List.append_assoc]
        exact hnext
      · rw [List.append_assoc]
        exact hfound

end Pattern

namespace Reader

/-!
# Replacement
-/

variable {read : Reader Text}

/-- Whether the text behind some other text is replaced by a third one: where nothing is read, a
character stays, and what is read is replaced by its value. -/
inductive Replaces (read : Reader Text) : Text → Text → Text → Prop where
  | done (before : Text) : read (between before []) = none → Replaces read before [] []
  | keep {before rest out : Text} {x : Char} : read (between before (x :: rest)) = none →
      Replaces read (before ++ [x]) rest out → Replaces read before (x :: rest) (x :: out)
  | take {before piece after out value : Text} : piece ≠ [] →
      read (between before (piece ++ after)) = some (between (before ++ piece) after, value) →
      Replaces read (before ++ piece) after out →
      Replaces read before (piece ++ after) (value ++ out)

def placesBehind (before rest : Text) : List Cursor :=
  (Cursor.walkOnto [] before.length before.getLast? rest).reverse

theorem placesBehind_cons (before : Text) (x : Char) (rest : Text) :
    placesBehind before (x :: rest) =
      between before (x :: rest) :: placesBehind (before ++ [x]) rest := by
  unfold placesBehind
  rw [Cursor.reverse_walkOnto_cons, List.length_append, List.getLast?_concat]
  rfl

section Steps

variable {before rest : Text} {x : Char} {resume : Nat} (passed : Text)

theorem replaceOnto_pass (h : before.length < resume) :
    read.replaceOnto resume passed (placesBehind before (x :: rest)) =
      read.replaceOnto resume passed (placesBehind (before ++ [x]) rest) := by
  have hplace : (between before (x :: rest)).pos < resume := h
  rw [placesBehind_cons, replaceOnto, if_pos hplace]

theorem replaceOnto_keep (h : resume ≤ before.length)
    (hread : read (between before (x :: rest)) = none) :
    read.replaceOnto resume passed (placesBehind before (x :: rest)) =
      read.replaceOnto resume (x :: passed) (placesBehind (before ++ [x]) rest) := by
  have hplace : ¬(between before (x :: rest)).pos < resume := Nat.not_lt_of_le h
  rw [placesBehind_cons, replaceOnto, if_neg hplace, hread]
  rfl

theorem replaceOnto_take (h : resume ≤ before.length) {d : Cursor} {value : Text}
    (hread : read (between before (x :: rest)) = some (d, value)) :
    read.replaceOnto resume passed (placesBehind before (x :: rest)) =
      read.replaceOnto d.pos (value.reverse ++ passed) (placesBehind (before ++ [x]) rest) := by
  have hplace : ¬(between before (x :: rest)).pos < resume := Nat.not_lt_of_le h
  rw [placesBehind_cons, replaceOnto, if_neg hplace, hread]

end Steps

theorem replaceOnto_skip (passed piece before after : Text) {resume : Nat}
    (h : resume = (before ++ piece).length) :
    read.replaceOnto resume passed (placesBehind before (piece ++ after)) =
      read.replaceOnto resume passed (placesBehind (before ++ piece) after) := by
  induction piece generalizing before with
  | nil =>
      rw [List.append_nil, List.nil_append]
  | cons x rest ih =>
      have hlt : before.length < resume := by
        rw [h]
        simp
      have hrest := ih (before ++ [x]) (by rw [h, List.append_assoc]; rfl)
      rw [List.append_assoc] at hrest
      rw [List.cons_append, replaceOnto_pass passed hlt]
      exact hrest

theorem Replaces.replaceOnto_eq {before rest out : Text} (h : Replaces read before rest out)
    {resume : Nat} (hresume : resume ≤ before.length) (passed : Text) :
    read.replaceOnto resume passed (placesBehind before rest) = passed.reverse ++ out := by
  induction h generalizing resume passed with
  | done before hread =>
      have hplace : ¬(between before []).pos < resume := Nat.not_lt_of_le hresume
      rw [show placesBehind before [] = [between before []] from rfl, replaceOnto, if_neg hplace,
        hread, List.append_nil]
      rfl
  | keep hread _ ih =>
      rw [replaceOnto_keep passed hresume hread, ih (by rw [List.length_append]; omega)]
      simp
  | @take before piece after out value hne hread _ ih =>
      cases piece with
      | nil =>
          exact absurd rfl hne
      | cons x later =>
          have hrest := ih (Nat.le_refl _) (value.reverse ++ passed)
          rw [show before ++ x :: later = before ++ [x] ++ later by simp] at hread hrest
          rw [List.cons_append] at hread ⊢
          rw [replaceOnto_take passed hresume hread, Cursor.between_pos,
            replaceOnto_skip _ later (before ++ [x]) after rfl, hrest]
          simp

theorem Replaces.replace_eq {t out : Text} (h : Replaces read [] t out) : read.replace t = out :=
  h.replaceOnto_eq (Nat.le_refl 0) []

end Reader
end SourceAudit
