import SourceAudit.Output.Emoji
import SourceAudit.Proofs.Pattern.Replacement
import SourceAudit.Proofs.Text.Cut

/-!
# Codes on the screen

## When a text is drawn as it is

A code stands between two colons of one word, and the first two colons of a word make its first
code.  A text is drawn as it is exactly if none of its codes is the name of a picture.  Characters
other than colons, at the ends of a text or behind a blank, make no difference to the codes.
-/

namespace SourceAudit
namespace Emoji

open Cursor (between)

/-!
# Codes
-/

/-- Every second piece of a word that is cut at its colons, as long as one more piece follows. -/
def codesOf : List Text → List Text
  | _ :: code :: after :: rest => code :: codesOf (after :: rest)
  | _ => []

/-- The codes in a text: words end at blanks, and no code is in two words. -/
def codesIn (t : Text) : List Text :=
  (t.cutWhere Text.isBlank).flatMap fun word => codesOf (word.cutAt ':')

/-- Whether a text can stand between the two colons of a code. -/
def IsPlain (body : Text) : Prop :=
  ∀ x ∈ body, x ≠ ':' ∧ Text.isBlank x = false

def Opens (t : Text) : Prop :=
  ∃ body after, IsPlain body ∧ t = ':' :: (body ++ ':' :: after)

theorem codesOf_cons (x : Char) (piece : Text) (later : List Text) :
    codesOf ((x :: piece) :: later) = codesOf (piece :: later) := by
  cases later with
  | nil =>
      rfl
  | cons code rest =>
      cases rest <;> rfl

/-- A text is met code by code: by characters that begin no code, and by whole codes. -/
theorem code_induction {P : Text → Prop} (nil : P [])
    (skip : ∀ x rest, ¬Opens (x :: rest) → P rest → P (x :: rest))
    (code : ∀ body after, IsPlain body → P after → P (':' :: (body ++ ':' :: after)))
    (t : Text) : P t := by
  induction hlength : t.length using Nat.strongRecOn generalizing t with
  | ind length ih =>
      by_cases hopens : Opens t
      · rcases hopens with ⟨body, after, hbody, rfl⟩
        apply code body after hbody
        apply ih after.length _ after rfl
        rw [← hlength]
        simp
        omega
      · cases t with
        | nil =>
            exact nil
        | cons x rest =>
            apply skip x rest hopens
            apply ih rest.length _ rest rfl
            rw [← hlength]
            exact Nat.lt_succ_self rest.length

theorem exists_cutWhere_append {isSeparator : Char → Bool} {piece : Text}
    (h : ∀ x ∈ piece, isSeparator x = false) (t : Text) :
    ∃ first later, t.cutWhere isSeparator = first :: later ∧
      (piece ++ t).cutWhere isSeparator = (piece ++ first) :: later := by
  refine ⟨(t.cut isSeparator).1, (t.cut isSeparator).2, rfl, ?_⟩
  induction piece with
  | nil =>
      rfl
  | cons x rest ih =>
      have hrest := List.cons.inj (ih fun y hy => h y (List.mem_cons_of_mem x hy))
      have hx : ¬isSeparator x = true := by
        simp [h x List.mem_cons_self]
      unfold Text.cutWhere
      rw [List.cons_append, Text.cut_cons, if_neg hx]
      show (x :: _) :: _ = (x :: _) :: _
      rw [hrest.1, hrest.2]
      rfl

theorem codesIn_append_blank {b : Char} (hb : Text.isBlank b = true) (t u : Text) :
    codesIn (t ++ b :: u) = codesIn t ++ codesIn u := by
  unfold codesIn
  rw [Text.cutWhere_append_separator hb, List.flatMap_append]

theorem codesIn_cons_of_ne {x : Char} (hx : x ≠ ':') (t : Text) :
    codesIn (x :: t) = codesIn t := by
  cases hblank : Text.isBlank x with
  | true =>
      exact codesIn_append_blank hblank [] t
  | false =>
      have hplain : ∀ y ∈ [x], Text.isBlank y = false := by
        simpa using hblank
      rcases exists_cutWhere_append hplain t with ⟨word, words, hcut, hcons⟩
      have hcolon : ∀ y ∈ [x], (y == ':') = false := by
        simpa using hx
      rcases exists_cutWhere_append hcolon word with ⟨piece, pieces, hword, hpiece⟩
      unfold codesIn
      rw [hcut, show Text.cutWhere Text.isBlank (x :: t) = _ from hcons, List.flatMap_cons,
        List.flatMap_cons]
      unfold Text.cutAt
      rw [hpiece, hword]
      show codesOf ((x :: piece) :: pieces) ++ _ = _
      rw [codesOf_cons]

theorem codesIn_append_of_not_mem {front : Text} (h : ':' ∉ front) (t : Text) :
    codesIn (front ++ t) = codesIn t := by
  induction front with
  | nil =>
      rfl
  | cons x rest ih =>
      rw [List.mem_cons, not_or] at h
      rw [List.cons_append, codesIn_cons_of_ne (Ne.symm h.1), ih h.2]

theorem codesIn_of_not_mem {t : Text} (h : ':' ∉ t) : codesIn t = [] := by
  rw [← List.append_nil t, codesIn_append_of_not_mem h]
  rfl

theorem codesIn_code {body : Text} (h : IsPlain body) (after : Text) :
    codesIn (':' :: (body ++ ':' :: after)) = body :: codesIn after := by
  have hblank : ∀ x ∈ ':' :: (body ++ [':']), Text.isBlank x = false := by
    intro x hx
    simp only [List.mem_cons, List.mem_append, List.not_mem_nil, or_false] at hx
    rcases hx with rfl | hx | rfl
    · decide
    · exact (h x hx).2
    · decide
  have hcolon : ':' ∉ body :=
    fun hmem => (h ':' hmem).1 rfl
  rcases exists_cutWhere_append hblank after with ⟨word, words, hcut, hcons⟩
  have hpieces : Text.cutAt ':' (':' :: (body ++ ':' :: word)) = [] :: body :: word.cutAt ':' := by
    rw [Text.cutAt_cons_self, Text.cutAt_append_cons, Text.cutAt_of_not_mem hcolon]
    rfl
  have htext : ':' :: (body ++ ':' :: after) = ':' :: (body ++ [':']) ++ after := by
    simp
  have hword : ':' :: (body ++ [':']) ++ word = ':' :: (body ++ ':' :: word) := by
    simp
  unfold codesIn
  rw [htext, hcons, hcut, List.flatMap_cons, List.flatMap_cons, hword, hpieces]
  cases hrest : word.cutAt ':' with
  | nil =>
      exact absurd hrest (Text.cutAt_ne_nil ':' word)
  | cons piece pieces =>
      rfl

theorem not_opens_cases {t : Text} (h : ¬Opens (':' :: t)) :
    IsPlain t ∨ ∃ body b after, IsPlain body ∧ Text.isBlank b = true ∧ t = body ++ b :: after := by
  induction t with
  | nil =>
      left
      intro x hx
      cases hx
  | cons x rest ih =>
      have hcolon : x ≠ ':' := by
        rintro rfl
        exact h ⟨[], rest, fun y hy => absurd hy List.not_mem_nil, rfl⟩
      cases hblank : Text.isBlank x with
      | true =>
          right
          exact ⟨[], x, rest, fun y hy => absurd hy List.not_mem_nil, hblank, rfl⟩
      | false =>
          have hcons : ∀ {body : Text}, IsPlain body → IsPlain (x :: body) := by
            intro body hbody y hy
            rcases List.mem_cons.mp hy with rfl | hy
            · exact ⟨hcolon, hblank⟩
            · exact hbody y hy
          have hrest : ¬Opens (':' :: rest) := by
            intro hopens
            rcases hopens with ⟨body, after, hbody, htext⟩
            apply h
            exact ⟨x :: body, after, hcons hbody, by rw [(List.cons.inj htext).2]; rfl⟩
          rcases ih hrest with hplain | ⟨body, b, after, hbody, hb, rfl⟩
          · exact Or.inl (hcons hplain)
          · exact Or.inr ⟨x :: body, b, after, hcons hbody, hb, rfl⟩

theorem IsPlain.not_mem {body : Text} (h : IsPlain body) : ':' ∉ body :=
  fun hmem => (h ':' hmem).1 rfl

theorem codesIn_colon_of_isPlain {body : Text} (h : IsPlain body) : codesIn (':' :: body) = [] := by
  have hblank : ∀ x ∈ ':' :: body, Text.isBlank x = false := by
    intro x hx
    rcases List.mem_cons.mp hx with rfl | hx
    · decide
    · exact (h x hx).2
  have hword : Text.cutWhere Text.isBlank (':' :: body) = [':' :: body] := by
    rcases exists_cutWhere_append hblank [] with ⟨word, words, hcut, hcons⟩
    cases hcut
    rw [List.append_nil] at hcons
    rw [hcons]
    exact congrArg (fun word => [word]) (List.append_nil _)
  unfold codesIn
  rw [hword, List.flatMap_cons, Text.cutAt_cons_self, Text.cutAt_of_not_mem h.not_mem]
  rfl

theorem codesIn_skip {x : Char} {rest : Text} (h : ¬Opens (x :: rest)) :
    codesIn (x :: rest) = codesIn rest := by
  by_cases hx : x = ':'
  · rw [hx] at h ⊢
    rcases not_opens_cases h with hplain | ⟨body, b, after, hbody, hb, rfl⟩
    · rw [codesIn_colon_of_isPlain hplain, codesIn_of_not_mem hplain.not_mem]
    · rw [codesIn_append_blank hb, codesIn_of_not_mem hbody.not_mem,
        show ':' :: (body ++ b :: after) = (':' :: body) ++ b :: after from rfl,
        codesIn_append_blank hb, codesIn_colon_of_isPlain hbody]
  · exact codesIn_cons_of_ne hx rest

theorem codesIn_append_not_mem (t : Text) {tail : Text} (h : ':' ∉ tail) :
    codesIn (t ++ tail) = codesIn t := by
  induction t using code_induction with
  | nil =>
      exact codesIn_of_not_mem h
  | skip x rest hskip ih =>
      have hlater : ¬Opens (x :: (rest ++ tail)) := by
        intro hopens
        rcases hopens with ⟨body, after, hbody, htext⟩
        rcases append_cases (List.cons.inj htext).2 with ⟨m, _, htail⟩ | ⟨y, m, hrest, hafter⟩
        · apply h
          rw [htail]
          exact List.mem_append_right m List.mem_cons_self
        · apply hskip
          rw [(List.cons.inj htext).1, hrest, ← (List.cons.inj hafter).1]
          exact ⟨body, m, hbody, rfl⟩
      rw [List.cons_append, codesIn_skip hlater, codesIn_skip hskip, ih]
  | code body after hbody ih =>
      rw [List.cons_append, List.append_assoc, List.cons_append, codesIn_code hbody,
        codesIn_code hbody, ih]

/-!
# Names and forms
-/

def endings : List (Text × Text) :=
  ([], []) :: forms.map fun form => ('-' :: form.1.toList, [form.2])

def nameAndForm (code : Text) : Text × Text :=
  match forms.find? fun form => ('-' :: form.1.toList).isSuffixOf code with
  | some form => (code.take (code.length - (form.1.length + 1)), [form.2])
  | none => (code, [])

def pictureOf? (table : Table) (code : Text) : Option Text :=
  picture? table (nameAndForm code).1 (nameAndForm code).2

theorem eq_of_suffix_of_mem_endings :
    ∀ ending ∈ endings, ∀ other ∈ endings, ending.1 ≠ [] → ending.1 <:+ other.1 →
      ending.1 = other.1 := by
  decide

theorem exists_ending (code : Text) :
    ∃ ending, code = (nameAndForm code).1 ++ ending ∧ (ending, (nameAndForm code).2) ∈ endings ∧
      ∀ u v, (nameAndForm code).1 = u ++ v → v ≠ [] → ∀ form, (v ++ ending, form) ∉ endings := by
  unfold nameAndForm
  cases hfind : forms.find? fun form => ('-' :: form.1.toList).isSuffixOf code with
  | none =>
      refine ⟨[], (List.append_nil code).symm, List.mem_cons_self, ?_⟩
      intro u v hsplit hne form hmem
      rw [List.append_nil] at hmem
      rcases List.mem_cons.mp hmem with hnil | hform
      · exact hne (Prod.mk.inj hnil).1
      · rcases List.mem_map.mp hform with ⟨found, hfound, heq⟩
        apply List.find?_eq_none.mp hfind found hfound
        rw [List.isSuffixOf_iff_suffix, (Prod.mk.inj heq).1]
        exact ⟨u, hsplit.symm⟩
  | some found =>
      have hsuffix := List.find?_some hfind
      rw [List.isSuffixOf_iff_suffix] at hsuffix
      rcases hsuffix with ⟨front, rfl⟩
      have hmem : ('-' :: found.1.toList, [found.2]) ∈ endings :=
        List.mem_cons_of_mem _ (List.mem_map.mpr ⟨found, List.mem_of_find?_eq_some hfind, rfl⟩)
      refine ⟨'-' :: found.1.toList, ?_, hmem, ?_⟩
      · simp [← String.length_toList]
      · intro u v _ hne form hother
        have hsame := eq_of_suffix_of_mem_endings _ hmem _ hother (List.cons_ne_nil _ _)
          (List.suffix_append v _)
        exact hne (List.self_eq_append_left.mp hsame)

/-!
# Reading codes
-/

theorem exists_of_codeEnd {before rest form : Text} {d : Cursor}
    (h : codeEnd (between before rest) = some (d, form)) :
    ∃ ending after, (ending, form) ∈ endings ∧ rest = ending ++ ':' :: after := by
  unfold codeEnd at h
  dsimp only at h
  split at h
  · rename_i found hfound
    rw [h] at hfound
    rcases List.exists_of_findSome?_eq_some hfound with ⟨entry, hentry, hrun⟩
    rcases Pattern.exists_of_run_eq_some hrun with ⟨e, he, hpair⟩
    cases hpair
    rcases Pattern.mem_ends_between.mp he with ⟨piece, after, rfl, hspans, _⟩
    rcases Pattern.spans_sequence_cons_cons.mp hspans with ⟨u, v, rfl, hu, hv⟩
    rcases Pattern.spans_sequence_cons_cons.mp hv with ⟨w, x, rfl, hw, hx⟩
    rw [Pattern.spans_exactly.mp hu, Pattern.spans_literal.mp hw,
      Pattern.spans_exactly.mp (Pattern.spans_sequence_singleton.mp hx)]
    refine ⟨'-' :: entry.1.toList, after, ?_, by simp⟩
    exact List.mem_cons_of_mem _ (List.mem_map.mpr ⟨entry, hentry, rfl⟩)
  · rcases Pattern.exists_of_run_eq_some h with ⟨e, he, hpair⟩
    cases hpair
    rcases Pattern.mem_ends_between.mp he with ⟨piece, after, rfl, hspans, _⟩
    rw [Pattern.spans_exactly.mp hspans]
    exact ⟨[], after, List.mem_cons_self, rfl⟩

theorem codeEnd_of_mem_endings {ending form : Text} (h : (ending, form) ∈ endings)
    (before after : Text) :
    codeEnd (between before (ending ++ ':' :: after)) =
      some (between (before ++ (ending ++ [':'])) after, form) := by
  rw [show ending ++ ':' :: after = ending ++ [':'] ++ after by simp, ← Cursor.advance_between]
  simp only [endings, forms, List.map_cons, List.map_nil, List.mem_cons, List.not_mem_nil,
    or_false, Prod.mk.injEq] at h
  rcases h with ⟨rfl, rfl⟩ | ⟨rfl, rfl⟩ | ⟨rfl, rfl⟩ <;> rfl

theorem append_colon_inj {piece piece' after after' : Text} (h : ':' ∉ piece) (h' : ':' ∉ piece')
    (hsplit : piece ++ ':' :: after = piece' ++ ':' :: after') : piece = piece' := by
  have hclass : ∀ {piece : Text}, ':' ∉ piece → ∀ x ∈ piece, (x != ':') = true := by
    intro piece hpiece x hx
    rw [bne_iff_ne]
    rintro rfl
    exact hpiece hx
  have hhead : ∀ (after : Text), ∀ x ∈ (':' :: after).head?, (x != ':') = false := by
    intro after x hx
    cases hx
    rfl
  exact (Pattern.append_inj_of_class hsplit (hclass h) (hhead after) (hclass h')
    (hhead after')).1

theorem not_mem_of_mem_endings : ∀ ending ∈ endings, ':' ∉ ending.1 := by
  decide

/-- What is read at a code: its picture, or the code itself if it is not known. -/
theorem readCode_code {table : Table} {body : Text} (hbody : IsPlain body) (before after : Text) :
    readCode table (between before (':' :: (body ++ ':' :: after))) =
      some (between (before ++ ':' :: (body ++ [':'])) after,
        (pictureOf? table body).getD (':' :: (body ++ [':']))) := by
  rcases exists_ending body with ⟨ending, hsplit, hending, hlongest⟩
  unfold pictureOf?
  generalize (nameAndForm body).1 = label at hsplit hlongest ⊢
  generalize (nameAndForm body).2 = form at hending ⊢
  subst hsplit
  have hlabel : ∀ x ∈ label, (!Text.isBlank x) = true := by
    intro x hx
    rw [(hbody x (List.mem_append_left _ hx)).2]
    rfl
  -- In front of the longest ending, what follows is no ending with a colon behind it.
  have hfail : ∀ u v, label = u ++ v → v ≠ [] →
      codeEnd (between (before ++ [':'] ++ u) (v ++ (ending ++ ':' :: after))) = none := by
    intro u v hsplit hne
    cases hend : codeEnd (between (before ++ [':'] ++ u) (v ++ (ending ++ ':' :: after))) with
    | none =>
        rfl
    | some found =>
        exfalso
        rcases exists_of_codeEnd hend with ⟨other, later, hother, hrest⟩
        rw [← List.append_assoc] at hrest
        have hcolon : ':' ∉ v ++ ending := by
          intro hmem
          apply hbody.not_mem
          rw [hsplit, List.append_assoc]
          exact List.mem_append_right u hmem
        have hsame : v ++ ending = other :=
          append_colon_inj hcolon (not_mem_of_mem_endings _ hother) hrest
        rw [← hsame] at hother
        exact hlongest u v hsplit hne _ hother
  have hfound := codeEnd_of_mem_endings hending (before ++ [':'] ++ label) after
  have hbehind : before ++ [':'] ++ label ++ (ending ++ [':']) =
      before ++ ':' :: (label ++ ending ++ [':']) := by
    simp
  have hcode : ':' :: (label ++ ending ++ ':' :: after) =
      ':' :: (label ++ ending ++ [':']) ++ after := by
    simp
  rw [hbehind] at hfound
  unfold readCode
  rw [Pattern.run_exactly_between, List.append_assoc label]
  apply Pattern.firstOver_append (before ++ [':']) hlabel
  · intro u v hsplit hne
    rw [hfail u v hsplit hne]
    rfl
  · rw [hfound, Option.map_some]
    dsimp only
    rw [Cursor.upTo_between, ← List.append_assoc label, hcode, Cursor.upTo_between]

theorem opens_of_not_blank {piece : Text} (h : ∀ x ∈ piece, Text.isBlank x = false)
    (after : Text) : Opens (':' :: (piece ++ ':' :: after)) := by
  induction piece with
  | nil =>
      exact ⟨[], after, fun x hx => absurd hx List.not_mem_nil, rfl⟩
  | cons x rest ih =>
      by_cases hx : x = ':'
      · rw [hx]
        exact ⟨[], rest ++ ':' :: after, fun y hy => absurd hy List.not_mem_nil, rfl⟩
      · rcases ih fun y hy => h y (List.mem_cons_of_mem x hy) with ⟨body, later, hbody, htext⟩
        refine ⟨x :: body, later, ?_, ?_⟩
        · intro y hy
          rcases List.mem_cons.mp hy with rfl | hy
          · exact ⟨hx, h y List.mem_cons_self⟩
          · exact hbody y hy
        · rw [List.cons_append, (List.cons.inj htext).2]
          rfl

theorem isBlank_of_mem_endings :
    ∀ ending ∈ endings, ∀ x ∈ ending.1, Text.isBlank x = false := by
  have hall : (endings.all fun ending => ending.1.all fun x => !Text.isBlank x) = true := by
    decide
  intro ending hending x hx
  have hblank := List.all_eq_true.mp (List.all_eq_true.mp hall ending hending) x hx
  rwa [Bool.not_eq_true'] at hblank

theorem readCode_eq_none {table : Table} {t : Text} (h : ¬Opens t) (before : Text) :
    readCode table (between before t) = none := by
  cases hread : readCode table (between before t) with
  | none =>
      rfl
  | some found =>
      exfalso
      apply h
      unfold readCode at hread
      rcases Pattern.exists_of_run_eq_some hread with ⟨first, hfirst, hrest⟩
      rcases Pattern.exists_of_run_eq_some hrest with ⟨last, hlast, hend⟩
      rcases Pattern.mem_ends_between.mp hfirst with ⟨colon, behind, rfl, hcolon, rfl⟩
      rcases Pattern.mem_ends_between.mp hlast with ⟨piece, rest, rfl, hpiece, rfl⟩
      rcases Option.map_eq_some_iff.mp hend with ⟨⟨d, form⟩, hcode, _⟩
      rcases exists_of_codeEnd hcode with ⟨ending, after, hending, rfl⟩
      rw [Pattern.spans_exactly.mp hcolon, ← List.append_assoc piece]
      apply opens_of_not_blank
      intro x hx
      rcases List.mem_append.mp hx with hx | hx
      · have hblank := Pattern.spans_few.mp hpiece x hx
        simpa using hblank
      · exact isBlank_of_mem_endings _ hending x hx

/-!
# Drawing a text
-/

/-- Whether every picture shows something, and nothing that could be taken for a code. -/
def Table.IsPictorial (table : Table) : Prop :=
  ∀ entry ∈ table, ∃ x rest, entry.2 = x :: rest ∧ x ≠ ':'

theorem isPictorial_pictures : pictures.IsPictorial := by
  intro entry hentry
  rw [List.mem_singleton.mp hentry]
  exact ⟨_, _, rfl, by decide⟩

variable {table : Table}

theorem exists_of_pictureOf?_eq_some (h : table.IsPictorial) {code picture : Text}
    (hpicture : pictureOf? table code = some picture) :
    ∃ x rest, picture = x :: rest ∧ x ≠ ':' := by
  unfold pictureOf? picture? at hpicture
  rcases Option.map_eq_some_iff.mp hpicture with ⟨entry, hentry, rfl⟩
  rcases h entry (List.mem_of_find?_eq_some hentry) with ⟨x, rest, hvalue, hx⟩
  exact ⟨x, rest ++ _, by rw [hvalue]; rfl, hx⟩

theorem exists_replaces (h : table.IsPictorial) (t : Text) :
    ∀ before, ∃ out, (readCode table).Replaces before t out ∧
      (out = t ↔ ∀ code ∈ codesIn t, pictureOf? table code = none) := by
  -- What stands before the text is of no use to a code, but it grows on the way.
  induction t using code_induction with
  | nil =>
      intro before
      have hnone : ¬Opens [] := by
        rintro ⟨_, _, _, htext⟩
        cases htext
      refine ⟨[], .done before (readCode_eq_none hnone before), ?_⟩
      rw [codesIn_of_not_mem List.not_mem_nil]
      simp
  | skip x rest hskip ih =>
      intro before
      rcases ih (before ++ [x]) with ⟨out, hout, hiff⟩
      refine ⟨x :: out, .keep (readCode_eq_none hskip before) hout, ?_⟩
      rw [codesIn_skip hskip, ← hiff]
      simp
  | code body after hbody ih =>
      intro before
      rcases ih (before ++ ':' :: (body ++ [':'])) with ⟨out, hout, hiff⟩
      have htext : ':' :: (body ++ ':' :: after) = ':' :: (body ++ [':']) ++ after := by
        simp
      have hread : readCode table (between before (':' :: (body ++ ':' :: after))) = _ :=
        readCode_code hbody before after
      rw [htext] at hread
      refine ⟨_, by rw [htext]; exact .take (List.cons_ne_nil _ _) hread hout, ?_⟩
      rw [codesIn_code hbody, List.forall_mem_cons, ← hiff]
      cases hpicture : pictureOf? table body with
      | none =>
          rw [htext]
          simp
      | some picture =>
          -- The picture does not begin like the code, so the texts differ in their first character.
          rcases exists_of_pictureOf?_eq_some h hpicture with ⟨x, later, rfl, hx⟩
          simp [hx]

/-- A text is drawn as it is if and only if none of its codes has a picture. -/
theorem render_eq_self_iff (h : table.IsPictorial) {t : Text} :
    render table t = t ↔ ∀ code ∈ codesIn t, pictureOf? table code = none := by
  rcases exists_replaces h t [] with ⟨out, hout, hiff⟩
  unfold render
  rw [hout.replace_eq]
  exact hiff

end Emoji
end SourceAudit
