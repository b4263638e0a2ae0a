import Mathlib.Data.List.Basic
import SourceAudit.Files.Path

/-!
# Cutting and joining

## Pieces between separators

No piece holds the separator, and joining the pieces of a text gives the text back.  A row of names
without slashes is found again in the path that they make, also with more text behind it.
-/

namespace SourceAudit

/-!
# Two cuts of one text
-/

/-- Two ways to cut a text: the second cut is not before the first, or it leaves a character of the
first part. -/
theorem append_cases {a b c d : Text} (h : a ++ b = c ++ d) :
    (∃ m, c = a ++ m ∧ b = m ++ d) ∨ ∃ x m, a = c ++ x :: m ∧ d = x :: m ++ b := by
  rcases List.append_eq_append_iff.mp h with ⟨m, hc, hb⟩ | ⟨m, ha, hd⟩
  · exact Or.inl ⟨m, hc, hb⟩
  · cases m with
    | nil =>
        rw [List.append_nil] at ha
        exact Or.inl ⟨[], by rw [ha, List.append_nil], hd.symm⟩
    | cons x m =>
        exact Or.inr ⟨x, m, ha, hd⟩

theorem exists_append_of_length_le {before rest before' rest' : Text}
    (hsplit : before ++ rest = before' ++ rest') (hlength : before.length ≤ before'.length) :
    ∃ between, before' = before ++ between ∧ rest = between ++ rest' := by
  rcases append_cases hsplit with hbetween | ⟨x, m, rfl, _⟩
  · exact hbetween
  · rw [List.length_append, List.length_cons] at hlength
    omega

theorem exists_append_of_length_lt {before rest before' rest' : Text}
    (hsplit : before ++ rest = before' ++ rest') (hlength : before.length < before'.length) :
    ∃ between, between ≠ [] ∧ before' = before ++ between ∧ rest = between ++ rest' := by
  rcases exists_append_of_length_le hsplit (Nat.le_of_lt hlength) with ⟨between, rfl, hrest⟩
  refine ⟨between, ?_, rfl, hrest⟩
  rintro rfl
  rw [List.append_nil] at hlength
  exact Nat.lt_irrefl _ hlength

theorem exists_append_of_not_mem {a b front behind : Text} {x : Char}
    (hsplit : a ++ b = front ++ x :: behind) (hx : x ∉ a) :
    ∃ m, front = a ++ m ∧ b = m ++ x :: behind := by
  rcases append_cases hsplit with hbehind | ⟨y, m, rfl, hm⟩
  · exact hbehind
  · rw [(List.cons.inj hm).1] at hx
    exact absurd (by simp) hx

theorem forall_mem_head?_append {P : Char → Prop} {a b : Text} (ha : ∀ x ∈ a.head?, P x)
    (hb : ∀ x ∈ b.head?, P x) : ∀ x ∈ (a ++ b).head?, P x := by
  cases a with
  | nil =>
      exact hb
  | cons y more =>
      exact ha

theorem forall_mem_getLast?_append {P : Char → Prop} {a b : Text} (ha : ∀ x ∈ a.getLast?, P x)
    (hb : ∀ x ∈ b.getLast?, P x) : ∀ x ∈ (a ++ b).getLast?, P x := by
  intro x hx
  rw [List.getLast?_append] at hx
  cases hlast : b.getLast? with
  | none =>
      rw [hlast] at hx
      exact ha x hx
  | some y =>
      rw [hlast] at hx
      cases hx
      exact hb _ hlast

theorem forall_mem_getLast?_of_append {P : Char → Prop} {a b : Text}
    (h : ∀ x ∈ (a ++ b).getLast?, P x) : ∀ x ∈ b.getLast?, P x := by
  intro x hx
  apply h
  rw [List.getLast?_append, hx]
  rfl

/-!
# Pieces
-/

namespace Text

theorem join_cons (between first : Text) (rest : List Text) (hrest : rest ≠ []) :
    join between (first :: rest) = first ++ (between ++ join between rest) := by
  cases rest with
  | nil =>
      exact absurd rfl hrest
  | cons second later =>
      show first ++ (between ++ second ++ later.flatMap (between ++ ·)) = _
      unfold join
      rw [List.append_assoc]

theorem mem_of_mem_join {between : Text} {pieces : List Text} {x : Char}
    (h : x ∈ join between pieces) : x ∈ between ∨ ∃ piece ∈ pieces, x ∈ piece := by
  cases pieces with
  | nil =>
      cases h
  | cons first rest =>
      rcases List.mem_append.mp h with hfirst | hrest
      · exact Or.inr ⟨first, List.mem_cons_self, hfirst⟩
      · rcases List.mem_flatMap.mp hrest with ⟨piece, hpiece, hx⟩
        rcases List.mem_append.mp hx with hbetween | hx
        · exact Or.inl hbetween
        · exact Or.inr ⟨piece, List.mem_cons_of_mem first hpiece, hx⟩

/-- Joining the pieces of a text gives the text back. -/
theorem join_cutAt (separator : Char) (t : Text) :
    join [separator] (t.cutAt separator) = t := by
  induction t with
  | nil =>
      rfl
  | cons c rest ih =>
      unfold cutAt cutWhere at ih ⊢
      rw [cut_cons]
      by_cases hc : (c == separator) = true
      · rw [if_pos hc, beq_iff_eq.mp hc]
        show [separator].append (join [separator] (cutWhere (· == separator) rest)) = _
        unfold cutWhere
        rw [ih]
        rfl
      · rw [if_neg hc]
        show c :: join [separator] ((cut (· == separator) rest).1 :: _) = _
        rw [ih]

theorem cutAt_injective (separator : Char) {t t' : Text}
    (h : t.cutAt separator = t'.cutAt separator) : t = t' := by
  rw [← join_cutAt separator t, h, join_cutAt]

theorem cutAt_ne_nil (separator : Char) (t : Text) : t.cutAt separator ≠ [] :=
  cutWhere_ne_nil _ t

theorem cutAt_cons_self (separator : Char) (t : Text) :
    cutAt separator (separator :: t) = [] :: cutAt separator t := by
  unfold cutAt
  apply cutWhere_cons_of_separator
  exact beq_self_eq_true separator

theorem cutAt_append_cons (separator : Char) (a b : Text) :
    cutAt separator (a ++ separator :: b) = cutAt separator a ++ cutAt separator b := by
  unfold cutAt
  apply cutWhere_append_separator
  exact beq_self_eq_true separator

theorem not_mem_of_mem_cutAt {separator : Char} {t piece : Text}
    (h : piece ∈ t.cutAt separator) : separator ∉ piece := by
  induction t generalizing piece with
  | nil =>
      rw [List.mem_singleton.mp h]
      exact List.not_mem_nil
  | cons c rest ih =>
      unfold cutAt cutWhere at h ih
      rw [cut_cons] at h
      by_cases hc : (c == separator) = true
      · rw [if_pos hc] at h
        rcases List.mem_cons.mp h with rfl | h
        · exact List.not_mem_nil
        · exact ih h
      · rw [if_neg hc] at h
        rcases List.mem_cons.mp h with rfl | h
        · intro hmem
          rcases List.mem_cons.mp hmem with hsep | hmem
          · exact hc (beq_iff_eq.mpr hsep.symm)
          · exact ih List.mem_cons_self hmem
        · exact ih (List.mem_cons_of_mem _ h)

theorem exists_eq_of_mem_cutAt {separator : Char} {t piece : Text}
    (h : piece ∈ t.cutAt separator) :
    ∃ before after, t = before ++ (piece ++ after) ∧ (∀ x ∈ before.getLast?, x = separator) ∧
      ∀ x ∈ after.head?, x = separator := by
  rcases List.append_of_mem h with ⟨front, back, hpieces⟩
  have hjoin := join_cutAt separator t
  rw [hpieces] at hjoin
  have hback : ∀ x ∈ (back.flatMap ([separator] ++ ·)).head?, x = separator := by
    intro x hx
    cases back with
    | nil =>
        cases hx
    | cons next more =>
        cases hx
        rfl
  cases front with
  | nil =>
      exact ⟨[], back.flatMap ([separator] ++ ·), hjoin.symm, by simp, hback⟩
  | cons first more =>
      refine ⟨first ++ more.flatMap ([separator] ++ ·) ++ [separator],
        back.flatMap ([separator] ++ ·), ?_, by simp, hback⟩
      rw [← hjoin]
      show first ++ (more ++ piece :: back).flatMap ([separator] ++ ·) = _
      simp

theorem cutAt_of_not_mem {separator : Char} {t : Text} (h : separator ∉ t) :
    t.cutAt separator = [t] := by
  induction t with
  | nil =>
      rfl
  | cons c rest ih =>
      have hc : ¬(c == separator) = true := by
        intro hc
        exact h (List.mem_cons.mpr (Or.inl (beq_iff_eq.mp hc).symm))
      have hrest := ih (fun hmem => h (List.mem_cons_of_mem c hmem))
      unfold cutAt cutWhere at hrest ⊢
      rw [cut_cons, if_neg hc]
      have hfirst := (List.cons.inj hrest).1
      have hlater := (List.cons.inj hrest).2
      show (c :: (cut (· == separator) rest).1) :: (cut (· == separator) rest).2 = _
      rw [hfirst, hlater]

theorem cutAt_replicate (separator : Char) (k : Nat) :
    cutAt separator (List.replicate k separator) = List.replicate (k + 1) [] := by
  induction k with
  | zero =>
      rfl
  | succ k ih =>
      rw [List.replicate_succ, cutAt_cons_self, ih]
      rfl

theorem cutAt_append_replicate (separator : Char) (t : Text) (k : Nat) :
    cutAt separator (t ++ List.replicate k separator) =
      cutAt separator t ++ List.replicate k [] := by
  cases k with
  | zero =>
      rw [List.replicate_zero, List.replicate_zero, List.append_nil, List.append_nil]
  | succ k =>
      rw [List.replicate_succ, cutAt_append_cons, cutAt_replicate]

theorem head?_cutAt_eq_nil {separator : Char} {t : Text}
    (h : (t.cutAt separator).head? = some []) : t = [] ∨ t.head? = some separator := by
  cases t with
  | nil =>
      exact Or.inl rfl
  | cons c rest =>
      right
      unfold cutAt cutWhere at h
      rw [cut_cons] at h
      by_cases hc : (c == separator) = true
      · rw [beq_iff_eq.mp hc]
        rfl
      · rw [if_neg hc] at h
        cases Option.some.inj h

theorem getLast?_cutAt_eq_nil {separator : Char} {t : Text}
    (h : (t.cutAt separator).getLast? = some []) : t = [] ∨ t.getLast? = some separator := by
  rcases List.eq_nil_or_concat t with rfl | ⟨front, c, rfl⟩
  · exact Or.inl rfl
  · right
    rw [List.concat_eq_append] at h ⊢
    rw [List.getLast?_append]
    by_cases hc : c = separator
    · rw [hc]
      rfl
    · exfalso
      have hpieces : ∀ (t : Text), (cutAt separator (t ++ [c])).getLast? ≠ some [] := by
        intro t
        induction t with
        | nil =>
            rw [List.nil_append, cutAt_of_not_mem (by simpa using fun h => hc h.symm)]
            simp
        | cons x rest ih =>
            unfold cutAt cutWhere at ih ⊢
            rw [List.cons_append, cut_cons]
            by_cases hx : (x == separator) = true
            · rw [if_pos hx]
              show ([] :: _ :: _ : List Text).getLast? ≠ some []
              rw [List.getLast?_cons_cons]
              exact ih
            · rw [if_neg hx]
              cases hlater : (cut (· == separator) (rest ++ [c])).2 with
              | nil =>
                  simp
              | cons piece later =>
                  rw [hlater, List.getLast?_cons_cons] at ih
                  show (_ :: piece :: later : List Text).getLast? ≠ some []
                  rw [List.getLast?_cons_cons]
                  exact ih
      exact hpieces front h

/-!
# Runs at the start
-/

theorem takeWhile_append_of_class {accepts : Char → Bool} {piece after : Text}
    (hpiece : ∀ x ∈ piece, accepts x = true) (hafter : ∀ x ∈ after.head?, accepts x = false) :
    (piece ++ after).takeWhile accepts = piece := by
  rw [List.takeWhile_append_of_pos hpiece]
  cases after with
  | nil =>
      rw [List.takeWhile_nil, List.append_nil]
  | cons x rest =>
      rw [List.takeWhile_cons, hafter x rfl]
      exact List.append_nil piece

theorem dropWhile_append_of_class {accepts : Char → Bool} {piece after : Text}
    (hpiece : ∀ x ∈ piece, accepts x = true) (hafter : ∀ x ∈ after.head?, accepts x = false) :
    (piece ++ after).dropWhile accepts = after := by
  have hsplit := List.takeWhile_append_dropWhile (p := accepts) (l := piece ++ after)
  rw [takeWhile_append_of_class hpiece hafter] at hsplit
  exact List.append_cancel_left hsplit

theorem forall_mem_head?_dropWhile (accepts : Char → Bool) (t : Text) :
    ∀ x ∈ (t.dropWhile accepts).head?, accepts x = false := by
  intro x hx
  have hstop := List.head?_dropWhile_not accepts t
  rw [Option.mem_def.mp hx] at hstop
  exact hstop

/-!
# Dropping at the end
-/

theorem exists_eq_dropEndWhile_append (drop : Char → Bool) (t : Text) :
    ∃ dropped, t = t.dropEndWhile drop ++ dropped ∧ ∀ c ∈ dropped, drop c = true := by
  refine ⟨(t.reverse.takeWhile drop).reverse, ?_, ?_⟩
  · unfold dropEndWhile
    rw [← List.reverse_append, List.takeWhile_append_dropWhile, List.reverse_reverse]
  · intro c hc
    exact List.all_eq_true.mp List.all_takeWhile c (List.mem_reverse.mp hc)

theorem eq_dropEndWhile_append (c : Char) (t : Text) :
    ∃ k, t = t.dropEndWhile (· == c) ++ List.replicate k c := by
  rcases exists_eq_dropEndWhile_append (· == c) t with ⟨dropped, ht, hdropped⟩
  have hall : dropped = List.replicate dropped.length c := by
    apply List.eq_replicate_of_mem
    intro x hx
    exact beq_iff_eq.mp (hdropped x hx)
  exact ⟨dropped.length, hall ▸ ht⟩

theorem dropEndWhile_prefix (drop : Char → Bool) (t : Text) : t.dropEndWhile drop <+: t := by
  rcases exists_eq_dropEndWhile_append drop t with ⟨dropped, ht, _⟩
  exact ⟨dropped, ht.symm⟩

theorem dropEndWhile_append_cons {drop : Char → Bool} {c : Char} (hc : drop c = false)
    (before behind : Text) :
    (before ++ c :: behind).dropEndWhile drop = before ++ c :: behind.dropEndWhile drop := by
  have hstays : (c :: before.reverse).dropWhile drop = c :: before.reverse := by
    rw [List.dropWhile_cons, hc]
    rfl
  have hreverse : (before ++ c :: behind).reverse = behind.reverse ++ c :: before.reverse := by
    simp
  unfold dropEndWhile
  rw [hreverse, List.dropWhile_append, hstays]
  split
  · rename_i hnil
    rw [List.isEmpty_iff.mp hnil]
    simp
  · simp

theorem getLast?_dropEndWhile (drop : Char → Bool) (t : Text) :
    ∀ c ∈ (t.dropEndWhile drop).getLast?, drop c = false := by
  intro c hc
  unfold dropEndWhile at hc
  rw [List.getLast?_reverse] at hc
  have hhead := List.head?_dropWhile_not drop t.reverse
  rw [hc] at hhead
  simpa using hhead

theorem dropEndWhile_eq_nil {drop : Char → Bool} {t : Text} (h : ∀ c ∈ t, drop c = true) :
    t.dropEndWhile drop = [] := by
  apply List.getLast?_eq_none_iff.mp
  rw [Option.eq_none_iff_forall_not_mem]
  intro c hc
  have hstays := getLast?_dropEndWhile drop t c hc
  have hmem : c ∈ t := (Text.dropEndWhile_prefix drop t).subset (List.mem_of_mem_getLast? hc)
  rw [h c hmem] at hstays
  cases hstays

theorem getLast?_dropEndWhile_eq_some_iff {drop : Char → Bool} {c : Char} (hc : drop c = false)
    {t : Text} : (t.dropEndWhile drop).getLast? = some c ↔
      ∃ far space, t = far ++ c :: space ∧ ∀ x ∈ space, drop x = true := by
  constructor
  · intro hlast
    rcases exists_eq_dropEndWhile_append drop t with ⟨space, ht, hspace⟩
    rcases List.getLast?_eq_some_iff.mp hlast with ⟨far, hfar⟩
    refine ⟨far, space, ?_, hspace⟩
    rw [hfar, List.append_assoc] at ht
    exact ht
  · intro h
    rcases h with ⟨far, space, rfl, hspace⟩
    rw [dropEndWhile_append_cons hc, dropEndWhile_eq_nil hspace, List.getLast?_concat]

theorem dropEndWhile_eq_self {drop : Char → Bool} {t : Text}
    (h : ∀ c ∈ t.getLast?, drop c = false) : t.dropEndWhile drop = t := by
  unfold dropEndWhile
  rw [← List.head?_reverse] at h
  cases hrev : t.reverse with
  | nil =>
      rw [List.dropWhile_nil, ← hrev, List.reverse_reverse]
  | cons c rest =>
      rw [hrev] at h
      rw [List.dropWhile_cons, h c rfl, ← hrev]
      simp

end Text

/-!
# Paths of names
-/

namespace Path

@[simp] theorem joinNames_singleton (name : Text) : joinNames [name] = name :=
  List.append_nil name

theorem joinNames_cons {name : Text} {names : List Text} (hnames : names ≠ []) :
    joinNames (name :: names) = name ++ '/' :: joinNames names :=
  Text.join_cons ['/'] name names hnames

theorem joinNames_append {names names' : List Text} (hnames : names ≠ []) (hnames' : names' ≠ []) :
    joinNames (names ++ names') = joinNames names ++ '/' :: joinNames names' := by
  induction names with
  | nil =>
      exact absurd rfl hnames
  | cons name rest ih =>
      by_cases hrest : rest = []
      · rw [hrest, List.cons_append, List.nil_append, joinNames_cons hnames', joinNames_singleton]
      · rw [List.cons_append, joinNames_cons hrest, joinNames_cons (by simp [hrest]), ih hrest,
          List.append_assoc, List.cons_append]

theorem cutAt_joinNames_append {names : List Text} (hnames : names ≠ [])
    (hslash : ∀ name ∈ names, '/' ∉ name) (t : Text) :
    (joinNames names ++ '/' :: t).cutAt '/' = names ++ t.cutAt '/' := by
  induction names with
  | nil =>
      exact absurd rfl hnames
  | cons name rest ih =>
      have hname := Text.cutAt_of_not_mem (hslash name List.mem_cons_self)
      by_cases hrest : rest = []
      · rw [hrest, joinNames_singleton, Text.cutAt_append_cons, hname]
      · rw [joinNames_cons hrest, List.append_assoc, List.cons_append, Text.cutAt_append_cons,
          hname, ih hrest fun other hother => hslash other (List.mem_cons_of_mem name hother)]
        rfl

theorem cutAt_joinNames {names : List Text} (hnames : names ≠ [])
    (hslash : ∀ name ∈ names, '/' ∉ name) : (joinNames names).cutAt '/' = names := by
  rcases List.eq_nil_or_concat names with rfl | ⟨front, last, rfl⟩
  · exact absurd rfl hnames
  · rw [List.concat_eq_append] at hslash ⊢
    have hlast : '/' ∉ last := hslash last (by simp)
    by_cases hfront : front = []
    · rw [hfront, List.nil_append, joinNames_singleton, Text.cutAt_of_not_mem hlast]
    · rw [joinNames_append hfront (by simp), joinNames_singleton,
        cutAt_joinNames_append hfront (fun name hname => hslash name (by simp [hname])),
        Text.cutAt_of_not_mem hlast]

end Path
end SourceAudit
