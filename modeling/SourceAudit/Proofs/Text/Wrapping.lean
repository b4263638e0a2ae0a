import Mathlib.Algebra.Ring.Nat
import SourceAudit.Output.Wrap
import SourceAudit.Proofs.Text.Cut

/-!
# Lines that are not cut short

## Widths without joiners

In a text without joiners and selectors every character keeps its own width.  The signs of such a
text are single characters with characters behind them that take no cell, so a text that is cropped
keeps every front part that fits.

When a text is broken into lines, nothing is lost, and each line fits but for the blanks at its end.
-/

namespace SourceAudit
namespace Text

/-- Whether no character of a text changes how others are drawn. -/
def IsUnjoined (t : Text) : Prop :=
  ∀ c ∈ t, c ≠ joiner ∧ c ≠ selector

variable {t a b p : Text} {c : Char} {cells : Nat}

/-!
# Widths
-/

theorem isUnjoined_append : IsUnjoined (a ++ b) ↔ IsUnjoined a ∧ IsUnjoined b :=
  List.forall_mem_append

theorem IsUnjoined.of_isInfix (h : IsUnjoined t) (ha : a <:+: t) : IsUnjoined a :=
  fun c hc => h c (ha.subset hc)

theorem charWidth_le_two (c : Char) : charWidth c ≤ 2 := by
  unfold charWidth
  dsimp only
  repeat' split
  all_goals decide

theorem widthFrom_eq_sum (h : IsUnjoined t) (drawn : Option Char) :
    widthFrom drawn t = (t.map charWidth).sum := by
  induction t generalizing drawn with
  | nil =>
      rfl
  | cons c rest ih =>
      rcases List.forall_mem_cons.mp h with ⟨⟨hjoiner, hselector⟩, hrest⟩
      unfold widthFrom
      rw [if_neg hjoiner, if_neg hselector, List.map_cons, List.sum_cons, ih hrest, ih hrest]
      split
      · rename_i hzero
        rw [hzero, Nat.zero_add]
      · rfl

theorem width_append (h : IsUnjoined (a ++ b)) : width (a ++ b) = width a + width b := by
  rcases isUnjoined_append.mp h with ⟨ha, hb⟩
  unfold width
  rw [widthFrom_eq_sum h, widthFrom_eq_sum ha, widthFrom_eq_sum hb, List.map_append,
    List.sum_append]

theorem width_cons (h : IsUnjoined (c :: t)) : width (c :: t) = charWidth c + width t := by
  unfold width
  rw [widthFrom_eq_sum h, widthFrom_eq_sum (List.forall_mem_cons.mp h).2, List.map_cons,
    List.sum_cons]

theorem width_le_of_prefix (h : IsUnjoined t) (hp : p <+: t) : width p ≤ width t := by
  rcases hp with ⟨rest, rfl⟩
  rw [width_append h]
  exact Nat.le_add_right _ _

/-- Whether no character of a text is wide or changes how others are drawn. -/
def IsNarrow (t : Text) : Prop :=
  ∀ c ∈ t, charWidth c ≤ 1 ∧ c ≠ joiner ∧ c ≠ selector

theorem isNarrow_append : IsNarrow (a ++ b) ↔ IsNarrow a ∧ IsNarrow b :=
  List.forall_mem_append

theorem IsNarrow.isUnjoined (h : IsNarrow t) : IsUnjoined t :=
  fun c hc => (h c hc).2

theorem charWidth_le_one (h : c.toNat < 128) : charWidth c ≤ 1 := by
  unfold charWidth
  dsimp only
  split
  · exact Nat.zero_le 1
  · split
    · exact Nat.le_refl 1
    · rw [if_pos (show c.toNat < 160 by omega)]
      exact Nat.zero_le 1

theorem isNarrow_of_ascii (h : ∀ c ∈ t, c.toNat < 128) : IsNarrow t := by
  intro c hc
  refine ⟨charWidth_le_one (h c hc), ?_, ?_⟩
  · rintro rfl
    exact absurd (h _ hc) (by decide)
  · rintro rfl
    exact absurd (h _ hc) (by decide)

theorem IsNarrow.width_le_length (h : IsNarrow t) : width t ≤ t.length := by
  induction t with
  | nil =>
      exact Nat.le_refl 0
  | cons c rest ih =>
      rcases List.forall_mem_cons.mp h with ⟨hc, hrest⟩
      rw [width_cons h.isUnjoined, List.length_cons, Nat.add_comm rest.length]
      exact Nat.add_le_add hc.1 (ih hrest)

/-- Blanks at the end of a text count for no more than they do behind its last part. -/
theorem stripRight_append_isPrefix (a b : Text) : stripRight (a ++ b) <+: a ++ stripRight b := by
  unfold stripRight dropEndWhile
  rw [List.reverse_append, List.dropWhile_append]
  split
  · exact (Text.dropEndWhile_prefix isBlank a).trans (List.prefix_append a _)
  · have hkept : (b.reverse.dropWhile isBlank ++ a.reverse).reverse =
        a ++ (b.reverse.dropWhile isBlank).reverse := by
      rw [List.reverse_append, List.reverse_reverse]
    exact hkept ▸ List.prefix_rfl

/-!
# Signs
-/

theorem textOfSigns_cons (sign : Sign) (rest : List Sign) :
    textOfSigns (sign :: rest) = sign.text ++ textOfSigns rest := rfl

/-- Whether a sign takes all its cells with its first character. -/
def Sign.IsSolid (sign : Sign) : Prop :=
  sign.text ≠ [] ∧ ∀ p, p <+: sign.text → p ≠ [] → width p = sign.cells

def IsThin (t : Text) : Prop :=
  ∀ c ∈ t, charWidth c = 0

theorem width_of_isThin (h : IsUnjoined t) (hthin : IsThin t) : width t = 0 := by
  induction t with
  | nil =>
      rfl
  | cons c rest ih =>
      rw [width_cons h, hthin c (List.mem_cons_self ..), Nat.zero_add]
      exact ih (List.forall_mem_cons.mp h).2 (List.forall_mem_cons.mp hthin).2

theorem isSolid_extend {first : Sign} (h : IsUnjoined (c :: first.text)) (hthin : IsThin first.text)
    (hcells : first.cells = 0) : (first.extend [c] (charWidth c)).IsSolid := by
  refine ⟨List.cons_ne_nil _ _, ?_⟩
  intro p hp hne
  rcases p with _ | ⟨x, behind⟩
  · exact absurd rfl hne
  · rcases List.cons_prefix_cons.mp hp with ⟨rfl, hbehind⟩
    have hunjoined : IsUnjoined (x :: behind) := h.of_isInfix hp.isInfix
    rw [width_cons hunjoined,
      width_of_isThin (List.forall_mem_cons.mp hunjoined).2 fun y hy => hthin y (hbehind.subset hy)]
    show charWidth x + 0 = charWidth x + first.cells
    rw [hcells]

/-- In a text without joiners, what is added to the sign before is thin, and all signs behind are
solid. -/
theorem signsFrom_of_isUnjoined (h : IsUnjoined t) (drawn : Option Char) :
    IsThin (signsFrom drawn t).1.text ∧ (signsFrom drawn t).1.cells = 0 ∧
      ∀ sign ∈ (signsFrom drawn t).2, sign.IsSolid := by
  induction t generalizing drawn with
  | nil =>
      exact ⟨by simp [IsThin, signsFrom], rfl, by simp [signsFrom]⟩
  | cons c rest ih =>
      rcases List.forall_mem_cons.mp h with ⟨⟨hjoiner, hselector⟩, hrest⟩
      unfold signsFrom
      rw [if_neg hjoiner, if_neg hselector]
      split
      · rename_i hzero
        rcases ih hrest drawn with ⟨hthin, hcells, hsolid⟩
        refine ⟨List.forall_mem_cons.mpr ⟨hzero, hthin⟩, ?_, hsolid⟩
        show 0 + _ = 0
        rw [hcells]
      · rcases ih hrest (some c) with ⟨hthin, hcells, hsolid⟩
        refine ⟨by simp [IsThin], rfl, List.forall_mem_cons.mpr ⟨?_, hsolid⟩⟩
        have hfirst : (signsFrom (some c) rest).1.text <+: rest :=
          ⟨_, signsFrom_text (some c) rest⟩
        apply isSolid_extend _ hthin hcells
        exact List.forall_mem_cons.mpr
          ⟨⟨hjoiner, hselector⟩, IsUnjoined.of_isInfix hrest hfirst.isInfix⟩

theorem isSolid_of_mem_signs (h : IsUnjoined t) : ∀ sign ∈ signs t, sign.IsSolid := by
  cases t with
  | nil =>
      intro sign hsign
      cases hsign
  | cons c rest =>
      rcases signsFrom_of_isUnjoined h none with ⟨hthin, hcells, hsolid⟩
      rw [signs, if_neg (List.forall_mem_cons.mp h).1.1]
      show ∀ sign ∈ withFirst _ _, _
      unfold withFirst
      split
      · exact hsolid
      · rename_i hne
        refine List.forall_mem_cons.mpr ⟨⟨by simpa using hne, ?_⟩, hsolid⟩
        intro p hp _
        have hfirst : (signsFrom none (c :: rest)).1.text <+: c :: rest :=
          ⟨_, signsFrom_text none (c :: rest)⟩
        rw [hcells]
        exact width_of_isThin (h.of_isInfix (hp.trans hfirst).isInfix) fun y hy =>
          hthin y (hp.subset hy)

/-!
# Cropping
-/

theorem prefix_fittingSigns {found : List Sign} (hsolid : ∀ sign ∈ found, sign.IsSolid)
    (h : IsUnjoined (textOfSigns found)) (hp : p <+: textOfSigns found) (hwidth : width p ≤ cells) :
    p <+: textOfSigns (fittingSigns cells found) := by
  induction found generalizing cells p with
  | nil =>
      exact hp
  | cons sign rest ih =>
      rcases List.forall_mem_cons.mp hsolid with ⟨⟨hne, hcells⟩, hrest⟩
      rw [textOfSigns_cons] at h hp
      unfold fittingSigns
      -- The front part ends inside of the first sign, or it goes on behind that sign.
      rcases List.prefix_or_prefix_of_prefix hp (List.prefix_append _ _) with hinside | hbehind
      · by_cases hnil : p = []
        · rw [hnil]
          exact List.nil_prefix
        · rw [hcells p hinside hnil] at hwidth
          rw [if_pos hwidth]
          exact hinside.trans (List.prefix_append _ _)
      · rcases hbehind with ⟨q, rfl⟩
        rw [List.prefix_append_right_inj] at hp
        rw [width_append (h.of_isInfix ((List.prefix_append_right_inj _).mpr hp).isInfix),
          hcells _ List.prefix_rfl hne] at hwidth
        rw [if_pos (show sign.cells ≤ cells by omega)]
        apply (List.prefix_append_right_inj _).mpr
        exact ih hrest (isUnjoined_append.mp h).2 hp (by omega)

/-- A front part that fits is kept when a text is fitted to a line. -/
theorem prefix_fit (h : IsUnjoined t) (hp : p <+: t) (hwidth : width p ≤ cells) :
    p <+: fit cells t := by
  unfold fit cropTo
  dsimp only
  split
  · exact hp.trans (List.prefix_append _ _)
  · have hkept : p <+: textOfSigns (fittingSigns cells (signs t)) := by
      apply prefix_fittingSigns (isSolid_of_mem_signs h) _ _ hwidth
      · rwa [textOfSigns_signs]
      · rwa [textOfSigns_signs]
    rw [List.append_assoc]
    exact hkept.trans (List.prefix_append _ _)

theorem fit_eq_append (h : width t ≤ cells) : fit cells t = t ++ spaces (cells - width t) := by
  unfold fit cropTo
  rw [if_pos h]

theorem fitRight_eq_append (h : width t ≤ cells) :
    fitRight cells t = spaces (cells - width t) ++ t := by
  unfold fitRight cropTo
  rw [if_pos h]

theorem fittingSigns_isPrefix (cells : Nat) (found : List Sign) :
    fittingSigns cells found <+: found := by
  induction found generalizing cells with
  | nil =>
      exact List.prefix_rfl
  | cons sign rest ih =>
      unfold fittingSigns
      split
      · exact (List.prefix_cons_inj sign).mpr (ih _)
      · exact List.nil_prefix

theorem mem_of_mem_fit (h : c ∈ fit cells t) : c ∈ t ∨ c = ' ' := by
  have hcut : ∀ x ∈ cropTo cells t, x ∈ t ∨ x = ' ' := by
    intro x hx
    unfold cropTo at hx
    split at hx
    · exact Or.inl hx
    · rcases List.mem_append.mp hx with hkept | hspace
      · rcases List.mem_flatMap.mp hkept with ⟨sign, hsign, hmem⟩
        rw [← textOfSigns_signs t]
        exact Or.inl (List.mem_flatMap.mpr ⟨sign, (fittingSigns_isPrefix _ _).subset hsign, hmem⟩)
      · exact Or.inr (List.eq_of_mem_replicate hspace)
  rcases List.mem_append.mp h with hmem | hspace
  · exact hcut c hmem
  · exact Or.inr (List.eq_of_mem_replicate hspace)

/-!
# Breaking
-/

theorem flatten_wordsFrom (state : WordState) (t : Text) :
    (wordsFrom state t).1 ++ (wordsFrom state t).2.flatten = t := by
  fun_induction wordsFrom state t <;> simp_all

theorem flatten_wordsOf (t : Text) : (wordsOf t).flatten = t :=
  flatten_wordsFrom .before t

theorem flatten_chopFrom (cells used : Nat) (found : List Sign) :
    (chopFrom cells used found).1 ++ (chopFrom cells used found).2.flatten =
      textOfSigns found := by
  induction found generalizing used with
  | nil =>
      rfl
  | cons sign rest ih =>
      unfold chopFrom
      split
      · rw [textOfSigns_cons, ← ih sign.cells]
        simp
      · rw [textOfSigns_cons, ← ih (used + sign.cells)]
        simp

theorem flatten_chop (cells : Nat) (t : Text) : (chop cells t).flatten = t :=
  (flatten_chopFrom cells 0 (signs t)).trans (textOfSigns_signs t)

theorem width_chopFrom_le {found : List Sign} (hsolid : ∀ sign ∈ found, sign.IsSolid)
    (hcells : ∀ sign ∈ found, sign.cells ≤ cells) (h : IsUnjoined (textOfSigns found)) {used : Nat}
    (hused : used ≤ cells) :
    used + width (chopFrom cells used found).1 ≤ cells ∧
      ∀ piece ∈ (chopFrom cells used found).2, width piece ≤ cells := by
  induction found generalizing used with
  | nil =>
      exact ⟨hused, by simp [chopFrom]⟩
  | cons sign rest ih =>
      rcases List.forall_mem_cons.mp hsolid with ⟨⟨hne, hsign⟩, hrest⟩
      rcases List.forall_mem_cons.mp hcells with ⟨hfits, hrestCells⟩
      rw [textOfSigns_cons] at h
      have hpiece : ∀ used', width (sign.text ++ (chopFrom cells used' rest).1) =
          sign.cells + width (chopFrom cells used' rest).1 := by
        intro used'
        have hfront : sign.text ++ (chopFrom cells used' rest).1 <+:
            sign.text ++ textOfSigns rest :=
          (List.prefix_append_right_inj _).mpr ⟨_, flatten_chopFrom cells used' rest⟩
        rw [width_append (h.of_isInfix hfront.isInfix), hsign _ List.prefix_rfl hne]
      unfold chopFrom
      split
      · rcases ih hrest hrestCells (isUnjoined_append.mp h).2 hfits with ⟨hfirst, hothers⟩
        refine ⟨hused, List.forall_mem_cons.mpr ⟨?_, hothers⟩⟩
        rw [hpiece]
        exact hfirst
      · rename_i hroom
        rcases ih hrest hrestCells (isUnjoined_append.mp h).2
          (show used + sign.cells ≤ cells by omega) with ⟨hfirst, hothers⟩
        refine ⟨?_, hothers⟩
        rw [hpiece, ← Nat.add_assoc]
        exact hfirst

theorem infix_of_mem_signs {sign : Sign} (hsign : sign ∈ signs t) : sign.text <:+: t := by
  have hwithin : sign.text <:+: (signs t).flatMap (·.text) :=
    List.infix_of_mem_flatten (List.mem_map_of_mem hsign)
  rwa [show (signs t).flatMap (·.text) = t from textOfSigns_signs t] at hwithin

theorem cells_le_two (h : IsUnjoined t) : ∀ sign ∈ signs t, sign.cells ≤ 2 := by
  intro sign hsign
  rcases isSolid_of_mem_signs h sign hsign with ⟨hne, hwidth⟩
  rcases List.exists_cons_of_ne_nil hne with ⟨c, behind, htext⟩
  have hfront : [c] <+: sign.text := ⟨behind, htext.symm⟩
  have hunjoined : IsUnjoined [c] := h.of_isInfix (hfront.isInfix.trans (infix_of_mem_signs hsign))
  rw [← hwidth [c] hfront (List.cons_ne_nil _ _), width_cons hunjoined]
  exact charWidth_le_two c

theorem width_le_of_mem_chop (h : IsUnjoined t) (hcells : 2 ≤ cells) :
    ∀ piece ∈ chop cells t, width piece ≤ cells := by
  have hsigns : ∀ sign ∈ signs t, sign.cells ≤ cells := fun sign hsign =>
    Nat.le_trans (cells_le_two h sign hsign) hcells
  rcases width_chopFrom_le (isSolid_of_mem_signs h) hsigns (by rwa [textOfSigns_signs])
    (Nat.zero_le cells) with ⟨hfirst, hothers⟩
  rw [Nat.zero_add] at hfirst
  exact List.forall_mem_cons.mpr ⟨hfirst, hothers⟩

/-!
# Filling lines
-/

namespace Filling

/-- What holds while lines are filled with a text: nothing of it is lost, the width of the last line
is known, and all lines fit but for the blanks at their ends. -/
structure Holds (cells : Nat) (t : Text) (f : Filling) : Prop where
  flatten_lines : f.lines.flatten = t
  used_eq : f.used = width f.line
  fits : ∀ line ∈ f.lines, width (stripRight line) ≤ cells

variable {f : Filling} {word : Text}

theorem mem_lines {line : Text} : line ∈ f.lines ↔ line = f.line ∨ line ∈ f.full := by
  rw [lines, List.mem_reverse, List.mem_cons]

theorem flatten_lines_startLine (f : Filling) (word : Text) :
    (f.startLine word).lines.flatten = f.lines.flatten ++ word := by
  unfold startLine lines
  split
  · rename_i hempty
    rw [Bool.and_eq_true, List.isEmpty_iff, List.isEmpty_iff] at hempty
    simp [hempty.1, hempty.2]
  · simp

theorem Holds.startLine (h : f.Holds cells t) (hword : width (stripRight word) ≤ cells) :
    (f.startLine word).Holds cells (t ++ word) where
  flatten_lines := by
    rw [flatten_lines_startLine, h.flatten_lines]
  used_eq := rfl
  fits := by
    intro line hline
    rcases mem_lines.mp hline with rfl | hfull
    · exact hword
    · unfold Filling.startLine at hfull
      dsimp only at hfull
      split at hfull
      · cases hfull
      · rcases List.mem_cons.mp hfull with rfl | hbefore
        · exact h.fits _ (mem_lines.mpr (Or.inl rfl))
        · exact h.fits _ (mem_lines.mpr (Or.inr hbefore))

theorem Holds.append (h : f.Holds cells t) (hunjoined : IsUnjoined (t ++ word))
    (hroom : f.used + width (stripRight word) ≤ cells) :
    Holds cells (t ++ word) { f with line := f.line ++ word, used := f.used + width word } := by
  have hline : f.line ++ word <:+: t ++ word := by
    refine ⟨f.full.reverse.flatten, [], ?_⟩
    rw [← h.flatten_lines]
    simp [lines]
  have hwidth : width (f.line ++ word) = f.used + width word := by
    rw [width_append (hunjoined.of_isInfix hline), h.used_eq]
  constructor
  · rw [← h.flatten_lines]
    simp [lines]
  · exact hwidth.symm
  · intro line hmem
    rcases mem_lines.mp hmem with rfl | hfull
    · -- The blanks behind the word may hang over the end of the line.
      have hkept : f.line ++ stripRight word <:+: t ++ word :=
        ((List.prefix_append_right_inj _).mpr (Text.dropEndWhile_prefix _ _)).isInfix.trans hline
      calc width (stripRight (f.line ++ word))
        _ ≤ width (f.line ++ stripRight word) :=
            width_le_of_prefix (hunjoined.of_isInfix hkept) (stripRight_append_isPrefix _ _)
        _ = f.used + width (stripRight word) := by
            rw [width_append (hunjoined.of_isInfix hkept), h.used_eq]
        _ ≤ cells := hroom
    · exact h.fits _ (mem_lines.mpr (Or.inr hfull))

theorem Holds.foldl_startLine {pieces : List Text} (h : f.Holds cells t)
    (hpieces : ∀ piece ∈ pieces, width (stripRight piece) ≤ cells) :
    (pieces.foldl Filling.startLine f).Holds cells (t ++ pieces.flatten) := by
  induction pieces generalizing f t with
  | nil =>
      rwa [List.flatten_nil, List.append_nil]
  | cons piece rest ih =>
      rcases List.forall_mem_cons.mp hpieces with ⟨hpiece, hrest⟩
      rw [List.foldl_cons, List.flatten_cons, ← List.append_assoc]
      exact ih (h.startLine hpiece) hrest

theorem width_stripRight_le (h : IsUnjoined t) : width (stripRight t) ≤ width t :=
  width_le_of_prefix h (Text.dropEndWhile_prefix _ _)

theorem Holds.place (h : f.Holds cells t) (hunjoined : IsUnjoined (t ++ word))
    (hcells : 2 ≤ cells) : (f.place cells word).Holds cells (t ++ word) := by
  have hword : IsUnjoined word := (isUnjoined_append.mp hunjoined).2
  unfold Filling.place
  dsimp only
  split
  · rename_i hroom
    exact h.append hunjoined hroom
  · split
    · have hpieces : ∀ piece ∈ chop cells word, width (stripRight piece) ≤ cells := by
        intro piece hpiece
        have hwithin : piece <:+: (chop cells word).flatten := List.infix_of_mem_flatten hpiece
        rw [flatten_chop] at hwithin
        exact Nat.le_trans (width_stripRight_le (hword.of_isInfix hwithin))
          (width_le_of_mem_chop hword hcells piece hpiece)
      have hplaced := h.foldl_startLine hpieces
      rwa [flatten_chop] at hplaced
    · rename_i hnarrow
      exact h.startLine (Nat.le_of_not_lt hnarrow)

theorem Holds.foldl_place {words : List Text} (h : f.Holds cells t)
    (hunjoined : IsUnjoined (t ++ words.flatten)) (hcells : 2 ≤ cells) :
    (words.foldl (Filling.place cells) f).Holds cells (t ++ words.flatten) := by
  induction words generalizing f t with
  | nil =>
      rwa [List.flatten_nil, List.append_nil]
  | cons word rest ih =>
      rw [List.flatten_cons, ← List.append_assoc] at hunjoined ⊢
      rw [List.foldl_cons]
      exact ih (h.place (isUnjoined_append.mp hunjoined).1 hcells) hunjoined

end Filling

theorem infix_of_mem_wrap {line : Text} (h : (wrap cells t).flatten = t)
    (hline : line ∈ wrap cells t) : line <:+: t := by
  have hwithin : line <:+: (wrap cells t).flatten := List.infix_of_mem_flatten hline
  rwa [h] at hwithin

/-- A text broken into lines loses nothing, and each line fits but for the blanks at its end. -/
theorem wrap_of_isUnjoined (h : IsUnjoined t) (hcells : 2 ≤ cells) :
    (wrap cells t).flatten = t ∧ ∀ line ∈ wrap cells t, width (stripRight line) ≤ cells := by
  have hempty : Filling.Holds cells [] ⟨[], [], 0⟩ := by
    constructor
    · rfl
    · rfl
    · intro line hline
      rcases Filling.mem_lines.mp hline with rfl | hfull
      · exact Nat.zero_le cells
      · cases hfull
  have hunjoined : IsUnjoined ([] ++ (wordsOf t).flatten) := by
    rwa [List.nil_append, flatten_wordsOf]
  have hdone := hempty.foldl_place hunjoined hcells
  rw [List.nil_append, flatten_wordsOf] at hdone
  exact ⟨hdone.flatten_lines, hdone.fits⟩

end Text
end SourceAudit
