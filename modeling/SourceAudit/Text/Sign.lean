import SourceAudit.Text.Width

/-!
# Signs on a terminal

## Pieces that cannot be cut

A sign is a piece of a text that is drawn as one: a character together with the marks, selectors and
joined characters behind it.  Marks at the start of a text are a sign without cells.  A joiner at the
start has nothing to join to; the character behind it begins a sign of its own.

A text is cropped between signs.  Where one half of a wide sign would remain, a space takes its
place.

The signs of a text make up the text.
-/

namespace SourceAudit
namespace Text

/-- A piece of a text that is drawn as one. -/
structure Sign where
  text : Text
  cells : Nat
  deriving DecidableEq, Repr

def Sign.extend (front : Text) (cells : Nat) (sign : Sign) : Sign :=
  ⟨front ++ sign.text, cells + sign.cells⟩

/-- What a text adds to the sign before it, and the signs behind that.  `drawn` is the character
drawn last, unless its form has been chosen already. -/
def signsFrom (drawn : Option Char) : Text → Sign × List Sign
  | [] => (⟨[], 0⟩, [])
  | c :: rest =>
      if c = joiner then
        match rest with
        | [] => (⟨[c], 0⟩, [])
        | d :: later =>
            let found := signsFrom drawn later
            (found.1.extend [c, d] 0, found.2)
      else if c = selector then
        let found := signsFrom none rest
        (found.1.extend [c] (selectorWidth drawn), found.2)
      else if charWidth c = 0 then
        let found := signsFrom drawn rest
        (found.1.extend [c] 0, found.2)
      else
        let found := signsFrom (some c) rest
        (⟨[], 0⟩, found.1.extend [c] (charWidth c) :: found.2)

/-- The signs in front of which `first` stands, if it holds anything. -/
def withFirst (first : Sign) (others : List Sign) : List Sign :=
  if first.text.isEmpty then others else first :: others

def signs : Text → List Sign
  | [] => []
  | c :: rest =>
      if c = joiner then
        let found := signsFrom none rest
        found.1.extend [c] 0 :: found.2
      else
        let found := signsFrom none (c :: rest)
        withFirst found.1 found.2

def textOfSigns (found : List Sign) : Text :=
  found.flatMap (·.text)

def cellsOfSigns (found : List Sign) : Nat :=
  found.foldr (fun sign cells => sign.cells + cells) 0

/-!
# Cropping
-/

def fittingSigns : Nat → List Sign → List Sign
  | _, [] => []
  | cells, sign :: rest =>
      if sign.cells ≤ cells then sign :: fittingSigns (cells - sign.cells) rest else []

def cropTo (cells : Nat) (t : Text) : Text :=
  if width t ≤ cells then t
  else
    let kept := fittingSigns cells (signs t)
    textOfSigns kept ++ spaces (cells - cellsOfSigns kept)

/-!
# Nothing is lost
-/

theorem signsFrom_text (drawn : Option Char) (t : Text) :
    (signsFrom drawn t).1.text ++ textOfSigns (signsFrom drawn t).2 = t := by
  fun_induction signsFrom drawn t with
  | case1 =>
      rfl
  | case2 =>
      rfl
  | case3 drawn d later found ih =>
      show joiner :: d :: (found.1.text ++ textOfSigns found.2) = _
      rw [ih]
  | case4 drawn rest found _ ih =>
      show selector :: (found.1.text ++ textOfSigns found.2) = _
      rw [ih]
  | case5 drawn c rest _ _ _ found ih =>
      show c :: (found.1.text ++ textOfSigns found.2) = _
      rw [ih]
  | case6 drawn c rest _ _ _ found ih =>
      show c :: (found.1.text ++ textOfSigns found.2) = _
      rw [ih]

theorem textOfSigns_withFirst (first : Sign) (others : List Sign) :
    textOfSigns (withFirst first others) = first.text ++ textOfSigns others := by
  unfold withFirst
  cases h : first.text with
  | nil =>
      rfl
  | cons c rest =>
      show first.text ++ textOfSigns others = _
      rw [h]

/-- The signs of a text make up the text. -/
theorem textOfSigns_signs (t : Text) : textOfSigns (signs t) = t := by
  cases t with
  | nil =>
      rfl
  | cons c rest =>
      rw [signs]
      by_cases hc : c = joiner
      · rw [if_pos hc]
        show c :: ((signsFrom none rest).1.text ++ textOfSigns (signsFrom none rest).2) = _
        rw [signsFrom_text]
      · rw [if_neg hc]
        show textOfSigns (withFirst (signsFrom none (c :: rest)).1
          (signsFrom none (c :: rest)).2) = _
        rw [textOfSigns_withFirst, signsFrom_text]

end Text
end SourceAudit
