/-!
# Texts and their pieces

## Texts

A text is a list of characters.  This module cuts a text at separators, in particular into lines,
and joins pieces again.  A text has one more piece than it has separators, so the empty text has one
empty line.
-/

namespace SourceAudit

abbrev Text := List Char

namespace Text

/-!
# Cutting at separators
-/

/-- The first piece of a text and the pieces after it, cut where a character is a separator. -/
def cut (isSeparator : Char → Bool) (t : Text) : Text × List Text :=
  t.foldr (fun c pieces =>
    if isSeparator c then ([], pieces.1 :: pieces.2) else (c :: pieces.1, pieces.2)) ([], [])

def cutWhere (isSeparator : Char → Bool) (t : Text) : List Text :=
  (cut isSeparator t).1 :: (cut isSeparator t).2

def cutAt (separator : Char) (t : Text) : List Text :=
  cutWhere (· == separator) t

def lines (t : Text) : List Text :=
  cutAt '\n' t

theorem cutWhere_nil (isSeparator : Char → Bool) :
    cutWhere isSeparator [] = [[]] := rfl

theorem cut_cons (isSeparator : Char → Bool) (c : Char) (t : Text) :
    cut isSeparator (c :: t) =
      if isSeparator c then ([], cutWhere isSeparator t)
      else (c :: (cut isSeparator t).1, (cut isSeparator t).2) := rfl

theorem cutWhere_cons_of_separator {isSeparator : Char → Bool} {c : Char}
    (hc : isSeparator c = true) (t : Text) :
    cutWhere isSeparator (c :: t) = [] :: cutWhere isSeparator t := by
  unfold cutWhere
  rw [cut_cons, if_pos hc]
  rfl

theorem cutWhere_ne_nil (isSeparator : Char → Bool) (t : Text) :
    cutWhere isSeparator t ≠ [] := by
  intro h
  cases h

theorem cutWhere_append_separator {isSeparator : Char → Bool} {c : Char}
    (hc : isSeparator c = true) (a b : Text) :
    cutWhere isSeparator (a ++ c :: b) =
      cutWhere isSeparator a ++ cutWhere isSeparator b := by
  induction a with
  | nil =>
      rw [List.nil_append, cutWhere_cons_of_separator hc, cutWhere_nil]
      rfl
  | cons x rest ih =>
      unfold cutWhere at ih ⊢
      rw [List.cons_append, cut_cons, cut_cons]
      by_cases hx : isSeparator x = true
      · rw [if_pos hx, if_pos hx]
        show [] :: cutWhere isSeparator (rest ++ c :: b) =
          [] :: cutWhere isSeparator rest ++ _
        unfold cutWhere
        rw [ih]
        rfl
      · rw [if_neg hx, if_neg hx]
        rw [List.cons_append] at ih
        have hfirst := (List.cons.inj ih).1
        have hrest := (List.cons.inj ih).2
        show (x :: _) :: _ = (x :: _) :: _ ++ _
        rw [hfirst, hrest]
        rfl

/-!
# Joining pieces
-/

/-- The pieces in order with the same text between each two neighbours. -/
def join (between : Text) : List Text → Text
  | [] => []
  | first :: rest => first ++ rest.flatMap (between ++ ·)

def dropEndWhile (drop : Char → Bool) (t : Text) : Text :=
  (t.reverse.dropWhile drop).reverse

def isQuote (c : Char) : Bool :=
  c == '\x22' || c == '\x27'

end Text
end SourceAudit
