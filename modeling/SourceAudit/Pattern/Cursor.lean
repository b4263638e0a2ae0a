import SourceAudit.Text.Blank
import SourceAudit.Text.Word

/-!
# Cursors in a text

## Places between characters

A cursor is a place between two characters of a text.  It knows how many characters lie before it,
the one directly before it, and all that follow.  A text of `n` characters has `n + 1` cursors.

The tests at the end (line start, line end, word boundary, end of the text) look at the neighbours
of a cursor only.
-/

namespace SourceAudit

/-- A place between two characters of a text. -/
structure Cursor where
  pos : Nat
  prev : Option Char
  rest : Text

namespace Cursor

def start (t : Text) : Cursor :=
  ⟨0, none, t⟩

def upTo (c d : Cursor) : Text :=
  c.rest.take (d.pos - c.pos)

/-!
# Walking forward

The cursors reached from one place are collected in front of a list of cursors already passed, the
furthest first, so that long texts need no deep recursion.
-/

/-- The cursors from a place to the end of the text, the furthest first, on top of `passed`. -/
def walkOnto (passed : List Cursor) (pos : Nat) (prev : Option Char) (t : Text) : List Cursor :=
  match t with
  | [] => ⟨pos, prev, t⟩ :: passed
  | x :: rest => walkOnto (⟨pos, prev, t⟩ :: passed) (pos + 1) (some x) rest

def all (t : Text) : List Cursor :=
  (walkOnto [] 0 none t).reverse

/-- The cursors reached over characters of one class, the furthest first, on top of `passed`. -/
def spanOnto (accepts : Char → Bool) (passed : List Cursor) (pos : Nat) (prev : Option Char)
    (t : Text) : List Cursor :=
  match t with
  | [] => ⟨pos, prev, t⟩ :: passed
  | x :: rest =>
      if accepts x then spanOnto accepts (⟨pos, prev, t⟩ :: passed) (pos + 1) (some x) rest
      else ⟨pos, prev, t⟩ :: passed

def spans (accepts : Char → Bool) (c : Cursor) : List Cursor :=
  spanOnto accepts [] c.pos c.prev c.rest

def skipFrom (accepts : Char → Bool) (pos : Nat) (prev : Option Char) (t : Text) : Cursor :=
  match t with
  | [] => ⟨pos, prev, t⟩
  | x :: rest =>
      if accepts x then skipFrom accepts (pos + 1) (some x) rest else ⟨pos, prev, t⟩

def skip (accepts : Char → Bool) (c : Cursor) : Cursor :=
  skipFrom accepts c.pos c.prev c.rest

/-- The first success among the places reached over characters of one class, nearest first. -/
def firstOver (accepts : Char → Bool) (attempt : Cursor → Option α) (pos : Nat)
    (prev : Option Char) (t : Text) : Option α :=
  match t with
  | [] => attempt ⟨pos, prev, t⟩
  | x :: rest =>
      match attempt ⟨pos, prev, t⟩ with
      | some found => some found
      | none => if accepts x then firstOver accepts attempt (pos + 1) (some x) rest else none

theorem spanOnto_eq_append (accepts : Char → Bool) (passed : List Cursor) (pos : Nat)
    (prev : Option Char) (t : Text) :
    spanOnto accepts passed pos prev t = spanOnto accepts [] pos prev t ++ passed := by
  induction t generalizing passed pos prev with
  | nil =>
      rfl
  | cons x rest ih =>
      unfold spanOnto
      by_cases hx : accepts x = true
      · rw [if_pos hx, if_pos hx, ih, ih [_]]
        simp
      · rw [if_neg hx, if_neg hx]
        rfl

theorem walkOnto_eq_append (passed : List Cursor) (pos : Nat) (prev : Option Char) (t : Text) :
    walkOnto passed pos prev t = walkOnto [] pos prev t ++ passed := by
  induction t generalizing passed pos prev with
  | nil =>
      rfl
  | cons x rest ih =>
      unfold walkOnto
      rw [ih, ih [_]]
      simp

theorem firstOver_eq_findSome? (accepts : Char → Bool) (attempt : Cursor → Option α) (pos : Nat)
    (prev : Option Char) (t : Text) :
    firstOver accepts attempt pos prev t =
      (spanOnto accepts [] pos prev t).reverse.findSome? attempt := by
  induction t generalizing pos prev with
  | nil =>
      unfold firstOver spanOnto
      cases h : attempt ⟨pos, prev, []⟩ <;> simp [h]
  | cons x rest ih =>
      unfold firstOver spanOnto
      by_cases hx : accepts x = true
      · rw [if_pos hx, if_pos hx, spanOnto_eq_append, ih]
        cases h : attempt ⟨pos, prev, x :: rest⟩ <;> simp [h]
      · rw [if_neg hx, if_neg hx]
        cases h : attempt ⟨pos, prev, x :: rest⟩ <;> simp [h]

/-!
# Tests of a place
-/

def atLineStart (c : Cursor) : Bool :=
  match c.prev with
  | none => true
  | some x => x == '\n'

def atLineEnd (c : Cursor) : Bool :=
  match c.rest with
  | [] => true
  | x :: _ => x == '\n'

def atStart (c : Cursor) : Bool :=
  c.prev.isNone

/-- Whether a place is the end of the text or directly before a line feed that ends it. -/
def atClosingLineEnd (c : Cursor) : Bool :=
  c.rest == [] || c.rest == ['\n']

def atWordBoundary (c : Cursor) : Bool :=
  c.prev.any Text.isWord != c.rest.head?.any Text.isWord

end Cursor
end SourceAudit
