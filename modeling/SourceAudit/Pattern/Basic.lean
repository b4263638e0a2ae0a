import SourceAudit.Pattern.Cursor

/-!
# Patterns

## Shape and meaning

A pattern describes pieces of a text.  Its meaning is the list of places at which a match begun at a
given cursor can end, the preferred one first.  The order decides which match a search reports, so
alternatives and repetitions are ordered: `either` prefers its first part, `many` prefers long runs
and `few` prefers short ones.  `whole` takes all it can get; it is the right repetition wherever
what follows cannot begin with a character of the same class.

`run` is the form that is executed.  It hands one end after the other to a test of what has to
follow and stops at the first success, so no list of ends is built.  `run_eq_findSome?` says that it
finds what a search through the list of ends finds.
-/

namespace SourceAudit

/-- A description of pieces of a text. -/
inductive Pattern where
  | nothing
  | char (accepts : Char → Bool)
  | check (holds : Cursor → Bool)
  | seq (first second : Pattern)
  | either (preferred other : Pattern)
  | whole (accepts : Char → Bool)
  /-- Any number of characters of a class, rather more. -/
  | many (accepts : Char → Bool)
  /-- Any number of characters of a class, rather fewer. -/
  | few (accepts : Char → Bool)
  /-- Any number of pieces in a row, rather more, each the preferred one at its place. -/
  | rounds (piece : Pattern)
  | ahead (piece : Pattern)

namespace Pattern

/-- The places reached by repeating a step that advances, the furthest first. -/
def roundsOnto (step : Cursor → Option Cursor) :
    Nat → List Cursor → Cursor → List Cursor
  | 0, passed, c => c :: passed
  | limit + 1, passed, c =>
      match step c with
      | none => c :: passed
      | some d =>
          if c.pos < d.pos then roundsOnto step limit (c :: passed) d else c :: passed

/-- The places at which a match of the pattern can end, the preferred one first. -/
def ends : Pattern → Cursor → List Cursor
  | nothing, c => [c]
  | char accepts, c =>
      match c.rest with
      | [] => []
      | x :: rest => if accepts x then [⟨c.pos + 1, some x, rest⟩] else []
  | check holds, c => if holds c then [c] else []
  | seq first second, c => (ends first c).flatMap (ends second)
  | either preferred other, c => ends preferred c ++ ends other c
  | whole accepts, c => [c.skip accepts]
  | many accepts, c => c.spans accepts
  | few accepts, c => (c.spans accepts).reverse
  | rounds piece, c => roundsOnto (fun d => (ends piece d).head?) c.rest.length [] c
  | ahead piece, c => if (ends piece c).isEmpty then [] else [c]

/-- The first success of `k` among the ends of a match that begins at a cursor. -/
def run : Pattern → {α : Type} → Cursor → (Cursor → Option α) → Option α
  | nothing, _, c, k => k c
  | char accepts, _, c, k =>
      match c.rest with
      | [] => none
      | x :: rest => if accepts x then k ⟨c.pos + 1, some x, rest⟩ else none
  | check holds, _, c, k => if holds c then k c else none
  | seq first second, _, c, k => run first c fun d => run second d k
  | either preferred other, _, c, k =>
      match run preferred c k with
      | some found => some found
      | none => run other c k
  | whole accepts, _, c, k => k (c.skip accepts)
  | many accepts, _, c, k => (c.spans accepts).findSome? k
  | few accepts, _, c, k => Cursor.firstOver accepts k c.pos c.prev c.rest
  | rounds piece, _, c, k =>
      (roundsOnto (fun d => run piece d some) c.rest.length [] c).findSome? k
  | ahead piece, _, c, k =>
      match run piece c some with
      | some _ => k c
      | none => none

theorem findSome?_some_eq_head? (ds : List α) : ds.findSome? some = ds.head? := by
  cases ds <;> rfl

theorem findSome?_flatMap {α β γ : Type} (ds : List α) (f : α → List β) (k : β → Option γ) :
    (ds.flatMap f).findSome? k = ds.findSome? fun d => (f d).findSome? k := by
  induction ds with
  | nil =>
      rfl
  | cons d rest ih =>
      rw [List.flatMap_cons, List.findSome?_append, List.findSome?_cons, ih]
      cases (f d).findSome? k <;> rfl

theorem run_eq_findSome? (p : Pattern) {α : Type} (c : Cursor) (k : Cursor → Option α) :
    p.run c k = (p.ends c).findSome? k := by
  induction p generalizing α c with
  | nothing =>
      unfold run ends
      cases h : k c <;> simp [h]
  | char accepts =>
      unfold run ends
      cases hrest : c.rest with
      | nil =>
          rfl
      | cons x rest =>
          by_cases hx : accepts x = true
          · cases h : k ⟨c.pos + 1, some x, rest⟩ <;> simp [hx, h]
          · simp [hx]
  | check holds =>
      unfold run ends
      by_cases hc : holds c = true
      · cases h : k c <;> simp [hc, h]
      · simp [hc]
  | seq first second ihFirst ihSecond =>
      unfold run ends
      rw [ihFirst, findSome?_flatMap]
      congr
      funext d
      exact ihSecond d k
  | either preferred other ihPreferred ihOther =>
      unfold run ends
      rw [ihPreferred, ihOther, List.findSome?_append]
      cases (preferred.ends c).findSome? k <;> rfl
  | whole accepts =>
      unfold run ends
      cases h : k (c.skip accepts) <;> simp [h]
  | many accepts =>
      rfl
  | few accepts =>
      unfold run ends
      rw [Cursor.firstOver_eq_findSome?]
      rfl
  | rounds piece ih =>
      unfold run ends
      have hstep : (fun d => piece.run d some) = fun d => (piece.ends d).head? := by
        funext d
        rw [ih, findSome?_some_eq_head?]
      rw [hstep]
  | ahead piece ih =>
      unfold run ends
      rw [ih, findSome?_some_eq_head?]
      cases h : piece.ends c with
      | nil =>
          simp
      | cons d rest =>
          cases hk : k c <;> simp [hk]

/-!
# Compound patterns
-/

def exactly (x : Char) : Pattern :=
  char (· == x)

def sequence (parts : List Pattern) : Pattern :=
  parts.foldr seq nothing

def oneOf (choices : List Pattern) : Pattern :=
  choices.foldr either (check fun _ => false)

def literal (s : String) : Pattern :=
  sequence (s.toList.map exactly)

def optional (piece : Pattern) : Pattern :=
  either piece nothing

def several (accepts : Char → Bool) : Pattern :=
  seq (char accepts) (whole accepts)

def wordBoundary : Pattern :=
  check Cursor.atWordBoundary

def lineStart : Pattern :=
  check Cursor.atLineStart

def lineEnd : Pattern :=
  check Cursor.atLineEnd

def blanks : Pattern :=
  whole Text.isBlank

def someBlanks : Pattern :=
  several Text.isBlank

def indentation : Pattern :=
  whole Text.isIndent

def restOfLine : Pattern :=
  whole (· != '\n')

def throughColon : Pattern :=
  seq (whole fun x => x != ':' && x != '\n') (exactly ':')

def name : Pattern :=
  seq (char Text.isNameStart) (whole Text.isWord)

def wholeWord (words : List String) : Pattern :=
  seq (oneOf (words.map literal)) wordBoundary

end Pattern
end SourceAudit
