import SourceAudit.Text.Blank
import SourceAudit.Text.Sign

/-!
# Breaking a text into lines

## Words and pieces of words

A text is broken between words into lines of a given width.  A word has the blanks around it; only
its width without the blanks behind it counts when it is placed.  A word that is wider than a whole
line begins on a line of its own and is chopped; what follows goes on behind its last piece.
-/

namespace SourceAudit
namespace Text

inductive WordState where
  | before
  | inside
  | behind

/-- The word in progress, and the words after it.  Blanks belong to the word before them, at the
start of the text to the word behind them. -/
def wordsFrom (state : WordState) : Text → Text × List Text
  | [] => ([], [])
  | c :: rest =>
      match state, isBlank c with
      | .before, true =>
          let (word, others) := wordsFrom .before rest
          (c :: word, others)
      | .before, false =>
          let (word, others) := wordsFrom .inside rest
          (c :: word, others)
      | .inside, true =>
          let (word, others) := wordsFrom .behind rest
          (c :: word, others)
      | .inside, false =>
          let (word, others) := wordsFrom .inside rest
          (c :: word, others)
      | .behind, true =>
          let (word, others) := wordsFrom .behind rest
          (c :: word, others)
      | .behind, false =>
          let (word, others) := wordsFrom .inside rest
          ([], (c :: word) :: others)

def wordsOf (t : Text) : List Text :=
  let (word, others) := wordsFrom .before t
  word :: others

/-- The pieces of a row of signs that fill lines of a given width.  `used` is the width of the piece
in progress. -/
def chopFrom (cells used : Nat) : List Sign → Text × List Text
  | [] => ([], [])
  | sign :: rest =>
      if cells < used + sign.cells then
        let (piece, others) := chopFrom cells sign.cells rest
        ([], (sign.text ++ piece) :: others)
      else
        let (piece, others) := chopFrom cells (used + sign.cells) rest
        (sign.text ++ piece, others)

def chop (cells : Nat) (t : Text) : List Text :=
  let (piece, others) := chopFrom cells 0 (signs t)
  piece :: others

/-- Lines in progress: the full ones, the last one first, the line being filled, and its width. -/
structure Filling where
  full : List Text
  line : Text
  used : Nat

namespace Filling

/-- Begins a new line, unless the current one is the first and still empty. -/
def startLine (f : Filling) (t : Text) : Filling :=
  { full := if f.full.isEmpty && f.line.isEmpty then [] else f.line :: f.full
    line := t
    used := width t }

def place (cells : Nat) (f : Filling) (word : Text) : Filling :=
  let needed := width (stripRight word)
  if f.used + needed ≤ cells then
    { f with line := f.line ++ word, used := f.used + width word }
  else if cells < needed then (chop cells word).foldl startLine f
  else f.startLine word

def lines (f : Filling) : List Text :=
  (f.line :: f.full).reverse

end Filling

/-- The lines of a text broken at a width.  They may still have blanks at their ends. -/
def wrap (cells : Nat) (t : Text) : List Text :=
  ((wordsOf t).foldl (Filling.place cells) ⟨[], [], 0⟩).lines

def fit (cells : Nat) (line : Text) : Text :=
  let cut := cropTo cells line
  cut ++ spaces (cells - width cut)

def fitRight (cells : Nat) (line : Text) : Text :=
  let cut := cropTo cells line
  spaces (cells - width cut) ++ cut

end Text
end SourceAudit
