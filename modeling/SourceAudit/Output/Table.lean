import SourceAudit.Number.Rounding
import SourceAudit.Output.Wrap

/-!
# Tables on a terminal

## Cells, rows and rules

A table is drawn with heavy lines around its header and light lines around its body.  Each cell has
one space of padding on both sides.  The lines of a cell are aligned at the top of their row, those
of the header at its bottom.  A style is a code that is switched on before a piece of text and off
behind it; borders have none.

A table fills the terminal.  Its columns share the cells that the upright borders leave, either in
given proportions or in proportion to the widths that they need.
-/

namespace SourceAudit

abbrev Style := Option String

def styled (style : Style) (t : Text) : Text :=
  match style with
  | none => t
  | some code => "\x1b[".toList ++ code.toList ++ ['m'] ++ t ++ "\x1b[0m".toList

namespace Table

structure Rule where
  left : Char
  line : Char
  cross : Char
  right : Char

def topRule : Rule := ⟨'┏', '━', '┳', '┓'⟩

def headRule : Rule := ⟨'┡', '━', '╇', '┩'⟩

def rowRule : Rule := ⟨'├', '─', '┼', '┤'⟩

def bottomRule : Rule := ⟨'└', '─', '┴', '┘'⟩

def headBorder : Char := '┃'

def bodyBorder : Char := '│'

/-!
# Widths of columns
-/

/-- The cells that the upright borders of a number of columns leave. -/
def inside (width columns : Nat) : Nat :=
  width - (columns + 1)

def total (widths : List Nat) : Nat :=
  widths.foldr (· + ·) 0

/-- Shares of some cells in given proportions.  Each is rounded up from what the shares before it
leave. -/
def distribute (least : Nat) : Nat → List Nat → List Nat
  | _, [] => []
  | cells, ratio :: rest =>
      let share := max least (Number.ceilDiv (ratio * cells) (ratio + total rest))
      share :: distribute least (cells - share) rest

/-- Widths that are widened in proportion until they fill some cells. -/
def widen (cells : Nat) (widths : List Nat) : List Nat :=
  List.zipWith (· + ·) widths (distribute 0 (cells - total widths) widths)

/-!
# Drawing
-/

def Rule.draw (rule : Rule) (widths : List Nat) : Text :=
  [rule.left] ++
    Text.join [rule.cross] (widths.map fun cells => List.replicate (cells + 2) rule.line) ++
    [rule.right, '\n']

def cellLine (style : Style) (line : Text) : Text :=
  styled style [' '] ++ styled style line ++ styled style [' ']

def emptyLine (style : Style) (cells : Nat) : Text :=
  styled style (Text.spaces (cells + 2))

/-- A cell: its inner width and its lines, fitted to it. -/
structure Cell where
  cells : Nat
  lines : List Text

def wrapped (cells : Nat) (t : Text) : Cell :=
  { cells, lines := (Text.wrap cells t).map (Text.fit cells) }

def Cell.filled (style : Style) (atBottom : Bool) (height : Nat) (cell : Cell) : List Text :=
  let shown := cell.lines.map (cellLine style)
  let missing := List.replicate (height - shown.length) (emptyLine style cell.cells)
  if atBottom then missing ++ shown else shown ++ missing

def drawLine (border : Char) (parts : List Text) : Text :=
  [border] ++ Text.join [border] parts ++ [border, '\n']

/-- The first lines of some columns, then the second ones, and so on. -/
def acrossColumns : Nat → List (List Text) → List (List Text)
  | 0, _ => []
  | height + 1, columns =>
      columns.map (·.headD []) :: acrossColumns height (columns.map List.tail)

def drawRow (style : Style) (atBottom : Bool) (border : Char) (row : List Cell) : Text :=
  let height := (row.map (·.lines.length)).foldl max 0
  let columns := row.map (Cell.filled style atBottom height)
  (acrossColumns height columns).flatMap (drawLine border)

structure Row where
  style : Style
  cells : List Cell

def headStyle : Style := some "1"

def draw (widths : List Nat) (head : List Cell) (ruled : Bool) (rows : List Row) : Text :=
  topRule.draw widths ++ drawRow headStyle true headBorder head ++ headRule.draw widths ++
    Text.join (if ruled then rowRule.draw widths else [])
      (rows.map fun row => drawRow row.style false bodyBorder row.cells) ++
    bottomRule.draw widths

end Table
end SourceAudit
