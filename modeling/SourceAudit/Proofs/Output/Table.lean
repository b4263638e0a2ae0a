import Mathlib.Data.List.Forall2
import Mathlib.Tactic.Ring
import SourceAudit.Output.Table
import SourceAudit.Proofs.Text.Wrapping

/-!
# Tables show their cells

## Columns and rows

Columns that share some cells use all of them, and no column gets less than its part.  A row is drawn
line by line; each line holds the lines of all cells of the row that have that many.  So a text that
is broken to the width of its column stands in the row, one line below the other.
-/

namespace SourceAudit

/-!
# Columns
-/

namespace Number

variable {num den bound : Nat}

theorem le_ceilDiv (hden : 0 < den) (h : bound * den ≤ num) : bound ≤ ceilDiv num den :=
  (Nat.le_div_iff_mul_le hden).mpr (Nat.le_trans h (Nat.le_add_right _ _))

theorem ceilDiv_le (hden : 0 < den) (h : num ≤ bound * den) : ceilDiv num den ≤ bound := by
  apply Nat.le_of_lt_succ
  apply (Nat.div_lt_iff_lt_mul hden).mpr
  rw [Nat.succ_mul]
  omega

end Number

namespace Table

variable {least part cells : Nat}

theorem total_nil : total [] = 0 := rfl

theorem total_cons (cells : Nat) (rest : List Nat) :
    total (cells :: rest) = cells + total rest := rfl

/-- A share is no less than its part, and it leaves their parts to the shares behind it. -/
theorem share_bounds {ratio others : Nat} (hratio : 0 < ratio)
    (h : part * (ratio + others) ≤ cells) :
    part * ratio ≤ Number.ceilDiv (ratio * cells) (ratio + others) ∧
      Number.ceilDiv (ratio * cells) (ratio + others) + part * others ≤ cells := by
  have htotal : 0 < ratio + others := Nat.add_pos_left hratio others
  rcases Nat.exists_eq_add_of_le h with ⟨extra, rfl⟩
  have hleft : part * ratio * (ratio + others) ≤ ratio * (part * (ratio + others) + extra) := by
    calc part * ratio * (ratio + others)
      _ = ratio * (part * (ratio + others)) := by ring
      _ ≤ ratio * (part * (ratio + others) + extra) := Nat.mul_le_mul_left _ (Nat.le_add_right _ _)
  have hright : ratio * (part * (ratio + others) + extra) ≤
      (part * ratio + extra) * (ratio + others) := by
    calc ratio * (part * (ratio + others) + extra)
      _ = part * ratio * (ratio + others) + extra * ratio := by ring
      _ ≤ part * ratio * (ratio + others) + extra * (ratio + others) :=
          Nat.add_le_add_left (Nat.mul_le_mul_left _ (Nat.le_add_right _ _)) _
      _ = (part * ratio + extra) * (ratio + others) := by ring
  have hupper := Number.ceilDiv_le htotal hright
  have hparts : part * (ratio + others) = part * ratio + part * others := Nat.mul_add _ _ _
  exact ⟨Number.le_ceilDiv htotal hleft, by omega⟩

theorem distribute_bounds {ratios : List Nat} (hleast : least ≤ part)
    (hpositive : ∀ ratio ∈ ratios, 0 < ratio) (h : part * total ratios ≤ cells) :
    (∀ share ∈ distribute least cells ratios, part ≤ share) ∧
      (ratios ≠ [] → total (distribute least cells ratios) = cells) := by
  induction ratios generalizing cells with
  | nil =>
      exact ⟨by simp [distribute], fun hne => absurd rfl hne⟩
  | cons ratio rest ih =>
      rcases List.forall_mem_cons.mp hpositive with ⟨hratio, hrest⟩
      rw [total_cons] at h
      rcases share_bounds hratio h with ⟨hlower, hupper⟩
      have hpart : part ≤ part * ratio := Nat.le_mul_of_pos_right part hratio
      have hshare : max least (Number.ceilDiv (ratio * cells) (ratio + total rest)) =
          Number.ceilDiv (ratio * cells) (ratio + total rest) :=
        Nat.max_eq_right (by omega)
      unfold distribute
      rw [hshare]
      rcases ih hrest (show part * total rest ≤
        cells - Number.ceilDiv (ratio * cells) (ratio + total rest) by omega) with ⟨hparts, hsum⟩
      refine ⟨List.forall_mem_cons.mpr ⟨by omega, hparts⟩, fun _ => ?_⟩
      rw [total_cons]
      by_cases hlast : rest = []
      · rw [hlast, total_nil, Nat.add_zero]
        show Number.ceilDiv (ratio * cells) ratio + 0 = cells
        apply Nat.le_antisymm
        · exact Number.ceilDiv_le hratio (Nat.le_of_eq (Nat.mul_comm _ _))
        · exact Number.le_ceilDiv hratio (Nat.le_of_eq (Nat.mul_comm _ _))
      · rw [hsum hlast]
        omega

theorem length_distribute (least cells : Nat) (ratios : List Nat) :
    (distribute least cells ratios).length = ratios.length := by
  induction ratios generalizing cells with
  | nil =>
      rfl
  | cons ratio rest ih =>
      exact congrArg (· + 1) (ih _)

theorem length_draw (rule : Rule) {widths : List Nat} (hne : widths ≠ []) :
    (rule.draw widths).length = total widths + 3 * widths.length + 2 := by
  have hjoin : ∀ widths : List Nat,
      (widths.flatMap fun cells => [rule.cross] ++ List.replicate (cells + 2) rule.line).length =
        total widths + 3 * widths.length := by
    intro widths
    induction widths with
    | nil =>
        rfl
    | cons cells rest ih =>
        rw [List.flatMap_cons, List.length_append, ih, total_cons]
        simp only [List.length_append, List.length_cons, List.length_nil, List.length_replicate]
        omega
  rcases List.exists_cons_of_ne_nil hne with ⟨cells, rest, rfl⟩
  have hrest := hjoin rest
  unfold Rule.draw
  rw [List.map_cons, Text.join, List.flatMap_map]
  simp only [List.length_append, List.length_cons, List.length_nil, List.length_replicate,
    total_cons] at hrest ⊢
  omega

/-!
# Pieces of a drawing
-/

end Table

namespace Text

theorem infix_join {between piece : Text} {pieces : List Text} (h : piece ∈ pieces) :
    piece <:+: join between pieces := by
  cases pieces with
  | nil =>
      cases h
  | cons first rest =>
      rcases List.mem_cons.mp h with rfl | hrest
      · exact (List.prefix_append _ _).isInfix
      · have hpiece : between ++ piece <:+: rest.flatMap (between ++ ·) :=
          List.infix_of_mem_flatten (List.mem_map_of_mem hrest)
        exact (List.suffix_append _ _).isInfix.trans (hpiece.trans (List.suffix_append _ _).isInfix)

/-- Whether a text is one line with the line feed behind it. -/
def IsLine (t : Text) : Prop :=
  ∃ line, t = line ++ ['\n'] ∧ '\n' ∉ line

/-- Whether the first of some rows hold a text piece by piece, each but for the blanks at its end.
-/
def IsBrokenOver (t : Text) (rows : List Text) : Prop :=
  ∃ pieces upper lower, pieces.flatten = t ∧ rows = upper ++ lower ∧
    List.Forall₂ (fun piece row => stripRight piece <:+: row) pieces upper

end Text

theorem infix_styled (style : Style) (t : Text) : t <:+: styled style t := by
  cases style with
  | none =>
      exact List.infix_rfl
  | some code =>
      exact ⟨_, _, rfl⟩

theorem not_mem_styled {style : Style} {t : Text} {c : Char} (hstyle : c ∉ styled style [])
    (ht : c ∉ t) : c ∉ styled style t := by
  cases style with
  | none =>
      exact ht
  | some code =>
      unfold styled at hstyle ⊢
      simp only [List.mem_append, not_or] at hstyle ⊢
      exact ⟨⟨hstyle.1.1, ht⟩, hstyle.2⟩

namespace Table

theorem infix_cellLine (style : Style) (line : Text) : line <:+: cellLine style line :=
  (infix_styled style line).trans ⟨_, _, rfl⟩

theorem infix_drawLine (border : Char) {part : Text} {parts : List Text} (h : part ∈ parts) :
    part <:+: drawLine border parts :=
  (Text.infix_join h).trans ⟨_, _, rfl⟩

/-!
# Rows
-/

theorem exists_upper_acrossColumns {height : Nat} {columns : List (List Text)}
    {shown missing : List Text} (hcolumn : shown ++ missing ∈ columns)
    (hheight : shown.length ≤ height) :
    ∃ upper lower, acrossColumns height columns = upper ++ lower ∧
      List.Forall₂ (fun line parts => line ∈ parts) shown upper := by
  induction shown generalizing height columns with
  | nil =>
      exact ⟨[], acrossColumns height columns, rfl, List.Forall₂.nil⟩
  | cons line rest ih =>
      cases height with
      | zero =>
          exact absurd hheight (Nat.not_succ_le_zero _)
      | succ height =>
          have hline : line ∈ columns.map (·.headD []) :=
            List.mem_map.mpr ⟨_, hcolumn, rfl⟩
          -- Below the first lines of all columns, the column goes on without its own first line.
          have hrest : rest ++ missing ∈ columns.map List.tail :=
            List.mem_map.mpr ⟨_, hcolumn, rfl⟩
          rcases ih hrest (Nat.le_of_succ_le_succ hheight) with ⟨upper, lower, hacross, hupper⟩
          refine ⟨columns.map (·.headD []) :: upper, lower, ?_, List.Forall₂.cons hline hupper⟩
          unfold acrossColumns
          rw [hacross]
          rfl

theorem le_foldl_max (first : Nat) (numbers : List Nat) :
    first ≤ numbers.foldl max first ∧ ∀ n ∈ numbers, n ≤ numbers.foldl max first := by
  induction numbers generalizing first with
  | nil =>
      exact ⟨Nat.le_refl first, by simp⟩
  | cons n rest ih =>
      rcases ih (max first n) with ⟨hfirst, hrest⟩
      rw [List.foldl_cons]
      exact ⟨Nat.le_trans (Nat.le_max_left first n) hfirst,
        List.forall_mem_cons.mpr ⟨Nat.le_trans (Nat.le_max_right first n) hfirst, hrest⟩⟩

theorem mem_of_mem_acrossColumns {height : Nat} {columns : List (List Text)} {parts : List Text}
    {part : Text} (hparts : parts ∈ acrossColumns height columns) (hpart : part ∈ parts) :
    part = [] ∨ ∃ column ∈ columns, part ∈ column := by
  induction height generalizing columns with
  | zero =>
      cases hparts
  | succ height ih =>
      rcases List.mem_cons.mp hparts with rfl | hbelow
      · rcases List.mem_map.mp hpart with ⟨column, hcolumn, rfl⟩
        cases column with
        | nil =>
            exact Or.inl rfl
        | cons first rest =>
            exact Or.inr ⟨_, hcolumn, List.mem_cons_self⟩
      · rcases ih hbelow with hnil | ⟨_, htail, hmem⟩
        · exact Or.inl hnil
        · rcases List.mem_map.mp htail with ⟨column, hcolumn, rfl⟩
          exact Or.inr ⟨column, hcolumn, List.mem_of_mem_tail hmem⟩

theorem not_mem_cellLine {style : Style} (hstyle : '\n' ∉ styled style []) {line : Text}
    (hline : '\n' ∉ line) : '\n' ∉ cellLine style line := by
  unfold cellLine
  simp only [List.mem_append, not_or]
  exact ⟨⟨not_mem_styled hstyle (by decide), not_mem_styled hstyle hline⟩,
    not_mem_styled hstyle (by decide)⟩

theorem not_mem_filled {style : Style} (hstyle : '\n' ∉ styled style []) {cell : Cell}
    (hcell : ∀ line ∈ cell.lines, '\n' ∉ line) (height : Nat) :
    ∀ line ∈ cell.filled style false height, '\n' ∉ line := by
  intro line hline
  rcases List.mem_append.mp hline with hshown | hmissing
  · rcases List.mem_map.mp hshown with ⟨shown, hmem, rfl⟩
    exact not_mem_cellLine hstyle (hcell shown hmem)
  · rw [List.eq_of_mem_replicate hmissing]
    apply not_mem_styled hstyle
    intro hspace
    exact absurd (List.eq_of_mem_replicate hspace) (by decide)

def rowLines (style : Style) (border : Char) (row : List Cell) : List Text :=
  let height := (row.map (·.lines.length)).foldl max 0
  (acrossColumns height (row.map (Cell.filled style false height))).map (drawLine border)

theorem flatten_rowLines (style : Style) (border : Char) (row : List Cell) :
    (rowLines style border row).flatten = drawRow style false border row :=
  rfl

theorem isLine_drawLine {border : Char} (hborder : border ≠ '\n') {parts : List Text}
    (hparts : ∀ part ∈ parts, '\n' ∉ part) : (drawLine border parts).IsLine := by
  have hbetween : '\n' ∉ [border] := by
    simpa using Ne.symm hborder
  have hjoin : '\n' ∉ Text.join [border] parts := by
    intro hmem
    rcases Text.mem_of_mem_join hmem with hmem | ⟨part, hpart, hmem⟩
    · exact hbetween hmem
    · exact hparts part hpart hmem
  refine ⟨[border] ++ Text.join [border] parts ++ [border], ?_, ?_⟩
  · unfold drawLine
    simp
  · simp only [List.mem_append, not_or]
    exact ⟨⟨hbetween, hjoin⟩, hbetween⟩

theorem isLine_of_mem_rowLines {style : Style} (hstyle : '\n' ∉ styled style []) {border : Char}
    (hborder : border ≠ '\n') {row : List Cell}
    (hrow : ∀ cell ∈ row, ∀ line ∈ cell.lines, '\n' ∉ line) :
    ∀ drawn ∈ rowLines style border row, drawn.IsLine := by
  intro drawn hdrawn
  rcases List.mem_map.mp hdrawn with ⟨parts, hparts, rfl⟩
  apply isLine_drawLine hborder
  intro part hpart
  rcases mem_of_mem_acrossColumns hparts hpart with rfl | ⟨column, hcolumn, hmem⟩
  · exact List.not_mem_nil
  · rcases List.mem_map.mp hcolumn with ⟨cell, hcell, rfl⟩
    exact not_mem_filled hstyle (hrow cell hcell) _ part hmem

theorem not_mem_wrapped {cells : Nat} {t : Text} (ht : t.IsUnjoined) (hcells : 2 ≤ cells)
    (hfeed : '\n' ∉ t) : ∀ line ∈ (wrapped cells t).lines, '\n' ∉ line := by
  intro line hline hmem
  rcases List.mem_map.mp hline with ⟨piece, hpiece, rfl⟩
  rcases Text.mem_of_mem_fit hmem with hmem | hspace
  · exact hfeed ((Text.infix_of_mem_wrap (Text.wrap_of_isUnjoined ht hcells).1 hpiece).subset hmem)
  · exact absurd hspace (by decide)

theorem exists_upper_rowLines (style : Style) (border : Char) {row : List Cell} {cell : Cell}
    (hcell : cell ∈ row) :
    ∃ upper lower, rowLines style border row = upper ++ lower ∧
      List.Forall₂ (fun line drawn => line <:+: drawn) cell.lines upper := by
  have hheight : (cell.lines.map (cellLine style)).length ≤
      (row.map (·.lines.length)).foldl max 0 := by
    rw [List.length_map]
    exact (le_foldl_max 0 _).2 _ (List.mem_map.mpr ⟨cell, hcell, rfl⟩)
  have hcolumn : cell.filled style false ((row.map (·.lines.length)).foldl max 0) ∈
      row.map (Cell.filled style false ((row.map (·.lines.length)).foldl max 0)) :=
    List.mem_map_of_mem hcell
  rcases exists_upper_acrossColumns hcolumn hheight with ⟨upper, lower, hacross, hupper⟩
  refine ⟨upper.map (drawLine border), lower.map (drawLine border), ?_, ?_⟩
  · unfold rowLines
    dsimp only
    rw [hacross, List.map_append]
  · rw [List.forall₂_map_left_iff] at hupper
    rw [List.forall₂_map_right_iff]
    exact hupper.imp fun line parts hline =>
      (infix_cellLine style line).trans (infix_drawLine border hline)

/-- A text in a row is broken over the lines of the row. -/
theorem isBrokenOver_rowLines (style : Style) (border : Char) {row : List Cell} {cells : Nat}
    {t : Text} (hcells : 2 ≤ cells) (ht : t.IsUnjoined) (hcell : wrapped cells t ∈ row) :
    t.IsBrokenOver (rowLines style border row) := by
  rcases Text.wrap_of_isUnjoined ht hcells with ⟨hflatten, hfits⟩
  rcases exists_upper_rowLines style border hcell with ⟨upper, lower, hrows, hupper⟩
  have hfitted : List.Forall₂ (fun piece drawn => Text.fit cells piece <:+: drawn)
      (Text.wrap cells t) upper :=
    List.forall₂_map_left_iff.mp hupper
  have hkept : ∀ piece ∈ Text.wrap cells t, Text.stripRight piece <+: Text.fit cells piece := by
    intro piece hpiece
    have hunjoined : piece.IsUnjoined := ht.of_isInfix (Text.infix_of_mem_wrap hflatten hpiece)
    exact Text.prefix_fit hunjoined (Text.dropEndWhile_prefix _ _) (hfits piece hpiece)
  refine ⟨Text.wrap cells t, upper, lower, hflatten, hrows, ?_⟩
  exact ((List.forall₂_and_left _ _).mpr ⟨hkept, hfitted⟩).imp fun piece drawn hpiece =>
    hpiece.1.isInfix.trans hpiece.2

theorem rows_infix_draw (widths : List Nat) (head : List Cell) (ruled : Bool) (rows : List Row) :
    Text.join (if ruled then rowRule.draw widths else [])
        (rows.map fun row => drawRow row.style false bodyBorder row.cells) <:+:
      draw widths head ruled rows :=
  ⟨_, _, rfl⟩

theorem row_infix_draw (widths : List Nat) (head : List Cell) (ruled : Bool) {rows : List Row}
    {row : Row} (hrow : row ∈ rows) :
    drawRow row.style false bodyBorder row.cells <:+: draw widths head ruled rows :=
  (Text.infix_join (List.mem_map_of_mem hrow)).trans (rows_infix_draw widths head ruled rows)

end Table
end SourceAudit
