import SourceAudit.Output.ReportTable
import SourceAudit.Proofs.Command.Entries
import SourceAudit.Proofs.Command.Streams
import SourceAudit.Proofs.Output.Table

/-!
# Drawn reports

## What a drawing shows

A drawn report shows the label of its source, the verdict, every metric beside its name, and every
finding.  The findings stand in their order, each in a block of lines over which its texts are
broken; nothing of a text is cut off.  The columns of their table fill the terminal.
-/

namespace SourceAudit

/-!
# The table of findings
-/

theorem inside_findingColumns {width : Nat} (h : 80 ≤ width) :
    6 * Table.total (findingColumns.map (·.2)) ≤ Table.inside width findingColumns.length := by
  have hsum : Table.total (findingColumns.map (·.2)) = 11 := rfl
  have hinside : Table.inside width findingColumns.length = width - 6 := rfl
  omega

theorem shares_findingColumns {width : Nat} (h : 80 ≤ width) :
    (∀ share ∈ Table.distribute 3 (Table.inside width findingColumns.length)
        (findingColumns.map (·.2)), 6 ≤ share) ∧
      Table.total (Table.distribute 3 (Table.inside width findingColumns.length)
        (findingColumns.map (·.2))) = Table.inside width findingColumns.length := by
  rcases Table.distribute_bounds (show 3 ≤ 6 by decide) (by decide)
    (inside_findingColumns h) with ⟨hparts, hsum⟩
  exact ⟨hparts, hsum (by decide)⟩

theorem four_le_of_mem_findingWidths {width : Nat} (h : 80 ≤ width) :
    ∀ cells ∈ findingWidths width, 4 ≤ cells := by
  intro cells hcells
  rcases List.mem_map.mp hcells with ⟨share, hshare, rfl⟩
  have hpart := (shares_findingColumns h).1 share hshare
  omega

theorem length_findingWidths (width : Nat) : (findingWidths width).length = 5 :=
  (List.length_map _).trans (Table.length_distribute _ _ _)

theorem total_map_sub {n : Nat} {numbers : List Nat} (h : ∀ number ∈ numbers, n ≤ number) :
    Table.total (numbers.map (· - n)) + n * numbers.length = Table.total numbers := by
  induction numbers with
  | nil =>
      rfl
  | cons number rest ih =>
      rcases List.forall_mem_cons.mp h with ⟨hnumber, hrest⟩
      have hsum := ih hrest
      rw [List.map_cons, Table.total_cons, Table.total_cons, List.length_cons, Nat.mul_succ]
      omega

/-- The table of findings is as wide as the terminal. -/
theorem length_draw_findingWidths (rule : Table.Rule) {width : Nat} (h : 80 ≤ width) :
    (rule.draw (findingWidths width)).length = width + 1 := by
  have hne : findingWidths width ≠ [] := by
    intro hnil
    have hlength := length_findingWidths width
    rw [hnil] at hlength
    cases hlength
  rcases shares_findingColumns h with ⟨hparts, hsum⟩
  have hwidths : Table.total (findingWidths width) + 2 * 5 = width - 6 :=
    (total_map_sub fun share hshare => Nat.le_trans (by decide) (hparts share hshare)).trans hsum
  rw [Table.length_draw rule hne, length_findingWidths]
  omega

/-!
# Findings
-/

/-- Whether a drawing shows some findings in their order, with the same text between each two.  Each
stands in a block of lines, over which every text that is told about it is broken. -/
def ShowsFindings (drawing : Text) (found : List Finding) : Prop :=
  ∃ between blocks, Text.join between (blocks.map List.flatten) <:+: drawing ∧
    List.Forall₂ (fun finding rows => (∀ row ∈ rows, Text.IsLine row) ∧
      ∀ text ∈ finding.texts, Text.IsBrokenOver text.toList rows) found blocks

theorem ShowsFindings.of_isInfix {drawing drawing' : Text} {found : List Finding}
    (h : ShowsFindings drawing found) (hwithin : drawing <:+: drawing') :
    ShowsFindings drawing' found := by
  rcases h with ⟨between, blocks, hshown, hblocks⟩
  exact ⟨between, blocks, hshown.trans hwithin, hblocks⟩

theorem exists_mem_zipWith {α β γ : Type} (f : α → β → γ) {as : List α} {bs : List β}
    (hlength : bs.length ≤ as.length) {b : β} (hb : b ∈ bs) :
    ∃ a ∈ as, f a b ∈ List.zipWith f as bs := by
  rw [← List.map_snd_zip hlength] at hb
  rcases List.mem_map.mp hb with ⟨⟨a, _⟩, hpair, rfl⟩
  refine ⟨a, (List.of_mem_zip hpair).1, ?_⟩
  rw [← List.map_uncurry_zip_eq_zipWith]
  exact List.mem_map_of_mem hpair

theorem exists_of_mem_zipWith {α β γ : Type} {f : α → β → γ} {as : List α} {bs : List β} {c : γ}
    (hc : c ∈ List.zipWith f as bs) : ∃ a ∈ as, ∃ b ∈ bs, c = f a b := by
  rw [← List.map_uncurry_zip_eq_zipWith] at hc
  rcases List.mem_map.mp hc with ⟨⟨a, b⟩, hpair, rfl⟩
  rcases List.of_mem_zip hpair with ⟨ha, hb⟩
  exact ⟨a, ha, b, hb, rfl⟩

theorem not_mem_style (severity : Severity) : '\n' ∉ styled severity.style [] := by
  cases severity <;> decide

/-- Whether a text is told on one line and no character of it changes how others are drawn. -/
def IsPlainText (t : Text) : Prop :=
  Text.IsUnjoined t ∧ '\n' ∉ t

theorem isPlainText_append {a b : Text} :
    IsPlainText (a ++ b) ↔ IsPlainText a ∧ IsPlainText b := by
  unfold IsPlainText
  rw [Text.isUnjoined_append, List.mem_append, not_or]
  exact and_and_and_comm

theorem isPlainText_ofList {t : Text}
    (h : (t.all fun c => decide (c.toNat < 128) && c != '\n') = true) :
    IsPlainText (String.ofList t).toList := by
  have hboth : ∀ c ∈ t, c.toNat < 128 ∧ c ≠ '\n' := by
    simpa using h
  rw [String.toList_ofList]
  constructor
  · exact (Text.isNarrow_of_ascii fun c hc => (hboth c hc).1).isUnjoined
  · exact fun hfeed => (hboth _ hfeed).2 rfl

theorem isPlainText_of_isName {name : Text} (h : IsName name) : IsPlainText name := by
  have hjoiner : Text.isWord Text.joiner = false := by
    decide +kernel
  have hselector : Text.isWord Text.selector = false := by
    decide +kernel
  constructor
  · intro c hc
    constructor
    · rintro rfl
      exact Bool.false_ne_true (hjoiner.symm.trans (h.2 _ hc))
    · rintro rfl
      exact Bool.false_ne_true (hselector.symm.trans (h.2 _ hc))
  · intro hfeed
    exact absurd (h.2 _ hfeed) (by decide)

theorem isPlainText_message {finding : Finding}
    (hname : ∀ name, finding = .unknownName name → IsName name) :
    IsPlainText finding.message.toList := by
  cases finding with
  | unknownName name =>
      unfold Finding.message
      simp only [String.toList_append, String.toList_ofList, isPlainText_append]
      exact ⟨⟨isPlainText_ofList rfl, isPlainText_of_isName (hname name rfl)⟩,
        isPlainText_ofList rfl⟩
  | malformed => exact isPlainText_ofList rfl
  | sharedDefault => exact isPlainText_ofList rfl
  | bareHandler => exact isPlainText_ofList rfl
  | dynamicEvaluation => exact isPlainText_ofList rfl
  | writtenSecret => exact isPlainText_ofList rfl

theorem isPlainText_of_mem_texts {finding : Finding}
    (hname : ∀ name, finding = .unknownName name → IsName name) :
    ∀ text ∈ finding.texts, IsPlainText text.toList := by
  have hkind : ∀ kind : Kind, IsPlainText kind.label.toList := by
    intro kind
    cases kind <;> exact isPlainText_ofList rfl
  have hseverity : ∀ severity : Severity, IsPlainText severity.label.toList := by
    intro severity
    cases severity <;> exact isPlainText_ofList rfl
  have himpact : IsPlainText finding.impact.toList := by
    cases finding <;> exact isPlainText_ofList rfl
  have hfix : IsPlainText finding.fix.toList := by
    cases finding <;> exact isPlainText_ofList rfl
  simp only [Finding.texts, List.forall_mem_cons]
  exact ⟨hkind _, hseverity _, isPlainText_message hname, himpact, hfix, by simp⟩

theorem showsFindings_drawFindings {width : Nat} (h : 80 ≤ width) {found : List Finding}
    (hnames : ∀ name, .unknownName name ∈ found → IsName name) :
    ShowsFindings (drawFindings width found) found := by
  have htwo : ∀ cells ∈ findingWidths width, 2 ≤ cells := fun cells hcells =>
    Nat.le_trans (by decide) (four_le_of_mem_findingWidths h cells hcells)
  refine ⟨Table.rowRule.draw (findingWidths width), found.map fun finding =>
    Table.rowLines finding.severity.style Table.bodyBorder (findingCells width finding.texts),
    ?_, ?_⟩
  · have hrows := Table.rows_infix_draw (findingWidths width)
      (findingCells width (findingColumns.map (·.1))) true (found.map (Finding.row width))
    simp only [← Table.flatten_rowLines, List.map_map] at hrows ⊢
    exact hrows
  · rw [List.forall₂_map_right_iff, List.forall₂_same]
    intro finding hfinding
    have htexts : ∀ text ∈ finding.texts, IsPlainText text.toList := by
      apply isPlainText_of_mem_texts
      rintro name rfl
      exact hnames name hfinding
    constructor
    · apply Table.isLine_of_mem_rowLines (not_mem_style _) (by decide)
      intro cell hcell
      rcases exists_of_mem_zipWith hcell with ⟨cells, hcells, text, htext, rfl⟩
      rcases htexts text htext with ⟨hunjoined, hfeed⟩
      exact Table.not_mem_wrapped hunjoined (htwo cells hcells) hfeed
    · intro text htext
      have hlength : finding.texts.length ≤ (findingWidths width).length := by
        rw [length_findingWidths]
        exact Nat.le_refl 5
      rcases exists_mem_zipWith (fun cells text => Table.wrapped cells text.toList) hlength htext
        with ⟨cells, hcells, hcell⟩
      exact Table.isBrokenOver_rowLines _ _ (htwo cells hcells) (htexts text htext).1 hcell

/-!
# Metrics
-/

/-- Whether a drawing shows a value beside its name, with spaces and one border between them. -/
def ShowsBeside (drawing : Text) (name value : String) : Prop :=
  ∃ left right, name.toList ++ Text.spaces left ++ [Table.bodyBorder] ++ Text.spaces right ++
    value.toList <:+: drawing

theorem drawRow_pair (border : Char) (cells cells' : Nat) (line line' : Text) :
    Table.drawRow none false border [⟨cells, [line]⟩, ⟨cells', [line']⟩] =
      [border] ++ ([' '] ++ line ++ [' '] ++ [border] ++ ([' '] ++ line' ++ [' '])) ++
        [border, '\n'] := by
  simp [Table.drawRow, Table.acrossColumns, Table.Cell.filled, Table.cellLine, Table.drawLine,
    styled, Text.join]

theorem ShowsBeside.of_isInfix {drawing drawing' : Text} {name value : String}
    (h : ShowsBeside drawing name value) (hwithin : drawing <:+: drawing') :
    ShowsBeside drawing' name value := by
  rcases h with ⟨left, right, hshown⟩
  exact ⟨left, right, hshown.trans hwithin⟩

theorem showsBeside_pair {cells cells' : Nat} {name value : String}
    (hname : Text.width name.toList ≤ cells) (hvalue : Text.width value.toList ≤ cells') :
    ShowsBeside (Table.drawRow none false Table.bodyBorder
      [⟨cells, [Text.fit cells name.toList]⟩, ⟨cells', [Text.fitRight cells' value.toList]⟩])
      name value := by
  refine ⟨cells - Text.width name.toList + 1, cells' - Text.width value.toList + 1, ?_⟩
  rw [drawRow_pair, Text.fit_eq_append hname, Text.fitRight_eq_append hvalue]
  refine ⟨[Table.bodyBorder, ' '], [' ', Table.bodyBorder, '\n'], ?_⟩
  unfold Text.spaces
  rw [List.replicate_succ', List.replicate_succ]
  simp only [List.append_assoc, List.cons_append, List.nil_append]

theorem width_add_two_le_neededWidth {texts : List String} {text : String} (h : text ∈ texts)
    (hnarrow : Text.IsNarrow text.toList) : Text.width text.toList + 2 ≤ neededWidth texts := by
  have hlength : text.length ≤ (texts.map String.length).foldl max 0 :=
    (Table.le_foldl_max 0 _).2 _ (List.mem_map_of_mem h)
  have hwidth : Text.width text.toList ≤ text.length := by
    rw [← String.length_toList]
    exact hnarrow.width_le_length
  exact Nat.add_le_add_right (Nat.le_trans hwidth hlength) 2

theorem exists_summaryWidths_eq (width : Nat) (lines : List (String × String)) :
    ∃ cells cells', summaryWidths width lines = [cells, cells'] ∧
      neededWidth ((("metric", "value") :: lines).map Prod.fst) ≤ cells + 2 ∧
      neededWidth ((("metric", "value") :: lines).map Prod.snd) ≤ cells' + 2 := by
  refine ⟨_, _, rfl, ?_, ?_⟩
  · exact Nat.le_trans (Nat.le_add_right _ _) (Nat.le_add_of_sub_le (Nat.le_refl _))
  · exact Nat.le_trans (Nat.le_add_right _ _) (Nat.le_add_of_sub_le (Nat.le_refl _))

theorem row_infix_drawSummary (width : Nat) {lines : List (String × String)}
    {line : String × String} (hline : line ∈ lines) :
    Table.drawRow none false Table.bodyBorder (summaryCells (summaryWidths width lines) line) <:+:
      drawSummary width lines := by
  have hrow : (⟨none, summaryCells (summaryWidths width lines) line⟩ : Table.Row) ∈
      lines.map fun line => ⟨none, summaryCells (summaryWidths width lines) line⟩ :=
    List.mem_map_of_mem hline
  unfold drawSummary
  exact Table.row_infix_draw (summaryWidths width lines) _ false hrow

theorem showsBeside_drawSummary (width : Nat) {lines : List (String × String)}
    (hnames : ∀ line ∈ lines, Text.IsNarrow line.1.toList)
    (hvalues : ∀ line ∈ lines, Text.IsNarrow line.2.toList) :
    ∀ line ∈ lines, ShowsBeside (drawSummary width lines) line.1 line.2 := by
  intro line hline
  rcases exists_summaryWidths_eq width lines with ⟨cells, cells', hwidths, hcells, hcells'⟩
  have hmem : line ∈ ("metric", "value") :: lines := List.mem_cons_of_mem _ hline
  have hleft := width_add_two_le_neededWidth (List.mem_map_of_mem hmem) (hnames line hline)
  have hright := width_add_two_le_neededWidth (List.mem_map_of_mem hmem) (hvalues line hline)
  have hpair := showsBeside_pair (show Text.width line.1.toList ≤ cells by omega)
    (show Text.width line.2.toList ≤ cells' by omega)
  have hrow := row_infix_drawSummary width hline
  have hrowCells : summaryCells (summaryWidths width lines) line =
      [⟨cells, [Text.fit cells line.1.toList]⟩, ⟨cells', [Text.fitRight cells' line.2.toList]⟩] := by
    rw [hwidths]
    rfl
  rw [hrowCells] at hrow
  exact hpair.of_isInfix hrow

theorem isNarrow_of_isLiteral {t : Text} (h : ∀ c ∈ t, Json.isLiteral c = true) :
    Text.IsNarrow t := by
  apply Text.isNarrow_of_ascii
  intro c hc
  have hliteral := h c hc
  unfold Json.isLiteral at hliteral
  simp only [Bool.or_eq_true, beq_iff_eq] at hliteral
  rcases hliteral with ((halphanum | rfl) | rfl) | rfl
  · exact Text.toNat_lt_of_isAlphanum halphanum
  · decide
  · decide
  · decide

theorem isNarrow_of_all {t : Text} (h : (t.all fun c => decide (c.toNat < 128)) = true) :
    Text.IsNarrow t :=
  Text.isNarrow_of_ascii (by simpa using h)

theorem isNarrow_ofList {t : Text} (h : (t.all fun c => decide (c.toNat < 128)) = true) :
    Text.IsNarrow (String.ofList t).toList := by
  rw [String.toList_ofList]
  exact isNarrow_of_all h

theorem isNarrow_append_string {s s' : String} :
    Text.IsNarrow (s ++ s').toList ↔ Text.IsNarrow s.toList ∧ Text.IsNarrow s'.toList := by
  rw [String.toList_append, Text.isNarrow_append]

theorem isNarrow_repr (n : Nat) : Text.IsNarrow n.repr.toList := by
  rw [Nat.toList_repr]
  exact isNarrow_of_isLiteral fun c hc =>
    Json.isLiteral_of_mem_toDigits (by decide) (by decide) hc

theorem isNarrow_shortText (x : Float) : Text.IsNarrow (Number.shortText x).toList := by
  have hsign : Text.IsNarrow (Number.signText x).toList := by
    unfold Number.signText
    repeat' split
    all_goals exact isNarrow_ofList rfl
  unfold Number.shortText
  split
  · exact isNarrow_append_string.mpr ⟨hsign, isNarrow_ofList rfl⟩
  · split
    · dsimp only
      simp only [isNarrow_append_string]
      exact ⟨⟨⟨hsign, isNarrow_repr _⟩, isNarrow_ofList rfl⟩, isNarrow_repr _⟩
    · exact isNarrow_ofList rfl

theorem isNarrow_growth_label (growth : Growth) : Text.IsNarrow growth.label.toList := by
  cases growth with
  | constant => exact isNarrow_ofList rfl
  | linear => exact isNarrow_ofList rfl
  | quadratic =>
      have hletters : Text.IsNarrow ['O', '(', 'n'] := isNarrow_of_all rfl
      have hpower : Text.IsNarrow ['²'] := by
        intro c hc
        rw [List.mem_singleton.mp hc]
        decide +kernel
      have hclosing : Text.IsNarrow [')'] := isNarrow_of_all rfl
      show Text.IsNarrow (String.ofList (['O', '(', 'n'] ++ (['²'] ++ [')']))).toList
      rw [String.toList_ofList]
      exact Text.isNarrow_append.mpr ⟨hletters, Text.isNarrow_append.mpr ⟨hpower, hclosing⟩⟩

theorem isNarrow_names (r : Report) : ∀ line ∈ r.summary, Text.IsNarrow line.1.toList := by
  unfold Report.summary
  simp only [List.forall_mem_cons]
  refine ⟨?_, ?_, ?_, ?_, ?_, ?_, ?_, ?_, ?_, ?_, ?_, ?_, by simp⟩
  all_goals exact isNarrow_ofList rfl

theorem isNarrow_values (r : Report) : ∀ line ∈ r.summary, Text.IsNarrow line.2.toList := by
  have hint : ∀ n : Int, Text.IsNarrow (toString n).toList := fun n =>
    isNarrow_of_isLiteral fun c hc => Json.isLiteral_of_mem_toString hc
  unfold Report.summary
  simp only [List.forall_mem_cons, isNarrow_append_string]
  exact ⟨isNarrow_repr _, ⟨hint _, isNarrow_ofList rfl⟩, isNarrow_growth_label _,
    isNarrow_growth_label _, isNarrow_repr _, isNarrow_shortText _, isNarrow_repr _,
    isNarrow_repr _, ⟨isNarrow_shortText _, isNarrow_ofList rfl⟩,
    ⟨isNarrow_shortText _, isNarrow_ofList rfl⟩, ⟨isNarrow_shortText _, isNarrow_ofList rfl⟩,
    hint _, by simp⟩

/-!
# Whole reports
-/

/-- Whether a drawing shows all parts of a report. -/
structure ShowsReport (drawing : Text) (width : Nat) (r : LabelledReport) : Prop where
  label : titleOf width r.label <:+: drawing
  verdict : (if r.report.valid then "Valid Python code" else "Invalid Python code").toList <:+:
    drawing
  metrics : ∀ line ∈ r.report.summary, ShowsBeside drawing line.1 line.2
  findings : ShowsFindings drawing r.report.findings

theorem ShowsReport.of_isInfix {drawing drawing' : Text} {width : Nat} {r : LabelledReport}
    (h : ShowsReport drawing width r) (hwithin : drawing <:+: drawing') :
    ShowsReport drawing' width r where
  label := h.label.trans hwithin
  verdict := h.verdict.trans hwithin
  metrics := fun line hline => (h.metrics line hline).of_isInfix hwithin
  findings := h.findings.of_isInfix hwithin

/-- A label that fits is the title as it is. -/
theorem titleOf_eq_self {width : Nat} {label : Text}
    (h : ∀ c ∈ label, isHiddenControl c = false ∧ c ≠ '\n' ∧ c ≠ '\t')
    (hwidth : Text.width label ≤ width - 4) : titleOf width label = label := by
  have hshown : label.filter (fun c => !isHiddenControl c) = label := by
    rw [List.filter_eq_self]
    intro c hc
    rw [(h c hc).1]
    rfl
  have hline : label.map (fun c => if c = '\n' then ' ' else c) = label := by
    rw [List.map_congr_left (fun c hc => if_neg (h c hc).2.1), List.map_id']
  have htabs : expandTabs label = label := by
    unfold expandTabs
    rw [Text.cutAt_of_not_mem fun htab => (h _ htab).2.2 rfl]
    rfl
  unfold titleOf
  dsimp only
  rw [hshown, hline, htabs, if_pos hwidth]

theorem titleOf_infix_drawTitle (width : Nat) (label : Text) :
    titleOf width label <:+: drawTitle width label := by
  unfold drawTitle
  dsimp only
  split
  · rename_i hempty
    rw [List.isEmpty_iff.mp hempty]
    exact List.nil_infix
  · exact ⟨_, _, (List.append_assoc _ _ _).symm⟩

theorem verdict_infix_drawVerdict (valid : Bool) :
    (if valid then "Valid Python code" else "Invalid Python code").toList <:+:
      drawVerdict valid := by
  cases valid with
  | false =>
      exact (infix_styled (some "31") "Invalid Python code".toList).trans
        (List.prefix_append _ ['\n']).isInfix
  | true =>
      exact (infix_styled (some "32") "Valid Python code".toList).trans
        (List.prefix_append _ ['\n']).isInfix

theorem showsReport_draw {allowList : AllowList} {t : Text} {r : LabelledReport}
    (h : audit allowList t = .ok r.report) {width : Nat} (hwidth : 80 ≤ width) :
    ShowsReport (r.draw width) width r := by
  have htitle : drawTitle width r.label <:+: r.draw width := by
    unfold LabelledReport.draw
    rw [List.append_assoc, List.append_assoc]
    exact (List.prefix_append _ _).isInfix
  have hverdict : drawVerdict r.report.valid <:+: r.draw width := by
    unfold LabelledReport.draw
    rw [List.append_assoc]
    exact ⟨_, _, rfl⟩
  have hsummary : drawSummary width r.report.summary <:+: r.draw width :=
    ⟨_, _, rfl⟩
  constructor
  · exact (titleOf_infix_drawTitle width r.label).trans htitle
  · exact (verdict_infix_drawVerdict r.report.valid).trans hverdict
  · intro line hline
    exact (showsBeside_drawSummary width (isNarrow_names r.report) (isNarrow_values r.report) line
      hline).of_isInfix hsummary
  · cases hfindings : r.report.findings with
    | nil =>
        exact ⟨[], [], List.nil_infix, List.Forall₂.nil⟩
    | cons first rest =>
        have hshown := showsFindings_drawFindings hwidth fun name hname =>
          isName_of_mem_findings h hname
        have hdrawn : drawFindings width r.report.findings <:+: r.draw width := by
          unfold LabelledReport.draw
          rw [if_neg (by rw [hfindings]; exact Bool.false_ne_true)]
          exact (List.suffix_append _ _).isInfix
        rw [← hfindings]
        exact hshown.of_isInfix hdrawn

/-!
# Runs
-/

namespace Command

theorem showsReport_of_auditAll {allowList : AllowList} {sources : List Source}
    {reports : List LabelledReport} (h : auditAll allowList sources = .ok reports)
    {terminal : Terminal} {r : LabelledReport} (hr : r ∈ reports) :
    ShowsReport (reports.flatMap (LabelledReport.draw terminal.width)) terminal.width r := by
  rcases exists_of_mem_auditAll h hr with ⟨source, _, haudit⟩
  have hwithin : r.draw terminal.width <:+: reports.flatMap (LabelledReport.draw terminal.width) :=
    List.infix_of_mem_flatten (List.mem_map_of_mem hr)
  exact (showsReport_draw haudit terminal.isWide).of_isInfix hwithin

/-- A run that draws its reports, and does not fail, shows the whole report on each source that it
has loaded. -/
theorem showsReport_of_run {d : Disk} {stdin : Text} {arguments : List String}
    {settings : Settings} {terminal : Terminal} {outcome : Outcome}
    (hparsed : settingsOf arguments = .ok settings) (hformat : settings.format = .table)
    (hruns : run d arguments stdin terminal = .ok outcome) (hexit : outcome.exit ≠ 2) :
    ∃ found allowList, load d stdin settings.source = .loaded found ∧
      settings.allowList = some allowList ∧ ∀ source ∈ found.sources, ∃ report,
        audit allowList source.text = .ok report ∧
          ShowsReport outcome.stdout terminal.width ⟨source.label, report⟩ := by
  unfold run at hruns
  rw [hparsed] at hruns
  rcases exists_of_analyze_eq_ok hruns hexit with
    ⟨found, allowList, reports, hload, hallowList, haudit, _, hshows⟩
  rw [hformat] at hshows
  refine ⟨found, allowList, hload, hallowList, ?_⟩
  intro source hsource
  rcases exists_of_forall₂_mem (forall₂_of_auditAll haudit) hsource with
    ⟨⟨_, report⟩, hreport, rfl, hsame⟩
  refine ⟨report, hsame, ?_⟩
  rw [hshows.1]
  exact showsReport_of_auditAll haudit hreport

end Command
end SourceAudit
