import SourceAudit.Proofs.Ignore.Coverage
import SourceAudit.Proofs.Ignore.Segments

/-!
# Rows of pieces

## From segments to rows

A relation says which row of pieces, with which ending, the segments of a pattern make.  Only the
first piece of the row of a rule is tied to the start of the path.

The names of a directory in front of other segments make a row of their own, which covers exactly
the path of the directory, and the row of the other segments follows as it does behind any name.
-/

namespace SourceAudit
namespace IgnoreRule

/-!
# Rows of segments
-/

def lead (separated : Bool) : List Piece :=
  if separated then [.separator] else []

theorem piecesFrom_singleton (forFolders separated : Bool) (last : Text) :
    piecesFrom forFolders separated [last] =
      if last = anyDepth then .ok (depthEnd forFolders)
      else (namePiece last).map fun piece => (lead separated ++ [piece], .slashOrEnd) := by
  rw [piecesFrom]
  by_cases h : last = anyDepth
  · rw [if_pos h, if_pos h]
  · rw [if_neg h, if_neg h]
    cases namePiece last <;> rfl

theorem piecesFrom_depth (forFolders separated : Bool) {rest : List Text} (hrest : rest ≠ []) :
    piecesFrom forFolders separated (anyDepth :: rest) =
      (piecesFrom forFolders true rest).map fun found => (.innerDepth :: found.1, found.2) := by
  cases rest with
  | nil =>
      exact absurd rfl hrest
  | cons second later =>
      rw [piecesFrom, if_pos rfl]
      · cases piecesFrom forFolders true (second :: later) <;> rfl
      · intro h
        cases h

theorem piecesFrom_name (forFolders separated : Bool) {segment : Text} {rest : List Text}
    (hsegment : segment ≠ anyDepth) (hrest : rest ≠ []) :
    piecesFrom forFolders separated (segment :: rest) =
      (namePiece segment).bind fun piece =>
        (piecesFrom forFolders true rest).map fun found =>
          (lead separated ++ piece :: found.1, found.2) := by
  cases rest with
  | nil =>
      exact absurd rfl hrest
  | cons second later =>
      rw [piecesFrom, if_neg hsegment]
      · cases namePiece segment with
        | error fault =>
            rfl
        | ok piece =>
            cases piecesFrom forFolders true (second :: later) <;> rfl
      · intro h
        cases h

/-- The rows and endings that segments make, behind other segments or not. -/
inductive RowOf (forFolders : Bool) : Bool → List Text → List Piece → Ending → Prop where
  | lastDepth (separated : Bool) :
      RowOf forFolders separated [anyDepth] (depthEnd forFolders).1 (depthEnd forFolders).2
  | lastName (separated : Bool) {last : Text} {piece : Piece} :
      last ≠ anyDepth → namePiece last = .ok piece →
      RowOf forFolders separated [last] (lead separated ++ [piece]) .slashOrEnd
  | depth (separated : Bool) {rest : List Text} {row : List Piece} {ending : Ending} :
      rest ≠ [] → RowOf forFolders true rest row ending →
      RowOf forFolders separated (anyDepth :: rest) (.innerDepth :: row) ending
  | name (separated : Bool) {segment : Text} {piece : Piece} {rest : List Text} {row : List Piece}
      {ending : Ending} :
      segment ≠ anyDepth → namePiece segment = .ok piece → rest ≠ [] →
      RowOf forFolders true rest row ending →
      RowOf forFolders separated (segment :: rest) (lead separated ++ piece :: row) ending

theorem rowOf_of_piecesFrom {forFolders separated : Bool} {segments : List Text}
    {found : List Piece × Ending} (hne : segments ≠ [])
    (h : piecesFrom forFolders separated segments = .ok found) :
    RowOf forFolders separated segments found.1 found.2 := by
  induction segments generalizing separated found with
  | nil =>
      exact absurd rfl hne
  | cons segment rest ih =>
      by_cases hrest : rest = []
      · rw [hrest, piecesFrom_singleton] at h
        rw [hrest]
        by_cases hdepth : segment = anyDepth
        · rw [if_pos hdepth] at h
          cases h
          rw [hdepth]
          exact RowOf.lastDepth separated
        · rw [if_neg hdepth] at h
          rcases exists_of_map_eq_ok h with ⟨piece, hname, hfound⟩
          rw [← hfound]
          exact RowOf.lastName separated hdepth hname
      · by_cases hdepth : segment = anyDepth
        · rw [hdepth, piecesFrom_depth forFolders separated hrest] at h
          rcases exists_of_map_eq_ok h with ⟨others, hlater, hfound⟩
          rw [hdepth, ← hfound]
          exact RowOf.depth separated hrest (ih hrest hlater)
        · rw [piecesFrom_name forFolders separated hdepth hrest] at h
          rcases exists_of_bind_eq_ok h with ⟨piece, hname, h⟩
          rcases exists_of_map_eq_ok h with ⟨others, hlater, hfound⟩
          rw [← hfound]
          exact RowOf.name separated hdepth hname hrest (ih hrest hlater)

/-!
# Pieces tied to the start
-/

theorem isAnchor_of_namePiece {segment : Text} {piece : Piece}
    (h : namePiece segment = .ok piece) : piece.isAnchor = false := by
  unfold namePiece at h
  by_cases hstar : segment = ['*']
  · rw [if_pos hstar] at h
    cases h
    rfl
  · rw [if_neg hstar] at h
    rcases exists_of_map_eq_ok h with ⟨parts, _, hpiece⟩
    rw [← hpiece]
    rfl

theorem isAnchor_of_mem_lead {separated : Bool} {piece : Piece} (h : piece ∈ lead separated) :
    piece.isAnchor = false := by
  cases separated with
  | false =>
      cases h
  | true =>
      rw [List.mem_singleton.mp h]
      rfl

theorem RowOf.isAnchor {forFolders separated : Bool} {segments : List Text} {row : List Piece}
    {ending : Ending} (h : RowOf forFolders separated segments row ending) :
    ∀ piece ∈ row, piece.isAnchor = false := by
  induction h with
  | lastDepth separated =>
      intro piece hpiece
      cases forFolders with
      | false =>
          rw [List.mem_singleton.mp hpiece]
          rfl
      | true =>
          cases hpiece
  | lastName separated hlast hname =>
      intro piece hpiece
      rcases List.mem_append.mp hpiece with hpiece | hpiece
      · exact isAnchor_of_mem_lead hpiece
      · rw [List.mem_singleton.mp hpiece]
        exact isAnchor_of_namePiece hname
  | depth separated hrest hrow ih =>
      intro piece hpiece
      rcases List.mem_cons.mp hpiece with rfl | hpiece
      · rfl
      · exact ih piece hpiece
  | name separated hsegment hname hrest hrow ih =>
      intro piece hpiece
      rcases List.mem_append.mp hpiece with hpiece | hpiece
      · exact isAnchor_of_mem_lead hpiece
      · rcases List.mem_cons.mp hpiece with rfl | hpiece
        · exact isAnchor_of_namePiece hname
        · exact ih piece hpiece

/-!
# Rows of whole patterns
-/

theorem pieces_singleton_depth (forFolders : Bool) :
    pieces forFolders [anyDepth] =
      .ok (if forFolders then ([], .slash) else ([.anyChar], .anywhere)) := by
  rfl

theorem pieces_depth_anyName (forFolders : Bool) :
    pieces forFolders [anyDepth, ['*']] = .ok ([.anyChar], .anywhere) := by
  rfl

theorem pieces_depth_anyName_depth (forFolders : Bool) :
    pieces forFolders [anyDepth, ['*'], anyDepth] = .ok (depthEnd forFolders) := by
  rfl

theorem pieces_depth (forFolders : Bool) {rest : List Text} (hrest : rest ≠ [])
    (hany : rest ≠ [['*']]) (hanyBelow : rest ≠ [['*'], anyDepth]) :
    pieces forFolders (anyDepth :: rest) =
      (piecesFrom forFolders false rest).map fun found => (.leadingDepth :: found.1, found.2) := by
  unfold pieces
  rw [if_neg (by simp [hrest]), if_neg (by simpa using hany), if_neg (by simpa using hanyBelow)]
  show (if anyDepth = anyDepth then _ else _) = _
  rw [if_pos rfl]
  cases piecesFrom forFolders false rest <;> rfl

theorem pieces_name (forFolders : Bool) {first : Text} {rest : List Text}
    (hfirst : first ≠ anyDepth) :
    pieces forFolders (first :: rest) =
      (piecesFrom forFolders false (first :: rest)).map fun found =>
        (.pathStart :: found.1, found.2) := by
  unfold pieces
  rw [if_neg (by simp [hfirst]), if_neg (by simp [hfirst]), if_neg (by simp [hfirst])]
  show (if first = anyDepth then _ else _) = _
  rw [if_neg hfirst]
  cases piecesFrom forFolders false (first :: rest) <;> rfl

/-- The row of a rule is short and has no name at its end, or is one piece followed by the row of
the last segments. -/
theorem rowOf_of_pieces {forFolders : Bool} {segments : List Text} {found : List Piece × Ending}
    (h : pieces forFolders segments = .ok found) :
    (found.1.length ≤ 1 ∧ found.2 ≠ .slashOrEnd) ∨
      ∃ first others rest, found.1 = first :: others ∧ rest ≠ [] ∧ rest <:+ segments ∧
        RowOf forFolders false rest others found.2 := by
  have hmap : ∀ {rest : List Text} {first : Piece}, rest ≠ [] → rest <:+ segments →
      ((piecesFrom forFolders false rest).map fun found => (first :: found.1, found.2)) =
        .ok found →
      ∃ first others rest, found.1 = first :: others ∧ rest ≠ [] ∧ rest <:+ segments ∧
        RowOf forFolders false rest others found.2 := by
    intro rest first hne hsuffix hfound
    rcases exists_of_map_eq_ok hfound with ⟨others, hrow, hpieces⟩
    rw [← hpieces]
    exact ⟨first, others.1, rest, rfl, hne, hsuffix, rowOf_of_piecesFrom hne hrow⟩
  cases segments with
  | nil =>
      cases h
      exact Or.inl ⟨Nat.zero_le 1, by decide⟩
  | cons first rest =>
      by_cases hfirst : first = anyDepth
      · rw [hfirst] at h
        by_cases hrest : rest = []
        · rw [hrest, pieces_singleton_depth] at h
          cases h
          cases forFolders <;> exact Or.inl ⟨by decide, by decide⟩
        · by_cases hany : rest = [['*']]
          · rw [hany, pieces_depth_anyName] at h
            cases h
            exact Or.inl ⟨Nat.le_refl 1, by decide⟩
          · by_cases hanyBelow : rest = [['*'], anyDepth]
            · rw [hanyBelow, pieces_depth_anyName_depth] at h
              cases h
              cases forFolders <;> exact Or.inl ⟨by decide, by decide⟩
            · rw [pieces_depth forFolders hrest hany hanyBelow] at h
              exact Or.inr (hmap hrest (List.suffix_cons first rest) h)
      · rw [pieces_name forFolders hfirst] at h
        exact Or.inr (hmap (by simp) List.suffix_rfl h)

theorem isAnchor_tail_of_pieces {forFolders : Bool} {segments : List Text}
    {found : List Piece × Ending} (h : pieces forFolders segments = .ok found) :
    ∀ piece ∈ found.1.tail, piece.isAnchor = false := by
  rcases rowOf_of_pieces h with ⟨hlength, _⟩ | ⟨first, others, rest, hrow, _, _, hothers⟩
  · intro piece hpiece
    have htail : found.1.tail = [] := by
      rw [← List.length_eq_zero_iff, List.length_tail]
      omega
    rw [htail] at hpiece
    cases hpiece
  · rw [hrow]
    exact hothers.isAnchor

/-!
# Rows of plain names
-/

def nameRow (separated : Bool) : List Text → List Piece
  | [] => []
  | name :: rest => lead separated ++ .named (name.map .literal) :: nameRow true rest

section Names

variable {names : List Text}

theorem parts_of_plain {name : Text}
    (h : ∀ c ∈ name, c ≠ '*' ∧ c ≠ '?' ∧ c ≠ '[' ∧ c ≠ '\\') :
    Glob.parts name = .ok (name.map .literal) := by
  unfold Glob.parts
  induction name with
  | nil =>
      rfl
  | cons c rest ih =>
      rcases h c List.mem_cons_self with ⟨hstar, hmark, hbracket, hescape⟩
      rw [Glob.partsFrom, if_neg hescape, if_neg hstar, if_neg hmark, if_neg hbracket,
        ih fun x hx => h x (List.mem_cons_of_mem c hx)]
      rfl

theorem namePiece_of_plain {name : Text}
    (h : ∀ c ∈ name, c ≠ '*' ∧ c ≠ '?' ∧ c ≠ '[' ∧ c ≠ '\\') :
    namePiece name = .ok (.named (name.map .literal)) := by
  have hname : name ≠ ['*'] := by
    intro hname
    exact (h '*' (by rw [hname]; decide)).1 rfl
  unfold namePiece
  rw [if_neg hname, parts_of_plain h]
  rfl

theorem piecesFrom_names_append (forFolders separated : Bool) (hnames : names ≠ [])
    (hplain : ∀ name ∈ names, ∀ c ∈ name, c ≠ '*' ∧ c ≠ '?' ∧ c ≠ '[' ∧ c ≠ '\\')
    {segments : List Text} (hsegments : segments ≠ []) :
    piecesFrom forFolders separated (names ++ segments) =
      (piecesFrom forFolders true segments).map fun found =>
        (nameRow separated names ++ found.1, found.2) := by
  induction names generalizing separated with
  | nil =>
      exact absurd rfl hnames
  | cons name rest ih =>
      have hname := hplain name List.mem_cons_self
      have hrest : ∀ other ∈ rest, ∀ c ∈ other, c ≠ '*' ∧ c ≠ '?' ∧ c ≠ '[' ∧ c ≠ '\\' :=
        fun other hother => hplain other (List.mem_cons_of_mem name hother)
      have hdepth : name ≠ anyDepth := by
        intro hdepth
        exact (hname '*' (by rw [hdepth]; decide)).1 rfl
      rw [List.cons_append, piecesFrom_name forFolders separated hdepth (by simp [hsegments]),
        namePiece_of_plain hname]
      by_cases hnil : rest = []
      · rw [hnil, List.nil_append]
        cases piecesFrom forFolders true segments with
        | error fault =>
            rfl
        | ok found =>
            show Except.ok _ = Except.ok _
            simp [nameRow]
      · rw [ih true hnil hrest]
        cases piecesFrom forFolders true segments with
        | error fault =>
            rfl
        | ok found =>
            show Except.ok _ = Except.ok _
            simp [nameRow]

theorem coversRow_nameRow_true {t after : Text} :
    CoversRow (nameRow true names) t after ↔ t = names.flatMap (['/'] ++ ·) := by
  induction names generalizing t with
  | nil =>
      exact Iff.rfl
  | cons name rest ih =>
      show CoversRow (.separator :: .named (name.map .literal) :: nameRow true rest) t after ↔ _
      constructor
      · intro h
        rcases h with ⟨slash, w, rfl, hslash, u, v, rfl, hname, hrest⟩
        rw [show slash = ['/'] from hslash, Glob.covers_map_literal.mp hname, ih.mp hrest]
        rfl
      · intro h
        refine ⟨['/'], name ++ rest.flatMap (['/'] ++ ·), ?_, rfl, name, _, rfl, ?_, ih.mpr rfl⟩
        · rw [h]
          rfl
        · exact Glob.covers_map_literal.mpr rfl

theorem coversRow_nameRow (hnames : names ≠ []) {t after : Text} :
    CoversRow (nameRow false names) t after ↔ t = Path.joinNames names := by
  cases names with
  | nil =>
      exact absurd rfl hnames
  | cons name rest =>
      show CoversRow (.named (name.map .literal) :: nameRow true rest) t after ↔
        t = name ++ rest.flatMap (['/'] ++ ·)
      constructor
      · intro h
        rcases h with ⟨u, v, rfl, hname, hrest⟩
        rw [Glob.covers_map_literal.mp hname, coversRow_nameRow_true.mp hrest]
      · intro h
        exact ⟨name, _, h, Glob.covers_map_literal.mpr rfl, coversRow_nameRow_true.mpr rfl⟩

end Names

/-!
# Sound rows
-/

/-- Whether a piece has a pattern: no set in it holds a range that runs backwards. -/
def Piece.IsSound (piece : Piece) : Prop :=
  ∃ p, piece.pattern = .ok p

theorem isSound_cons_iff {first : Piece} {row : List Piece} (hfirst : first.IsSound) :
    (∀ piece ∈ first :: row, piece.IsSound) ↔ ∀ piece ∈ row, piece.IsSound := by
  rw [List.forall_mem_cons]
  exact and_iff_right hfirst

/-- A row has a pattern when each of its pieces has one. -/
theorem exists_patternOf_iff (row : List Piece) :
    (∃ p, patternOf row = .ok p) ↔ ∀ piece ∈ row, piece.IsSound := by
  induction row with
  | nil =>
      simp [patternOf]
  | cons piece rest ih =>
      constructor
      · intro h
        rcases h with ⟨p, hp⟩
        rcases patternOf_cons_ok hp with ⟨first, others, hfirst, hothers, _⟩
        intro other hother
        rcases List.mem_cons.mp hother with rfl | hother
        · exact ⟨first, hfirst⟩
        · exact ih.mp ⟨others, hothers⟩ other hother
      · intro h
        rcases h piece List.mem_cons_self with ⟨first, hfirst⟩
        rcases ih.mpr fun other hother => h other (List.mem_cons_of_mem piece hother) with
          ⟨others, hothers⟩
        refine ⟨.seq first others, ?_⟩
        unfold patternOf
        rw [hfirst, hothers]
        rfl

theorem isSound_named_literals (name : Text) : (Piece.named (name.map .literal)).IsSound := by
  show ∃ p, Glob.pattern (name.map .literal) = .ok p
  induction name with
  | nil =>
      exact ⟨.nothing, rfl⟩
  | cons c rest ih =>
      rcases ih with ⟨p, hp⟩
      refine ⟨.seq (.exactly c) p, ?_⟩
      rw [List.map_cons, Glob.pattern, hp]
      rfl

theorem isSound_of_mem_nameRow {separated : Bool} {names : List Text} {piece : Piece}
    (h : piece ∈ nameRow separated names) : piece.IsSound := by
  induction names generalizing separated with
  | nil =>
      cases h
  | cons name rest ih =>
      rcases List.mem_append.mp h with h | h
      · cases separated with
        | false =>
            cases h
        | true =>
            rw [List.mem_singleton.mp h]
            exact ⟨_, rfl⟩
      · rcases List.mem_cons.mp h with rfl | h
        · exact isSound_named_literals name
        · exact ih h

end IgnoreRule
end SourceAudit
