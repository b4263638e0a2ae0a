import SourceAudit.Ignore.Rule
import SourceAudit.Proofs.Outcome
import SourceAudit.Proofs.Pattern.Spans

/-!
# What ignore rules cover

## Texts of parts and pieces

A part of a segment covers single texts of its own kind; a row of parts covers the texts that can be
cut into texts of its parts.  The same holds of the pieces of a rule.  A piece for any whole name
goes on as long as it can, so what it covers depends on what follows.

A rule hits a path when the path can be cut into something before, a text that the pieces of the
rule cover, and something behind that the ending of the rule admits.  Nothing may lie before if the
first piece is tied to the start of the path.
-/

namespace SourceAudit

open Pattern

/-!
# Parts
-/

def GlobPart.Covers : GlobPart → Text → Prop
  | literal c, t => t = [c]
  | anyRun, t => ∀ x ∈ t, x ≠ '/'
  | anyOne, t => ∃ x, t = [x] ∧ x ≠ '/'
  | set negated members, t =>
      ∃ found x, Glob.ranges members = .ok found ∧ t = [x] ∧ (Glob.inSet found x != negated) = true

namespace Glob

/-- Whether a row of parts covers a text. -/
def Covers : List GlobPart → Text → Prop
  | [], t => t = []
  | part :: rest, t => ∃ u v, t = u ++ v ∧ part.Covers u ∧ Covers rest v

theorem spans_partPattern {part : GlobPart} {p : Pattern} (hp : partPattern part = .ok p)
    {before piece after : Text} : p.Spans before piece after ↔ part.Covers piece := by
  cases part with
  | literal c =>
      cases hp
      exact spans_exactly
  | anyRun =>
      cases hp
      rw [spans_many]
      simp [GlobPart.Covers]
  | anyOne =>
      cases hp
      rw [spans_char]
      simp [GlobPart.Covers]
  | set negated members =>
      simp only [partPattern] at hp
      cases hfound : ranges members with
      | error fault =>
          rw [hfound] at hp
          cases hp
      | ok found =>
          rw [hfound] at hp
          cases hp
          rw [spans_char]
          constructor
          · intro h
            rcases h with ⟨x, hpiece, hx⟩
            exact ⟨found, x, hfound, hpiece, hx⟩
          · intro h
            rcases h with ⟨found', x, hfound', hpiece, hx⟩
            rw [hfound] at hfound'
            cases hfound'
            exact ⟨x, hpiece, hx⟩

theorem pattern_cons_ok {part : GlobPart} {rest : List GlobPart} {p : Pattern}
    (hp : pattern (part :: rest) = .ok p) :
    ∃ first others, partPattern part = .ok first ∧ pattern rest = .ok others ∧
      p = .seq first others := by
  unfold pattern at hp
  rcases exists_of_bind_eq_ok hp with ⟨first, hfirst, hp⟩
  rcases exists_of_bind_eq_ok hp with ⟨others, hothers, hp⟩
  cases hp
  exact ⟨first, others, hfirst, hothers, rfl⟩

/-- The pattern of a row of parts spans what the parts cover. -/
theorem spans_pattern {parts : List GlobPart} {p : Pattern} (hp : pattern parts = .ok p)
    {before piece after : Text} : p.Spans before piece after ↔ Covers parts piece := by
  induction parts generalizing p before piece after with
  | nil =>
      cases hp
      exact spans_nothing
  | cons part rest ih =>
      rcases pattern_cons_ok hp with ⟨first, others, hfirst, hothers, rfl⟩
      rw [spans_seq]
      constructor
      · intro h
        rcases h with ⟨u, v, hpiece, hu, hv⟩
        exact ⟨u, v, hpiece, (spans_partPattern hfirst).mp hu, (ih hothers).mp hv⟩
      · intro h
        rcases h with ⟨u, v, hpiece, hu, hv⟩
        exact ⟨u, v, hpiece, (spans_partPattern hfirst).mpr hu, (ih hothers).mpr hv⟩

theorem covers_map_literal {name t : Text} :
    Covers (name.map .literal) t ↔ t = name := by
  induction name generalizing t with
  | nil =>
      exact Iff.rfl
  | cons c rest ih =>
      show (∃ u v, t = u ++ v ∧ u = [c] ∧ Covers (rest.map .literal) v) ↔ _
      constructor
      · intro h
        rcases h with ⟨u, v, ht, rfl, hv⟩
        rw [ht, ih.mp hv]
        rfl
      · intro h
        exact ⟨[c], rest, h, rfl, ih.mpr rfl⟩

end Glob

/-!
# Pieces
-/

namespace IgnoreRule
namespace Piece

def Covers : Piece → Text → Text → Prop
  | leadingDepth, t, _ =>
      t = [] ∨ ∃ part, part ≠ [] ∧ (∀ x ∈ part, x ≠ '\n') ∧ t = part ++ ['/']
  | innerDepth, t, _ =>
      t = [] ∨ ∃ part, part ≠ [] ∧ (∀ x ∈ part, x ≠ '\n') ∧ t = '/' :: part
  | pathStart, t, _ => t = []
  | separator, t, _ => t = ['/']
  | anyName, t, after => t ≠ [] ∧ (∀ x ∈ t, x ≠ '/') ∧ ∀ x ∈ after.head?, x = '/'
  | named parts, t, _ => Glob.Covers parts t
  | anyChar, t, _ => ∃ x, t = [x] ∧ x ≠ '\n'

def isAnchor : Piece → Bool
  | leadingDepth => true
  | pathStart => true
  | _ => false

theorem spans_anyPart {before piece after : Text} :
    anyPart.Spans before piece after ↔ piece ≠ [] ∧ ∀ x ∈ piece, x ≠ '\n' := by
  unfold anyPart
  rw [spans_seq]
  constructor
  · intro h
    rcases h with ⟨u, v, rfl, hu, hv⟩
    rcases spans_char.mp hu with ⟨x, rfl, hx⟩
    refine ⟨by simp, ?_⟩
    intro y hy
    rcases List.mem_cons.mp hy with rfl | hy
    · simpa [inLine] using hx
    · simpa [inLine] using spans_many.mp hv y hy
  · intro h
    rcases h with ⟨hne, hall⟩
    cases piece with
    | nil =>
        exact absurd rfl hne
    | cons x rest =>
        refine ⟨[x], rest, rfl, ?_, ?_⟩
        · exact spans_char.mpr ⟨x, rfl, by simpa [inLine] using hall x List.mem_cons_self⟩
        · apply spans_many.mpr
          intro y hy
          simpa [inLine] using hall y (List.mem_cons_of_mem x hy)

theorem spans_check_atStart {before piece after : Text} :
    (check Cursor.atStart).Spans before piece after ↔ before = [] ∧ piece = [] := by
  rw [spans_check, Cursor.atStart_between, and_comm]

theorem spans_leadingPart {before piece after : Text} :
    (seq anyPart (exactly '/')).Spans before piece after ↔
      ∃ part, part ≠ [] ∧ (∀ x ∈ part, x ≠ '\n') ∧ piece = part ++ ['/'] := by
  rw [spans_seq]
  constructor
  · intro h
    rcases h with ⟨part, slash, hpiece, hpart, hslash⟩
    rcases spans_anyPart.mp hpart with ⟨hne, hall⟩
    rw [spans_exactly.mp hslash] at hpiece
    exact ⟨part, hne, hall, hpiece⟩
  · intro h
    rcases h with ⟨part, hne, hall, hpiece⟩
    exact ⟨part, ['/'], hpiece, spans_anyPart.mpr ⟨hne, hall⟩, spans_exactly.mpr rfl⟩

theorem spans_innerPart {before piece after : Text} :
    (seq (exactly '/') anyPart).Spans before piece after ↔
      ∃ part, part ≠ [] ∧ (∀ x ∈ part, x ≠ '\n') ∧ piece = '/' :: part := by
  rw [spans_seq]
  constructor
  · intro h
    rcases h with ⟨slash, part, hpiece, hslash, hpart⟩
    rcases spans_anyPart.mp hpart with ⟨hne, hall⟩
    rw [spans_exactly.mp hslash] at hpiece
    exact ⟨part, hne, hall, hpiece⟩
  · intro h
    rcases h with ⟨part, hne, hall, hpiece⟩
    exact ⟨['/'], part, hpiece, spans_exactly.mpr rfl, spans_anyPart.mpr ⟨hne, hall⟩⟩

theorem spans_pattern {part : Piece} {p : Pattern} (hp : part.pattern = .ok p)
    {before piece after : Text} :
    p.Spans before piece after ↔
      (part.isAnchor = true → before = []) ∧ part.Covers piece after := by
  cases part with
  | leadingDepth =>
      cases hp
      rw [spans_seq]
      constructor
      · intro h
        rcases h with ⟨u, v, rfl, hu, hv⟩
        rcases spans_check_atStart.mp hu with ⟨hbefore, rfl⟩
        refine ⟨fun _ => hbefore, ?_⟩
        rcases spans_optional.mp hv with hv | hv
        · exact Or.inr (spans_leadingPart.mp hv)
        · exact Or.inl hv
      · intro h
        rcases h with ⟨hbefore, hcovers⟩
        refine ⟨[], piece, rfl, spans_check_atStart.mpr ⟨hbefore rfl, rfl⟩, ?_⟩
        apply spans_optional.mpr
        rcases hcovers with hnil | hpart
        · exact Or.inr hnil
        · exact Or.inl (spans_leadingPart.mpr hpart)
  | innerDepth =>
      cases hp
      rw [spans_optional, spans_innerPart, or_comm]
      simp [isAnchor, Covers]
  | pathStart =>
      cases hp
      rw [spans_check_atStart]
      simp [isAnchor, Covers]
  | separator =>
      cases hp
      rw [spans_exactly]
      simp [isAnchor, Covers]
  | anyName =>
      cases hp
      rw [spans_several]
      simp [isAnchor, Covers]
  | named parts =>
      rw [Glob.spans_pattern hp]
      simp [isAnchor, Covers]
  | anyChar =>
      cases hp
      rw [spans_char]
      simp [isAnchor, Covers, inLine]

end Piece

/-- Whether a row of pieces covers a text in front of another. -/
def CoversRow : List Piece → Text → Text → Prop
  | [], t, _ => t = []
  | piece :: rest, t, after =>
      ∃ u v, t = u ++ v ∧ piece.Covers u (v ++ after) ∧ CoversRow rest v after

theorem coversRow_append {front back : List Piece} {t after : Text} :
    CoversRow (front ++ back) t after ↔
      ∃ u v, t = u ++ v ∧ CoversRow front u (v ++ after) ∧ CoversRow back v after := by
  induction front generalizing t with
  | nil =>
      constructor
      · intro h
        exact ⟨[], t, rfl, rfl, h⟩
      · intro h
        rcases h with ⟨u, v, rfl, rfl, hback⟩
        exact hback
  | cons piece rest ih =>
      constructor
      · intro h
        rcases h with ⟨u, w, rfl, hpiece, hrest⟩
        rcases ih.mp hrest with ⟨v, w, rfl, hrest, hback⟩
        refine ⟨u ++ v, w, (List.append_assoc u v w).symm, ⟨u, v, rfl, ?_, hrest⟩, hback⟩
        rw [← List.append_assoc]
        exact hpiece
      · intro h
        rcases h with ⟨_, w, rfl, ⟨u, v, rfl, hpiece, hrest⟩, hback⟩
        refine ⟨u, v ++ w, List.append_assoc u v w, ?_, ih.mpr ⟨v, w, rfl, hrest, hback⟩⟩
        rw [List.append_assoc]
        exact hpiece

theorem coversRow_singleton {piece : Piece} {t after : Text} :
    CoversRow [piece] t after ↔ piece.Covers t after := by
  constructor
  · intro h
    rcases h with ⟨u, v, rfl, hpiece, rfl⟩
    rw [List.append_nil]
    exact hpiece
  · intro h
    exact ⟨t, [], (List.append_nil t).symm, h, rfl⟩

def isAnchored (row : List Piece) : Bool :=
  row.head?.any Piece.isAnchor

theorem patternOf_cons_ok {piece : Piece} {rest : List Piece} {p : Pattern}
    (hp : patternOf (piece :: rest) = .ok p) :
    ∃ first others, piece.pattern = .ok first ∧ patternOf rest = .ok others ∧
      p = .seq first others := by
  unfold patternOf at hp
  rcases exists_of_bind_eq_ok hp with ⟨first, hfirst, hp⟩
  rcases exists_of_bind_eq_ok hp with ⟨others, hothers, hp⟩
  cases hp
  exact ⟨first, others, hfirst, hothers, rfl⟩

theorem spans_patternOf_of_free {row : List Piece} {p : Pattern} (hp : patternOf row = .ok p)
    (hfree : ∀ piece ∈ row, piece.isAnchor = false) {before t after : Text} :
    p.Spans before t after ↔ CoversRow row t after := by
  induction row generalizing p before t after with
  | nil =>
      cases hp
      exact spans_nothing
  | cons piece rest ih =>
      rcases patternOf_cons_ok hp with ⟨first, others, hfirst, hothers, rfl⟩
      have hpiece := hfree piece List.mem_cons_self
      have hrest : ∀ other ∈ rest, other.isAnchor = false :=
        fun other hother => hfree other (List.mem_cons_of_mem piece hother)
      rw [spans_seq]
      constructor
      · intro h
        rcases h with ⟨u, v, ht, hu, hv⟩
        exact ⟨u, v, ht, ((Piece.spans_pattern hfirst).mp hu).2, (ih hothers hrest).mp hv⟩
      · intro h
        rcases h with ⟨u, v, ht, hu, hv⟩
        refine ⟨u, v, ht, (Piece.spans_pattern hfirst).mpr ⟨?_, hu⟩, (ih hothers hrest).mpr hv⟩
        intro hanchor
        rw [hpiece] at hanchor
        cases hanchor

/-- The pattern of a row spans what the row covers.  Only the first piece may be tied to the start
of the path. -/
theorem spans_patternOf {row : List Piece} {p : Pattern} (hp : patternOf row = .ok p)
    (hfree : ∀ piece ∈ row.tail, piece.isAnchor = false) {before t after : Text} :
    p.Spans before t after ↔
      (isAnchored row = true → before = []) ∧ CoversRow row t after := by
  cases row with
  | nil =>
      cases hp
      rw [spans_nothing]
      simp [isAnchored, CoversRow]
  | cons piece rest =>
      rcases patternOf_cons_ok hp with ⟨first, others, hfirst, hothers, rfl⟩
      rw [spans_seq]
      constructor
      · intro h
        rcases h with ⟨u, v, ht, hu, hv⟩
        rcases (Piece.spans_pattern hfirst).mp hu with ⟨hbefore, hpiece⟩
        exact ⟨hbefore, u, v, ht, hpiece, (spans_patternOf_of_free hothers hfree).mp hv⟩
      · intro h
        rcases h with ⟨hbefore, u, v, ht, hpiece, hrest⟩
        exact ⟨u, v, ht, (Piece.spans_pattern hfirst).mpr ⟨hbefore, hpiece⟩,
          (spans_patternOf_of_free hothers hfree).mpr hrest⟩

/-!
# Hits
-/

end IgnoreRule

def Ending.Admits : Ending → Text → Prop
  | anywhere, _ => True
  | slash, after => after.head? = some '/'
  | slashOrEnd, after => after.head? = some '/' ∨ after = [] ∨ after = ['\n']

theorem Ending.isSome_hit?_between {ending : Ending} {before after : Text} :
    (ending.hit? (Cursor.between before after)).isSome = true ↔ ending.Admits after := by
  cases ending with
  | anywhere =>
      simp [hit?, Admits]
  | slash =>
      unfold hit? Admits
      by_cases h : after.head? = some '/' <;> simp [h]
  | slashOrEnd =>
      unfold hit? Admits
      by_cases h : after.head? = some '/'
      · simp [h]
      · by_cases hend : after = [] ∨ after = ['\n']
        · simp [h, hend, Cursor.atClosingLineEnd]
        · simp [h, hend, Cursor.atClosingLineEnd]

namespace IgnoreRule

/-- Whether a row of pieces with an ending hits a path. -/
def Hits (row : List Piece) (ending : Ending) (path : Text) : Prop :=
  ∃ before t after, path = before ++ (t ++ after) ∧ (isAnchored row = true → before = []) ∧
    CoversRow row t after ∧ ending.Admits after

/-- A rule hits a path exactly when its row of pieces does. -/
theorem isSome_hit?_iff {row : List Piece} {body : Pattern} (hbody : patternOf row = .ok body)
    (hfree : ∀ piece ∈ row.tail, piece.isAnchor = false) (ignores : Bool) (ending : Ending)
    (path : Text) :
    ((⟨ignores, body, ending⟩ : IgnoreRule).hit? path).isSome = true ↔ Hits row ending path := by
  unfold hit?
  rw [List.isSome_findSome?, List.any_eq_true]
  simp only [run_eq_findSome?, List.isSome_findSome?, List.any_eq_true]
  constructor
  · intro h
    rcases h with ⟨c, hc, d, hd, hhit⟩
    rcases Cursor.mem_all.mp hc with ⟨before, rest, hpath, rfl⟩
    rcases mem_ends_between.mp hd with ⟨t, after, rfl, hspans, rfl⟩
    rcases (spans_patternOf hbody hfree).mp hspans with ⟨hbefore, hcovers⟩
    exact ⟨before, t, after, hpath, hbefore, hcovers, Ending.isSome_hit?_between.mp hhit⟩
  · intro h
    rcases h with ⟨before, t, after, hpath, hbefore, hcovers, hadmits⟩
    refine ⟨Cursor.between before (t ++ after), ?_, Cursor.between (before ++ t) after, ?_, ?_⟩
    · exact Cursor.mem_all.mpr ⟨before, t ++ after, hpath, rfl⟩
    · exact (spans_patternOf hbody hfree).mpr ⟨hbefore, hcovers⟩
    · exact Ending.isSome_hit?_between.mpr hadmits

end IgnoreRule
end SourceAudit
