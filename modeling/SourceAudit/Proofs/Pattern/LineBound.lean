import Mathlib.Algebra.Ring.Nat
import SourceAudit.Proofs.Pattern.Context
import SourceAudit.Proofs.Pattern.Counting
import SourceAudit.Proofs.Pattern.Outermost
import SourceAudit.Proofs.Text.Lines

/-!
# Scans line by line

## Matches within a line

When the matches of a pattern hold no line feed and depend on the line around them only, none of
them reaches over the join of two texts with a line feed, and none is lost there.  The matches in
the whole are those in the first text and then those in the second, and the number of matches in a
text is the sum over its lines.
-/

namespace SourceAudit
namespace Cursor

/-!
# Places of two texts joined by a line feed
-/

/-- A place of a text, when a line feed and another text follow the text. -/
def beforeLine (below : Text) (c : Cursor) : Cursor :=
  ⟨c.pos, c.prev, c.rest ++ '\n' :: below⟩

/-- A place of a text, when the text follows another one and a line feed. -/
def behindLine (above : Text) (c : Cursor) : Cursor :=
  ⟨c.pos + (above.length + 1), c.prev.or (some '\n'), c.rest⟩

theorem beforeLine_between (below before after : Text) :
    (between before after).beforeLine below = between before (after ++ '\n' :: below) :=
  rfl

theorem behindLine_between (above before after : Text) :
    (between before after).behindLine above = between (above ++ '\n' :: before) after := by
  unfold behindLine between
  rw [getLast?_behind_line, List.length_append, List.length_cons, Nat.add_comm before.length,
    Nat.add_assoc, Nat.add_comm 1]

theorem walkOnto_behindLine (above t : Text) (pos : Nat) (prev : Option Char) :
    (walkOnto [] (pos + (above.length + 1)) (prev.or (some '\n')) t).reverse =
      (walkOnto [] pos prev t).reverse.map (behindLine above) := by
  induction t generalizing pos prev with
  | nil =>
      rfl
  | cons x rest ih =>
      have hrest := ih (pos + 1) (some x)
      rw [Option.some_or, Nat.add_right_comm] at hrest
      rw [reverse_walkOnto_cons, reverse_walkOnto_cons, List.map_cons, hrest]
      rfl

theorem all_append_feed (a b : Text) :
    all (a ++ '\n' :: b) = (all a).map (beforeLine b) ++ (all b).map (behindLine a) := by
  have h : ∀ (pos : Nat) (prev : Option Char),
      (walkOnto [] pos prev (a ++ '\n' :: b)).reverse =
        (walkOnto [] pos prev a).reverse.map (beforeLine b) ++
          (walkOnto [] (pos + (a.length + 1)) (some '\n') b).reverse := by
    induction a with
    | nil =>
        intro pos prev
        exact reverse_walkOnto_cons pos prev '\n' b
    | cons x rest ih =>
        intro pos prev
        rw [List.cons_append, reverse_walkOnto_cons, reverse_walkOnto_cons, ih, List.map_cons,
          List.length_cons, Nat.add_assoc, Nat.add_comm 1]
        rfl
  have hsecond := walkOnto_behindLine a b 0 none
  unfold all
  rw [h, ← hsecond]
  rfl

end Cursor

namespace Reader

variable {α : Type} {read : Reader α}

/-!
# Scans of places in two parts
-/

theorem scanFrom_cons (read : Reader α) (resume : Nat) (c : Cursor) (later : List Cursor) :
    read.scanFrom resume (c :: later) =
      if c.pos < resume then read.scanFrom resume later
      else
        match read c with
        | none => read.scanFrom resume later
        | some (d, value) => value :: read.scanFrom d.pos later :=
  rfl

theorem scanFrom_of_le {places : List Cursor} {resume : Nat} (h : ∀ c ∈ places, resume ≤ c.pos) :
    read.scanFrom resume places = read.scanFrom 0 places := by
  induction places with
  | nil =>
      rfl
  | cons c later ih =>
      have hle := h c List.mem_cons_self
      have hlater := ih fun e he => h e (List.mem_cons_of_mem c he)
      rw [scanFrom_cons, scanFrom_cons, if_neg (Nat.not_lt_of_le hle),
        if_neg (Nat.not_lt_zero c.pos), hlater]

theorem scanFrom_append {front back : List Cursor} (border : Nat)
    (hfront : ∀ c ∈ front, ∀ {d : Cursor} {value : α}, read c = some (d, value) → d.pos ≤ border)
    (hback : ∀ c ∈ back, border ≤ c.pos) {resume : Nat} (hresume : resume ≤ border) :
    read.scanFrom resume (front ++ back) = read.scanFrom resume front ++ read.scanFrom 0 back := by
  induction front generalizing resume with
  | nil =>
      exact scanFrom_of_le fun c hc => Nat.le_trans hresume (hback c hc)
  | cons c later ih =>
      have hlater : ∀ {next : Nat}, next ≤ border →
          read.scanFrom next (later ++ back) = read.scanFrom next later ++ read.scanFrom 0 back :=
        ih fun e he => hfront e (List.mem_cons_of_mem c he)
      rw [List.cons_append, scanFrom_cons, scanFrom_cons]
      by_cases hc : c.pos < resume
      · rw [if_pos hc, if_pos hc]
        exact hlater hresume
      · rw [if_neg hc, if_neg hc]
        cases hread : read c with
        | none =>
            exact hlater hresume
        | some next =>
            show next.2 :: read.scanFrom next.1.pos (later ++ back) = _
            rw [hlater (hfront c List.mem_cons_self hread)]
            rfl

theorem scanFrom_map (move : Cursor → Cursor) {k : Nat} (hpos : ∀ c, (move c).pos = c.pos + k)
    (places : List Cursor)
    (hread : ∀ c ∈ places, read (move c) = (read c).map fun next => (move next.1, next.2))
    (resume : Nat) : read.scanFrom (resume + k) (places.map move) = read.scanFrom resume places := by
  induction places generalizing resume with
  | nil =>
      rfl
  | cons c later ih =>
      have hlater := ih fun e he => hread e (List.mem_cons_of_mem c he)
      rw [List.map_cons, scanFrom_cons, scanFrom_cons, hpos, hread c List.mem_cons_self]
      by_cases hc : c.pos < resume
      · rw [if_pos hc, if_pos (Nat.add_lt_add_right hc k)]
        exact hlater resume
      · rw [if_neg hc, if_neg (by omega)]
        cases read c with
        | none =>
            exact hlater resume
        | some next =>
            show next.2 :: read.scanFrom (move next.1).pos (later.map move) = _
            rw [hpos, hlater]

end Reader

namespace Pattern

/-!
# Patterns within a line
-/

/-- Whether what a pattern spans lies within a line and depends on this line only. -/
structure IsLineBound (p : Pattern) : Prop where
  unique : p.IsUnique
  not_mem {before piece after : Text} : p.Spans before piece after → '\n' ∉ piece
  spans_before_line {before piece after below : Text} :
    p.Spans before piece (after ++ '\n' :: below) ↔ p.Spans before piece after
  spans_behind_line {above before piece after : Text} :
    p.Spans (above ++ '\n' :: before) piece after ↔ p.Spans before piece after

variable {p : Pattern}

theorem IsLineBound.reader_beforeLine (h : p.IsLineBound) (below before rest : Text) :
    p.reader ((Cursor.between before rest).beforeLine below) =
      (p.reader (Cursor.between before rest)).map
        fun next => (next.1.beforeLine below, next.2) := by
  rw [Cursor.beforeLine_between]
  apply Option.ext
  intro next
  rcases next with ⟨d, value⟩
  rw [Option.map_eq_some_iff, h.unique.reader_eq_some_iff]
  constructor
  · intro hread
    rcases hread with ⟨after, hrest, hspans, rfl⟩
    rcases exists_append_of_not_mem hrest.symm (h.not_mem hspans) with ⟨m, rfl, rfl⟩
    refine ⟨(Cursor.between (before ++ value) m, value), ?_, rfl⟩
    exact h.unique.reader_eq_some_iff.mpr ⟨m, rfl, h.spans_before_line.mp hspans, rfl⟩
  · intro hread
    rcases hread with ⟨next, hnext, heq⟩
    rcases next with ⟨e, found⟩
    rcases h.unique.reader_eq_some_iff.mp hnext with ⟨after, rfl, hspans, rfl⟩
    cases heq
    exact ⟨after ++ '\n' :: below, List.append_assoc _ _ _, h.spans_before_line.mpr hspans, rfl⟩

theorem IsLineBound.reader_behindLine (h : p.IsLineBound) (above before rest : Text) :
    p.reader ((Cursor.between before rest).behindLine above) =
      (p.reader (Cursor.between before rest)).map
        fun next => (next.1.behindLine above, next.2) := by
  rw [Cursor.behindLine_between]
  apply Option.ext
  intro next
  rcases next with ⟨d, value⟩
  rw [Option.map_eq_some_iff, h.unique.reader_eq_some_iff]
  constructor
  · intro hread
    rcases hread with ⟨after, rfl, hspans, rfl⟩
    refine ⟨(Cursor.between (before ++ value) after, value), ?_, ?_⟩
    · exact h.unique.reader_eq_some_iff.mpr ⟨after, rfl, h.spans_behind_line.mp hspans, rfl⟩
    · rw [Cursor.behindLine_between, List.append_assoc]
      rfl
  · intro hread
    rcases hread with ⟨next, hnext, heq⟩
    rcases next with ⟨e, found⟩
    rcases h.unique.reader_eq_some_iff.mp hnext with ⟨after, rfl, hspans, rfl⟩
    rw [Cursor.behindLine_between] at heq
    cases heq
    refine ⟨after, rfl, h.spans_behind_line.mpr hspans, ?_⟩
    rw [List.append_assoc]
    rfl

/-- The matches in two texts joined by a line feed are those in the first and then those in the
second. -/
theorem IsLineBound.matchesIn_append_feed (h : p.IsLineBound) (a b : Text) :
    p.matchesIn (a ++ '\n' :: b) = p.matchesIn a ++ p.matchesIn b := by
  have hfront : p.reader.scanFrom 0 ((Cursor.all a).map (Cursor.beforeLine b)) =
      p.reader.scanFrom 0 (Cursor.all a) := by
    apply Reader.scanFrom_map (Cursor.beforeLine b) (k := 0) (fun _ => rfl)
    intro c hc
    rcases Cursor.mem_all.mp hc with ⟨before, rest, _, rfl⟩
    exact h.reader_beforeLine b before rest
  have hback : p.reader.scanFrom 0 ((Cursor.all b).map (Cursor.behindLine a)) =
      p.reader.scanFrom 0 (Cursor.all b) := by
    have hread : ∀ c ∈ Cursor.all b, p.reader (c.behindLine a) =
        (p.reader c).map fun next => (next.1.behindLine a, next.2) := by
      intro c hc
      rcases Cursor.mem_all.mp hc with ⟨before, rest, _, rfl⟩
      exact h.reader_behindLine a before rest
    have hmap := Reader.scanFrom_map (Cursor.behindLine a) (fun _ => rfl) (Cursor.all b) hread 0
    rw [Reader.scanFrom_of_le] at hmap
    · exact hmap
    · intro c hc
      rcases List.mem_map.mp hc with ⟨e, _, rfl⟩
      rw [Nat.zero_add]
      exact Nat.le_add_left _ e.pos
  unfold matchesIn
  rw [Reader.scan_eq_scanFrom, Reader.scan_eq_scanFrom, Reader.scan_eq_scanFrom,
    Cursor.all_append_feed, Reader.scanFrom_append a.length, hfront, hback]
  · intro c hc d value hread
    rcases List.mem_map.mp hc with ⟨e, he, rfl⟩
    rcases Cursor.mem_all.mp he with ⟨before, rest, rfl, rfl⟩
    have hmoved := h.reader_beforeLine b before rest
    rw [show p.reader ((Cursor.between before rest).beforeLine b) = _ from hread] at hmoved
    rcases Option.map_eq_some_iff.mp hmoved.symm with ⟨next, hnext, heq⟩
    rcases next with ⟨f, found⟩
    rcases h.unique.reader_eq_some_iff.mp hnext with ⟨after, rfl, _, rfl⟩
    cases heq
    rw [Cursor.beforeLine_between, Cursor.between_pos, ← List.append_assoc]
    exact (List.prefix_append (before ++ found) after).length_le
  · intro c hc
    rcases List.mem_map.mp hc with ⟨e, _, rfl⟩
    show a.length ≤ e.pos + (a.length + 1)
    omega
  · exact Nat.zero_le _

theorem IsLineBound.countIn_append_feed (h : p.IsLineBound) (a b : Text) :
    p.countIn (a ++ '\n' :: b) = p.countIn a + p.countIn b := by
  unfold countIn
  rw [h.matchesIn_append_feed, List.length_append]

/-- The number of matches in a text is the sum of the numbers of matches in its lines. -/
theorem IsLineBound.countIn_eq_sum (h : p.IsLineBound) (t : Text) :
    p.countIn t = (t.lines.map p.countIn).sum := by
  generalize hlines : t.lines = rows
  induction rows generalizing t with
  | nil =>
      exact absurd hlines (Text.lines_ne_nil t)
  | cons row others ih =>
      by_cases hothers : others = []
      · have hrow : '\n' ∉ row :=
          Text.not_mem_of_mem_lines (t := t) (by rw [hlines]; exact List.mem_cons_self)
        rw [hothers] at hlines ⊢
        rw [Text.eq_of_lines_eq (hlines.trans (Text.lines_of_not_mem hrow).symm)]
        simp
      · rcases Text.exists_of_lines_eq_cons hlines hothers with ⟨rest, rfl, hrest⟩
        rw [h.countIn_append_feed, ih rest hrest, List.map_cons, List.sum_cons]

theorem IsLineBound.countP_lines_le (h : p.IsLineBound) {t : Text} {holds : Text → Bool}
    (hholds : ∀ line ∈ t.lines, holds line = true → p.occursIn line = true) :
    t.lines.countP holds ≤ p.countIn t := by
  rw [h.countIn_eq_sum]
  generalize t.lines = rows at hholds
  induction rows with
  | nil =>
      exact Nat.le_refl 0
  | cons row others ih =>
      rcases List.forall_mem_cons.mp hholds with ⟨hrow, hothers⟩
      have hrest := ih hothers
      rw [List.countP_cons, List.map_cons, List.sum_cons]
      split
      · rename_i hheld
        have hpos := (countIn_pos_iff p row).mpr (hrow hheld)
        omega
      · omega

end Pattern
end SourceAudit
