import SourceAudit.Proofs.Pattern.Rounds

/-!
# The number of matches

## No more matches than characters

A pattern that spans no empty piece is read forward: each match ends behind the place where it
begins.  Matches do not overlap, so a text has no more of them than it has characters.
-/

namespace SourceAudit
namespace Reader

variable {α : Type} {read : Reader α} {places : List Cursor}

theorem ScansFrom.length_le {resume last : Nat} {values : List α}
    (h : ScansFrom read places resume values) (hforward : read.IsForward places)
    (hlast : ∀ c ∈ places, ∀ {d : Cursor} {value : α}, read c = some (d, value) → d.pos ≤ last)
    (hresume : resume ≤ last) : resume + values.length ≤ last := by
  induction h with
  | done _ =>
      exact hresume
  | next hc hle _ hread _ ih =>
      have hmove := hforward _ hc hread
      have hrest := ih (hlast _ hc hread)
      rw [List.length_cons]
      omega

theorem scanFrom_zero_eq_nil_iff (read : Reader α) (places : List Cursor) :
    read.scanFrom 0 places = [] ↔ ∀ c ∈ places, read c = none := by
  induction places with
  | nil =>
      simp [scanFrom]
  | cons c later ih =>
      unfold scanFrom
      rw [if_neg (Nat.not_lt_zero c.pos), List.forall_mem_cons]
      cases hread : read c with
      | none =>
          simpa using ih
      | some next =>
          simp

end Reader

namespace Pattern

variable {p : Pattern} {t : Text}

theorem exists_spans_of_reader {c d : Cursor} {value : Text} (hc : c ∈ Cursor.all t)
    (h : p.reader c = some (d, value)) :
    ∃ before piece after, t = before ++ (piece ++ after) ∧
      c = Cursor.between before (piece ++ after) ∧ d = Cursor.between (before ++ piece) after ∧
      p.Spans before piece after := by
  rcases Cursor.mem_all.mp hc with ⟨before, rest, rfl, rfl⟩
  rcases Option.map_eq_some_iff.mp h with ⟨e, hend, hnext⟩
  cases hnext
  rw [end?_eq_head?] at hend
  rcases mem_ends_between.mp (List.mem_of_mem_head? hend) with ⟨piece, after, rfl, hspans, rfl⟩
  exact ⟨before, piece, after, rfl, rfl, rfl, hspans⟩

/-- A pattern has a match in a text exactly when it occurs there. -/
theorem countIn_pos_iff (p : Pattern) (t : Text) : 0 < p.countIn t ↔ p.occursIn t = true := by
  unfold countIn matchesIn
  rw [List.length_pos_iff, Reader.scan_eq_scanFrom, ne_eq, Reader.scanFrom_zero_eq_nil_iff]
  unfold occursIn reader beginsAt
  simp [Option.isSome_iff_ne_none]

theorem isForward_reader_of_ne_nil
    (h : ∀ {before piece after : Text}, p.Spans before piece after → piece ≠ []) (t : Text) :
    p.reader.IsForward (Cursor.all t) := by
  intro c hc d value hread
  rcases exists_spans_of_reader hc hread with ⟨before, piece, after, _, rfl, rfl, hspans⟩
  exact (pos_between_lt_iff _).mpr (h hspans)

/-- A pattern that spans no empty piece has at most as many matches in a text as the text has
characters. -/
theorem countIn_le_length
    (h : ∀ {before piece after : Text}, p.Spans before piece after → piece ≠ []) (t : Text) :
    p.countIn t ≤ t.length := by
  have hforward := isForward_reader_of_ne_nil h t
  have hscan : p.reader.ScansFrom (Cursor.all t) 0 (p.matchesIn t) :=
    Reader.scansFrom_scan hforward
  have hle := hscan.length_le hforward ?_ (Nat.zero_le t.length)
  · rw [Nat.zero_add] at hle
    exact hle
  · intro c hc d value hread
    rcases exists_spans_of_reader hc hread with ⟨before, piece, after, rfl, _, rfl, _⟩
    rw [Cursor.between_pos, ← List.append_assoc]
    exact (List.prefix_append (before ++ piece) after).length_le

end Pattern
end SourceAudit
