import SourceAudit.Proofs.Pattern.Scan

/-!
# Outermost readings

## Readings inside of others

Readings are nested when one that begins inside of another also ends there.  A scan of nested
readings finds the outermost ones: whatever can be read lies within a reading that the scan makes,
and nothing that can be read reaches around one of these.
-/

namespace SourceAudit

theorem Cursor.eq_of_pos_eq {t : Text} {c e : Cursor} (hc : c ∈ all t) (he : e ∈ all t)
    (hpos : c.pos = e.pos) : c = e := by
  rcases mem_all.mp hc with ⟨before, after, rfl, rfl⟩
  rcases mem_all.mp he with ⟨before', after', hsplit, rfl⟩
  rcases List.append_inj hsplit hpos with ⟨rfl, rfl⟩
  rfl

namespace Reader

variable {α : Type} {read : Reader α} {t : Text}

/-- Whether readings at the places of a text are nested: one that begins inside of another ends
there. -/
def IsNested (read : Reader α) (t : Text) : Prop :=
  ∀ c ∈ Cursor.all t, ∀ e ∈ Cursor.all t, ∀ {d d' : Cursor} {value value' : α},
    read c = some (d, value) → read e = some (d', value') → c.pos < e.pos → e.pos < d.pos →
      d'.pos ≤ d.pos

variable {resume : Nat} {values : List α}

theorem ScansFrom.exists_covering (h : ScansFrom read (Cursor.all t) resume values)
    (hnested : read.IsNested t) {c d : Cursor} {value : α} (hc : c ∈ Cursor.all t)
    (hresume : resume ≤ c.pos) (hread : read c = some (d, value)) :
    ∃ e ∈ Cursor.all t, ∃ d' value', read e = some (d', value') ∧ value' ∈ values ∧
      e.pos ≤ c.pos ∧ d.pos ≤ d'.pos := by
  induction h with
  | done hnone =>
      rw [hnone c hc hresume] at hread
      cases hread
  | @next resume first last found later hfirst _ hbefore hfound _ ih =>
      rcases Nat.lt_trichotomy c.pos first.pos with hlt | heq | hlt
      · rw [hbefore c hc hresume hlt] at hread
        cases hread
      · rw [Cursor.eq_of_pos_eq hc hfirst heq, hfound] at hread
        cases hread
        exact ⟨first, hfirst, _, _, hfound, List.mem_cons_self, Nat.le_of_eq heq.symm,
          Nat.le_refl _⟩
      · rcases Nat.lt_or_ge c.pos last.pos with hinside | hbehind
        · exact ⟨first, hfirst, last, found, hfound, List.mem_cons_self, Nat.le_of_lt hlt,
            hnested first hfirst c hc hfound hread hlt hinside⟩
        · rcases ih hbehind with ⟨e, he, d', value', hvalue, hmem, hlow, hhigh⟩
          exact ⟨e, he, d', value', hvalue, List.mem_cons_of_mem found hmem, hlow, hhigh⟩

/-- No other reading reaches around one that the scan makes. -/
theorem ScansFrom.exists_outermost (h : ScansFrom read (Cursor.all t) resume values)
    (hforward : read.IsForward (Cursor.all t)) (hnested : read.IsNested t) {value : α}
    (hvalue : value ∈ values) :
    ∃ c ∈ Cursor.all t, ∃ d, resume ≤ c.pos ∧ read c = some (d, value) ∧
      ∀ e ∈ Cursor.all t, ∀ d' value', read e = some (d', value') → resume ≤ e.pos →
        e.pos ≤ c.pos → d.pos ≤ d'.pos → e = c := by
  induction h with
  | done _ =>
      cases hvalue
  | @next resume first last found later hfirst hresume hbefore hfound _ ih =>
      have hmove := hforward first hfirst hfound
      rcases List.mem_cons.mp hvalue with rfl | hlater
      · refine ⟨first, hfirst, last, hresume, hfound, ?_⟩
        intro e he d' value' hread hle hlow _
        apply Cursor.eq_of_pos_eq he hfirst
        rcases Nat.lt_or_eq_of_le hlow with hlt | heq
        · rw [hbefore e he hle hlt] at hread
          cases hread
        · exact heq
      · rcases ih hlater with ⟨c, hc, d, hpos, hread, houter⟩
        have hmoved := hforward c hc hread
        refine ⟨c, hc, d, by omega, hread, ?_⟩
        intro e he d' value' hother hle hlow hhigh
        rcases Nat.lt_or_ge e.pos last.pos with hinside | hbehind
        · -- What begins before the end of the first reading does not reach as far as this one.
          exfalso
          rcases Nat.lt_trichotomy e.pos first.pos with hlt | heq | hlt
          · rw [hbefore e he hle hlt] at hother
            cases hother
          · rw [Cursor.eq_of_pos_eq he hfirst heq, hfound] at hother
            cases hother
            omega
          · have hend := hnested first hfirst e he hfound hother hlt hinside
            omega
        · exact houter e he d' value' hother hbehind hlow hhigh

end Reader

namespace Pattern

/-!
# Readers of patterns with one piece at a place
-/

/-- Whether a pattern spans at most one piece at each place. -/
def IsUnique (p : Pattern) : Prop :=
  ∀ before piece piece' after after', p.Spans before piece after →
    p.Spans before piece' after' → piece ++ after = piece' ++ after' → piece = piece'

theorem isUnique_whole (accepts : Char → Bool) : (whole accepts).IsUnique := by
  intro before piece piece' after after' h h' hsplit
  rcases spans_whole.mp h with ⟨hpiece, hafter⟩
  rcases spans_whole.mp h' with ⟨hpiece', hafter'⟩
  exact (append_inj_of_class hsplit hpiece hafter hpiece' hafter').1

theorem IsUnique.reader_eq_some_iff {p : Pattern} (h : p.IsUnique) {before rest value : Text}
    {d : Cursor} :
    p.reader (Cursor.between before rest) = some (d, value) ↔
      ∃ after, rest = value ++ after ∧ p.Spans before value after ∧
        d = Cursor.between (before ++ value) after := by
  unfold reader
  rw [Option.map_eq_some_iff]
  simp only [end?_eq_head?]
  constructor
  · intro hread
    rcases hread with ⟨e, he, heq⟩
    rcases mem_ends_between.mp (List.mem_of_mem_head? he) with ⟨piece, after, rfl, hspans, rfl⟩
    rw [Cursor.upTo_between] at heq
    cases heq
    exact ⟨after, rfl, hspans, rfl⟩
  · intro hpiece
    rcases hpiece with ⟨after, rfl, hspans, rfl⟩
    cases hends : p.ends (Cursor.between before (value ++ after)) with
    | nil =>
        unfold Spans at hspans
        rw [hends] at hspans
        cases hspans
    | cons e others =>
        have he : e ∈ p.ends (Cursor.between before (value ++ after)) := by
          rw [hends]
          exact List.mem_cons_self
        rcases mem_ends_between.mp he with ⟨piece, after', hsplit, hspans', rfl⟩
        have hpiece := h before value piece after after' hspans hspans' hsplit
        rw [← hpiece] at hsplit ⊢
        rw [← List.append_cancel_left hsplit]
        refine ⟨_, rfl, ?_⟩
        rw [Cursor.upTo_between]

end Pattern
end SourceAudit
