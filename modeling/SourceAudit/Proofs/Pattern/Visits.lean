import Mathlib.Data.List.Induction
import SourceAudit.Proofs.Pattern.Outermost
import SourceAudit.Proofs.Text.Cut

/-!
# Places that a scan visits

## Passing and taking

A scan begins at the start of a text.  At a place where nothing can be read it passes one character,
and where something can be read it takes the whole piece.  The places to which it comes in this way
are the ones it visits.  Every other place is hidden by a piece that the scan takes: the place lies
inside of the piece.  No place is both.

A scan of the first part of a text goes the same way as a scan of the whole text, as long as no
piece that is taken reaches over the end of that part.
-/

namespace SourceAudit
namespace Reader

variable {α : Type} {read : Reader α} {before rest front tail : Text} {value : α}

/-- Whether a reading that begins between `before` and `piece` ends between `piece` and `after`. -/
def Reads (read : Reader α) (before piece after : Text) (value : α) : Prop :=
  read (Cursor.between before (piece ++ after)) =
    some (Cursor.between (before ++ piece) after, value)

/-- Whether every reading takes a piece of the text, and not the empty one. -/
def Moves (read : Reader α) : Prop :=
  ∀ {before rest : Text} {d : Cursor} {value : α},
    read (Cursor.between before rest) = some (d, value) →
      ∃ piece after, piece ≠ [] ∧ rest = piece ++ after ∧ d = Cursor.between (before ++ piece) after

/-- Whether a scan of the text `before ++ rest` comes to the place between the two. -/
inductive Visits (read : Reader α) : Text → Text → Prop where
  | start (t : Text) : Visits read [] t
  | pass {before rest : Text} {x : Char} : Visits read before (x :: rest) →
      read (Cursor.between before (x :: rest)) = none → Visits read (before ++ [x]) rest
  | take {before piece after : Text} {value : α} : Visits read before (piece ++ after) →
      read.Reads before piece after value → Visits read (before ++ piece) after

/-- Whether a scan of the text `before ++ rest` takes a piece that reaches over the place between
the two. -/
def Hides (read : Reader α) (before rest : Text) : Prop :=
  ∃ a u w after value, before = a ++ u ∧ rest = w ++ after ∧ u ≠ [] ∧ w ≠ [] ∧
    read.Visits a (u ++ w ++ after) ∧ read.Reads a (u ++ w) after value

/-!
# Visited and hidden places
-/

theorem Moves.exists_reads (hmoves : read.Moves) {d : Cursor}
    (h : read (Cursor.between before rest) = some (d, value)) :
    ∃ piece after, piece ≠ [] ∧ rest = piece ++ after ∧ read.Reads before piece after value := by
  rcases hmoves h with ⟨piece, after, hne, rfl, rfl⟩
  exact ⟨piece, after, hne, rfl, h⟩

theorem Moves.ne_nil (hmoves : read.Moves) {piece after : Text}
    (h : read.Reads before piece after value) : piece ≠ [] := by
  rcases hmoves h with ⟨piece', after', hne, _, hend⟩
  have hlength : (before ++ piece).length = (before ++ piece').length := congrArg Cursor.pos hend
  intro hnil
  rw [hnil, List.append_nil, List.length_append] at hlength
  exact hne (List.eq_nil_of_length_eq_zero (by omega))

theorem Reads.piece_eq {piece after piece' after' : Text} {value' : α}
    (h : read.Reads before piece after value) (h' : read.Reads before piece' after' value')
    (hrest : piece ++ after = piece' ++ after') : piece = piece' ∧ value = value' := by
  have hsame : some (Cursor.between (before ++ piece) after, value) =
      some (Cursor.between (before ++ piece') after', value') := by
    rw [← show _ = _ from h, ← show _ = _ from h', hrest]
  have hpair := Option.some.inj hsame
  have hlength : (before ++ piece).length = (before ++ piece').length :=
    congrArg (fun next => next.1.pos) hpair
  simp only [List.length_append] at hlength
  exact ⟨(List.append_inj hrest (by omega)).1, congrArg Prod.snd hpair⟩

theorem visits_or_hides (hmoves : read.Moves) (before rest : Text) :
    read.Visits before rest ∨ read.Hides before rest := by
  induction before using List.reverseRecOn generalizing rest with
  | nil =>
      exact Or.inl (.start rest)
  | append_singleton before x ih =>
      rcases ih (x :: rest) with hvisits | ⟨a, u, w, after, value, rfl, hrest, hu, hw, hvisits, hreads⟩
      · cases hread : read (Cursor.between before (x :: rest)) with
        | none =>
            exact Or.inl (.pass hvisits hread)
        | some next =>
            rcases hmoves.exists_reads hread with ⟨piece, after, hne, hpiece, hreads⟩
            rcases List.exists_cons_of_ne_nil hne with ⟨y, more, rfl⟩
            rcases List.cons.inj hpiece with ⟨rfl, rfl⟩
            cases more with
            | nil =>
                exact Or.inl (.take hvisits hreads)
            | cons y more =>
                exact Or.inr ⟨before, [x], y :: more, after, _, rfl, rfl, by simp, by simp, hvisits,
                  hreads⟩
      · rcases List.exists_cons_of_ne_nil hw with ⟨y, more, rfl⟩
        rcases List.cons.inj hrest with ⟨rfl, rfl⟩
        cases more with
        | nil =>
            left
            rw [List.append_assoc]
            exact .take hvisits hreads
        | cons y more =>
            refine Or.inr ⟨a, u ++ [x], y :: more, after, value, by simp, rfl, by simp, by simp, ?_, ?_⟩
            · simpa using hvisits
            · simpa using hreads

theorem Visits.not_hides (hmoves : read.Moves) {before rest : Text}
    (h : read.Visits before rest) : ¬read.Hides before rest := by
  -- Of two places, the further one may hide the nearer one only behind itself, so the induction is
  -- on the position.
  induction hlength : before.length using Nat.strongRecOn generalizing before rest with
  | ind n ih =>
      rintro ⟨a, u, w, after, value, rfl, rfl, hu, hw, hvisits, hreads⟩
      generalize hbefore : a ++ u = before at h hlength
      generalize hrest : w ++ after = rest at h
      cases h with
      | start =>
          exact hu (List.append_eq_nil_iff.mp hbefore).2
      | @pass before rest x hvisits' hread =>
          rcases List.eq_nil_or_concat u with rfl | ⟨u, y, rfl⟩
          · exact hu rfl
          · rw [List.concat_eq_append] at hbefore hu hvisits hreads
            rw [← List.append_assoc] at hbefore
            rcases List.append_inj' hbefore rfl with ⟨rfl, hy⟩
            cases hy
            cases u with
            | nil =>
                rw [List.append_nil, ← hrest] at hread
                have hsome : read (Cursor.between a (x :: (w ++ after))) = some _ := hreads
                rw [hread] at hsome
                cases hsome
            | cons z u =>
                refine ih (a ++ z :: u).length ?_ hvisits' rfl
                  ⟨a, z :: u, x :: w, after, value, rfl, ?_, by simp, by simp, ?_, ?_⟩
                · rw [← hlength]
                  simp
                · rw [← hrest]
                  rfl
                · simpa using hvisits
                · simpa using hreads
      | @take a' piece _ value' hvisits' hreads' =>
          have hpiece := hmoves.ne_nil hreads'
          rcases Nat.lt_trichotomy a'.length a.length with hlt | heq | hlt
          · -- The place where the piece begins is hidden itself.
            rcases exists_append_of_length_lt hbefore.symm hlt with ⟨m, hm, rfl, rfl⟩
            refine ih (a' ++ m).length ?_ hvisits rfl
              ⟨a', m, u, rest, value', rfl, ?_, hm, hu, hvisits', hreads'⟩
            · rw [← hlength]
              have hpos := List.length_pos_iff.mpr hu
              simp only [List.length_append]
              omega
            · rw [← hrest, List.append_assoc]
          · rcases List.append_inj hbefore.symm heq with ⟨rfl, rfl⟩
            rw [← hrest] at hreads'
            have hsame := (hreads'.piece_eq hreads (by rw [List.append_assoc])).1
            exact hw (List.self_eq_append_right.mp hsame)
          · rcases exists_append_of_length_lt hbefore hlt with ⟨m, hm, rfl, rfl⟩
            refine ih (a ++ m).length ?_ hvisits' rfl
              ⟨a, m, piece ++ w, after, value, rfl, ?_, hm, by simp [hw], ?_, ?_⟩
            · rw [← hlength]
              have hpos := List.length_pos_iff.mpr hpiece
              simp only [List.length_append]
              omega
            · rw [← hrest, List.append_assoc]
            · rw [← List.append_assoc]
              exact hvisits
            · rw [← List.append_assoc]
              exact hreads

theorem Visits.behind (hmoves : read.Moves) {a piece after place rest : Text}
    (h : read.Visits a (piece ++ after)) (hreads : read.Reads a piece after value)
    (hplace : read.Visits place rest) (hsplit : a ++ (piece ++ after) = place ++ rest)
    (hlt : a.length < place.length) : ∃ m, place = a ++ (piece ++ m) ∧ after = m ++ rest := by
  rcases exists_append_of_length_lt hsplit hlt with ⟨inner, hne, rfl, hinner⟩
  rcases append_cases hinner with ⟨m, rfl, hafter⟩ | ⟨x, m, rfl, hrest⟩
  · exact ⟨m, rfl, hafter⟩
  · exact absurd ⟨a, inner, x :: m, after, value, rfl, hrest, hne, List.cons_ne_nil x m, h, hreads⟩
      (hplace.not_hides hmoves)

/-!
# What a scan reads
-/

theorem Visits.walk {passed : Text} (h : read.Visits before (passed ++ rest))
    (hnone : ∀ u v, passed = u ++ v → v ≠ [] →
      read (Cursor.between (before ++ u) (v ++ rest)) = none) :
    read.Visits (before ++ passed) rest := by
  induction passed generalizing before with
  | nil =>
      rw [List.append_nil]
      exact h
  | cons x more ih =>
      have hfirst := hnone [] (x :: more) rfl (List.cons_ne_nil x more)
      rw [List.append_nil] at hfirst
      rw [List.append_cons]
      apply ih (.pass h hfirst)
      intro u v huv hv
      rw [List.append_assoc]
      exact hnone (x :: u) v (by rw [huv]; rfl) hv

theorem Moves.isForward (hmoves : read.Moves) (t : Text) : read.IsForward (Cursor.all t) := by
  intro c hc d value hread
  rcases Cursor.mem_all.mp hc with ⟨before, rest, _, rfl⟩
  rcases hmoves hread with ⟨piece, after, hne, _, rfl⟩
  have hpos := List.length_pos_iff.mpr hne
  simp only [Cursor.between_pos, List.length_append]
  omega

theorem ScansFrom.exists_visits (hmoves : read.Moves) {t : Text} {resume : Nat} {values : List α}
    (h : ScansFrom read (Cursor.all t) resume values) {before rest : Text} (ht : t = before ++ rest)
    (hresume : before.length = resume) (hvisits : read.Visits before rest) (hvalue : value ∈ values) :
    ∃ front piece after, t = front ++ (piece ++ after) ∧ read.Visits front (piece ++ after) ∧
      read.Reads front piece after value := by
  induction h generalizing before rest with
  | done _ =>
      cases hvalue
  | @next resume c d found later hc hle hbefore hread _ ih =>
      rcases Cursor.mem_all.mp hc with ⟨place, behind, hplace, rfl⟩
      rw [← hresume] at hle hbefore
      rcases exists_append_of_length_le (ht.symm.trans hplace) hle with ⟨passed, rfl, rfl⟩
      have hcome : read.Visits (before ++ passed) behind := by
        apply hvisits.walk
        intro u v huv hv
        have hpos := List.length_pos_iff.mpr hv
        apply hbefore _ (Cursor.mem_all.mpr ⟨before ++ u, v ++ behind, by rw [ht, huv]; simp, rfl⟩)
        · simp
        · simp only [huv, List.length_append]
          omega
      rcases hmoves hread with ⟨piece, after, _, rfl, rfl⟩
      rcases List.mem_cons.mp hvalue with rfl | hlater
      · exact ⟨before ++ passed, piece, after, hplace, hcome, hread⟩
      · have hsplit : t = before ++ passed ++ piece ++ after := by
          rw [hplace, List.append_assoc _ piece]
        exact ih hsplit rfl (.take hcome hread) hlater

theorem ScansFrom.pass {before rest : Text} {values : List α}
    (h : ScansFrom read (Cursor.all (before ++ rest)) before.length values)
    (hread : read (Cursor.between before rest) = none) :
    ScansFrom read (Cursor.all (before ++ rest)) (before.length + 1) values := by
  cases h with
  | done hnone =>
      exact .done fun c hc hle => hnone c hc (by omega)
  | @next _ c _ _ _ hc hle hbefore hfound hlater =>
      refine .next hc ?_ (fun e he hlow hhigh => hbefore e he (by omega) hhigh) hfound hlater
      rcases Nat.lt_or_eq_of_le hle with hlt | heq
      · exact hlt
      · have hplace : Cursor.between before rest ∈ Cursor.all (before ++ rest) :=
          Cursor.mem_all.mpr ⟨before, rest, rfl, rfl⟩
        rw [← Cursor.eq_of_pos_eq hplace hc heq, hread] at hfound
        cases hfound

theorem ScansFrom.take {before piece after : Text} {value : α} {values : List α}
    (h : ScansFrom read (Cursor.all (before ++ (piece ++ after))) before.length values)
    (hreads : read.Reads before piece after value) :
    ∃ later, values = value :: later ∧
      ScansFrom read (Cursor.all (before ++ (piece ++ after))) (before ++ piece).length later := by
  have hplace : Cursor.between before (piece ++ after) ∈ Cursor.all (before ++ (piece ++ after)) :=
    Cursor.mem_all.mpr ⟨before, piece ++ after, rfl, rfl⟩
  have hread : read (Cursor.between before (piece ++ after)) = some _ := hreads
  cases h with
  | done hnone =>
      rw [hnone _ hplace (Nat.le_refl _)] at hread
      cases hread
  | @next _ c d found later hc hle hbefore hfound hlater =>
      rcases Nat.lt_or_eq_of_le hle with hlt | heq
      · rw [hbefore _ hplace (Nat.le_refl _) hlt] at hread
        cases hread
      · rw [← Cursor.eq_of_pos_eq hplace hc heq, hread] at hfound
        cases hfound
        exact ⟨later, rfl, hlater⟩

theorem Visits.exists_scansFrom (hmoves : read.Moves) (h : read.Visits before rest) :
    ∃ values, ScansFrom read (Cursor.all (before ++ rest)) before.length values ∧
      ∀ value ∈ values, value ∈ read.scan (before ++ rest) := by
  induction h with
  | start t =>
      exact ⟨read.scan t, scansFrom_scan (hmoves.isForward t), fun _ hvalue => hvalue⟩
  | pass _ hread ih =>
      rcases ih with ⟨values, hscans, hvalues⟩
      rw [List.append_assoc]
      refine ⟨values, ?_, hvalues⟩
      rw [List.length_append]
      exact hscans.pass hread
  | take _ hreads ih =>
      rcases ih with ⟨values, hscans, hvalues⟩
      rcases hscans.take hreads with ⟨later, rfl, hlater⟩
      rw [List.append_assoc]
      exact ⟨later, hlater, fun value hvalue => hvalues value (List.mem_cons_of_mem _ hvalue)⟩

/-- The values of a scan are those read at the visited places. -/
theorem mem_scan_iff (hmoves : read.Moves) {t : Text} :
    value ∈ read.scan t ↔
      ∃ before piece after, t = before ++ (piece ++ after) ∧ read.Visits before (piece ++ after) ∧
        read.Reads before piece after value := by
  constructor
  · intro hvalue
    exact (scansFrom_scan (hmoves.isForward t)).exists_visits hmoves (List.nil_append t).symm rfl
      (.start t) hvalue
  · intro h
    rcases h with ⟨before, piece, after, rfl, hvisits, hreads⟩
    rcases hvisits.exists_scansFrom hmoves with ⟨values, hscans, hvalues⟩
    rcases hscans.take hreads with ⟨later, rfl, _⟩
    exact hvalues value List.mem_cons_self

/-!
# The first part of a text
-/

/-- Whether the readings that lie in the first part of a text are those of that part alone. -/
def IsCut (read : Reader α) (front tail : Text) : Prop :=
  ∀ a piece after, front = a ++ (piece ++ after) → ∀ value,
    read.Reads a piece (after ++ tail) value ↔ read.Reads a piece after value

theorem Visits.of_append (hmoves : read.Moves) (hcut : read.IsCut front tail) {a x : Text}
    (h : read.Visits a (x ++ tail)) (hfront : front = a ++ x) : read.Visits a x := by
  generalize hrest : x ++ tail = rest at h
  induction h generalizing x with
  | start t =>
      exact .start x
  | @pass before rest y _ hread ih =>
      have hfrontCons : front = before ++ y :: x := by
        rw [hfront, List.append_assoc]
        rfl
      apply Visits.pass (ih hfrontCons (by rw [← hrest]; rfl))
      cases hother : read (Cursor.between before (y :: x)) with
      | none =>
          rfl
      | some next =>
          exfalso
          rcases hmoves.exists_reads hother with ⟨piece, after, _, hpiece, hreads⟩
          rw [hpiece] at hfrontCons
          have hwhole := (hcut before piece after hfrontCons _).mpr hreads
          unfold Reads at hwhole
          rw [← List.append_assoc, ← hpiece, List.cons_append, hrest, hread] at hwhole
          cases hwhole
  | @take before piece after value _ hreads ih =>
      rw [List.append_assoc] at hfront
      apply Visits.take (ih hfront (by rw [← hrest, List.append_assoc]))
      rw [← hrest] at hreads
      exact (hcut before piece x hfront value).mp hreads

/-- The first part of a text ends at a hidden place exactly when a scan of that part alone visits a
place at which, in the whole text, a piece begins that reaches over the end. -/
theorem hides_iff_exists_visits (hmoves : read.Moves) (hcut : read.IsCut front tail) :
    read.Hides front tail ↔
      ∃ a x w after value, front = a ++ x ∧ tail = w ++ after ∧ x ≠ [] ∧ w ≠ [] ∧
        read.Visits a x ∧ read.Reads a (x ++ w) after value := by
  constructor
  · intro h
    rcases h with ⟨a, x, w, after, value, rfl, rfl, hx, hw, hvisits, hreads⟩
    rw [List.append_assoc] at hvisits
    exact ⟨a, x, w, after, value, rfl, rfl, hx, hw, hvisits.of_append hmoves hcut rfl, hreads⟩
  · intro h
    rcases h with ⟨a, x, w, after, value, rfl, rfl, hx, hw, hvisits, hreads⟩
    rcases visits_or_hides hmoves a (x ++ (w ++ after)) with hcome | hhides
    · refine ⟨a, x, w, after, value, rfl, rfl, hx, hw, ?_, hreads⟩
      rw [List.append_assoc]
      exact hcome
    · -- The piece that hides the place reaches over the end too, since it does not end before.
      rcases hhides with ⟨a', u, w', after', value', rfl, hsplit, hu, hw', hvisits', hreads'⟩
      rcases append_cases hsplit.symm with ⟨m, rfl, rfl⟩ | ⟨y, m, rfl, hm⟩
      · exfalso
        have hfront : a' ++ u ++ (w' ++ m) = a' ++ (u ++ w' ++ m) := by simp
        apply hvisits.not_hides hmoves
        refine ⟨a', u, w', m, value', rfl, rfl, hu, hw', ?_, ?_⟩
        · rw [← List.append_assoc] at hvisits'
          exact hvisits'.of_append hmoves hcut hfront
        · exact (hcut a' (u ++ w') m hfront value').mp hreads'
      · refine ⟨a', u ++ x, y :: m, after', value', by simp, hm, by simp [hu], by simp, ?_, ?_⟩
        · simpa using hvisits'
        · simpa using hreads'

end Reader
end SourceAudit
