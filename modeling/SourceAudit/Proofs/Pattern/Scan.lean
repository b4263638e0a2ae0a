import SourceAudit.Proofs.Pattern.Spans

/-!
# Scans

## Leftmost readings

A scan reads at the leftmost place at which something can be read, and goes on behind what it has
read.  When nothing can be read inside of what is read, the scan reads at every place at which
something can be read.
-/

namespace SourceAudit
namespace Cursor

/-!
# The order of places
-/

theorem reverse_walkOnto_cons (pos : Nat) (prev : Option Char) (x : Char) (rest : Text) :
    (walkOnto [] pos prev (x :: rest)).reverse =
      ⟨pos, prev, x :: rest⟩ :: (walkOnto [] (pos + 1) (some x) rest).reverse := by
  rw [walkOnto, walkOnto_eq_append, List.reverse_append]
  rfl

theorem le_pos_of_mem_walkOnto {pos : Nat} {prev : Option Char} {t : Text} {c : Cursor}
    (h : c ∈ walkOnto [] pos prev t) : pos ≤ c.pos := by
  rcases (mem_walkOnto_nil (c := ⟨pos, prev, t⟩)).mp h with ⟨piece, after, _, rfl⟩
  exact Nat.le_add_right pos piece.length

theorem pairwise_all (t : Text) : (all t).Pairwise fun c d => c.pos < d.pos := by
  unfold all
  generalize 0 = pos
  generalize none = prev
  induction t generalizing pos prev with
  | nil =>
      exact List.pairwise_singleton _ _
  | cons x rest ih =>
      rw [reverse_walkOnto_cons]
      constructor
      · intro d hd
        exact le_pos_of_mem_walkOnto (List.mem_reverse.mp hd)
      · exact ih (pos + 1) (some x)

end Cursor

namespace Reader

variable {α : Type} {read : Reader α}

/-!
# Scans of places
-/

def scanFrom (read : Reader α) (resume : Nat) : List Cursor → List α
  | [] => []
  | c :: later =>
      if c.pos < resume then scanFrom read resume later
      else
        match read c with
        | none => scanFrom read resume later
        | some (d, value) => value :: scanFrom read d.pos later

theorem scan_eq_scanFrom (read : Reader α) (t : Text) :
    read.scan t = read.scanFrom 0 (Cursor.all t) := by
  have h : ∀ (places : List Cursor) (resume : Nat),
      (read.scanOnto resume [] places).reverse = read.scanFrom resume places := by
    intro places
    induction places with
    | nil =>
        intro resume
        rfl
    | cons c later ih =>
        intro resume
        unfold scanOnto scanFrom
        by_cases hc : c.pos < resume
        · rw [if_pos hc, if_pos hc]
          exact ih resume
        · rw [if_neg hc, if_neg hc]
          cases read c with
          | none =>
              exact ih resume
          | some next =>
              show (read.scanOnto next.1.pos [next.2] later).reverse = _
              rw [scanOnto_eq_append, List.reverse_append, ih]
              rfl
  exact h (Cursor.all t) 0

/-- Whether some values are those of the leftmost readings among some places: each is read at the
first place, not before the end of the one read before, at which something can be read. -/
inductive ScansFrom (read : Reader α) (places : List Cursor) : Nat → List α → Prop where
  | done {resume : Nat} :
      (∀ c ∈ places, resume ≤ c.pos → read c = none) → ScansFrom read places resume []
  | next {resume : Nat} {c d : Cursor} {value : α} {values : List α} :
      c ∈ places → resume ≤ c.pos →
      (∀ e ∈ places, resume ≤ e.pos → e.pos < c.pos → read e = none) →
      read c = some (d, value) → ScansFrom read places d.pos values →
      ScansFrom read places resume (value :: values)

/-- Whether reading at some places moves forward. -/
def IsForward (read : Reader α) (places : List Cursor) : Prop :=
  ∀ c ∈ places, ∀ {d : Cursor} {value : α}, read c = some (d, value) → c.pos < d.pos

theorem ScansFrom.cons {places : List Cursor} {resume : Nat} {values : List α}
    (h : ScansFrom read places resume values) (hforward : read.IsForward places) {c : Cursor}
    (hc : resume ≤ c.pos → read c = none) (hplaces : ∀ e ∈ places, c.pos < e.pos) :
    ScansFrom read (c :: places) resume values := by
  induction h with
  | done hnone =>
      apply ScansFrom.done
      intro e he
      rcases List.mem_cons.mp he with rfl | he
      · exact hc
      · exact hnone e he
  | next hmem hresume hbefore hread _ ih =>
      apply ScansFrom.next (List.mem_cons_of_mem c hmem) hresume _ hread
      · apply ih
        intro hle
        have hfirst := hplaces _ hmem
        have hlast := hforward _ hmem hread
        omega
      · intro e he
        rcases List.mem_cons.mp he with rfl | he
        · intro hle _
          exact hc hle
        · exact hbefore e he

theorem scansFrom_scanFrom {places : List Cursor} (hforward : read.IsForward places)
    (hplaces : places.Pairwise fun c d => c.pos < d.pos) (resume : Nat) :
    ScansFrom read places resume (read.scanFrom resume places) := by
  induction places generalizing resume with
  | nil =>
      apply ScansFrom.done
      intro c hc
      cases hc
  | cons c later ih =>
      rcases List.pairwise_cons.mp hplaces with ⟨hfirst, hlater⟩
      have hforwardLater : read.IsForward later :=
        fun e he => hforward e (List.mem_cons_of_mem c he)
      have hrest := ih hforwardLater hlater
      unfold scanFrom
      by_cases hc : c.pos < resume
      · rw [if_pos hc]
        exact (hrest resume).cons hforwardLater (fun hle => by omega) hfirst
      · rw [if_neg hc]
        cases hread : read c with
        | none =>
            exact (hrest resume).cons hforwardLater (fun _ => hread) hfirst
        | some next =>
            rcases next with ⟨d, value⟩
            have hmove := hforward c List.mem_cons_self hread
            apply ScansFrom.next List.mem_cons_self (Nat.le_of_not_lt hc) _ hread
            · exact (hrest d.pos).cons hforwardLater (fun hle => by omega) hfirst
            · intro e he _ hlt
              rcases List.mem_cons.mp he with rfl | he
              · omega
              · have hpos := hfirst e he
                omega

/-- A scan makes the leftmost readings of a text. -/
theorem scansFrom_scan {t : Text} (hforward : read.IsForward (Cursor.all t)) :
    ScansFrom read (Cursor.all t) 0 (read.scan t) := by
  rw [scan_eq_scanFrom]
  exact scansFrom_scanFrom hforward (Cursor.pairwise_all t) 0

theorem ScansFrom.map {β : Type} {keep : Reader β} {part : α → β}
    (hkeep : ∀ c, keep c = (read c).map fun next => (next.1, part next.2))
    {places : List Cursor} {resume : Nat} {values : List α}
    (h : ScansFrom read places resume values) :
    ScansFrom keep places resume (values.map part) := by
  have hnone : ∀ c, read c = none → keep c = none := by
    intro c hread
    rw [hkeep, hread]
    rfl
  induction h with
  | done hread =>
      apply ScansFrom.done
      intro c hc hresume
      exact hnone c (hread c hc hresume)
  | next hc hresume hbefore hread _ ih =>
      apply ScansFrom.next hc hresume _ _ ih
      · intro e he hle hlt
        exact hnone e (hbefore e he hle hlt)
      · rw [hkeep, hread]
        rfl

/-- A scan reads everywhere if nothing can be read inside of what is read. -/
theorem scan_eq_filterMap {t : Text}
    (hapart : ∀ c ∈ Cursor.all t, ∀ d value, read c = some (d, value) →
      ∀ e ∈ Cursor.all t, c.pos < e.pos → e.pos < d.pos → read e = none) :
    read.scan t = (Cursor.all t).filterMap fun c => (read c).map Prod.snd := by
  have h : ∀ (places : List Cursor) (resume : Nat),
      (∀ c ∈ places, c ∈ Cursor.all t) → (places.Pairwise fun c d => c.pos < d.pos) →
      (∀ c ∈ places, c.pos < resume → read c = none) →
      read.scanFrom resume places = places.filterMap fun c => (read c).map Prod.snd := by
    intro places
    induction places with
    | nil =>
        intro resume _ _ _
        rfl
    | cons c later ih =>
        intro resume hall hsorted hpassed
        rcases List.pairwise_cons.mp hsorted with ⟨hfirst, hlater⟩
        have hallLater : ∀ e ∈ later, e ∈ Cursor.all t :=
          fun e he => hall e (List.mem_cons_of_mem c he)
        have hpassedLater : ∀ e ∈ later, e.pos < resume → read e = none :=
          fun e he => hpassed e (List.mem_cons_of_mem c he)
        unfold scanFrom
        rw [List.filterMap_cons]
        by_cases hc : c.pos < resume
        · rw [if_pos hc, hpassed c List.mem_cons_self hc]
          exact ih resume hallLater hlater hpassedLater
        · rw [if_neg hc]
          cases hread : read c with
          | none =>
              exact ih resume hallLater hlater hpassedLater
          | some next =>
              rcases next with ⟨d, value⟩
              show value :: scanFrom read d.pos later = value :: _
              rw [ih d.pos hallLater hlater]
              intro e he hlt
              exact hapart c (hall c List.mem_cons_self) d value hread e (hallLater e he)
                (hfirst e he) hlt
  rw [scan_eq_scanFrom]
  apply h _ _ (fun c hc => hc) (Cursor.pairwise_all t)
  intro c _ hlt
  exact absurd hlt (Nat.not_lt_zero c.pos)

end Reader

namespace Pattern

/-!
# Patterns with one end
-/

/-- Whether a match that begins at a place can end at one place only. -/
def IsSingle (p : Pattern) : Prop :=
  ∀ c, (p.ends c).length ≤ 1

theorem IsSingle.eq_nil {p : Pattern} (h : p.IsSingle) {c d : Cursor} {others : List Cursor}
    (hends : p.ends c = d :: others) : others = [] := by
  have hlength := h c
  rw [hends] at hlength
  exact List.eq_nil_of_length_eq_zero (Nat.le_zero.mp (Nat.le_of_succ_le_succ hlength))

theorem isSingle_nothing : nothing.IsSingle :=
  fun _ => Nat.le_refl 1

theorem isSingle_char (accepts : Char → Bool) : (char accepts).IsSingle := by
  intro c
  unfold ends
  split
  · exact Nat.zero_le 1
  · split
    · exact Nat.le_refl 1
    · exact Nat.zero_le 1

theorem isSingle_check (holds : Cursor → Bool) : (check holds).IsSingle := by
  intro c
  unfold ends
  split
  · exact Nat.le_refl 1
  · exact Nat.zero_le 1

theorem isSingle_whole (accepts : Char → Bool) : (whole accepts).IsSingle :=
  fun _ => Nat.le_refl 1

theorem IsSingle.seq {first second : Pattern} (hfirst : first.IsSingle)
    (hsecond : second.IsSingle) : (Pattern.seq first second).IsSingle := by
  intro c
  unfold ends
  cases hends : first.ends c with
  | nil =>
      exact Nat.zero_le 1
  | cons d rest =>
      rw [hfirst.eq_nil hends, List.flatMap_cons, List.flatMap_nil, List.append_nil]
      exact hsecond d

theorem isSingle_sequence {parts : List Pattern} (h : ∀ p ∈ parts, p.IsSingle) :
    (sequence parts).IsSingle := by
  induction parts with
  | nil =>
      exact isSingle_nothing
  | cons p rest ih =>
      apply IsSingle.seq (h p List.mem_cons_self)
      exact ih fun q hq => h q (List.mem_cons_of_mem p hq)

theorem isSingle_literal (s : String) : (literal s).IsSingle := by
  apply isSingle_sequence
  intro p hp
  rcases List.mem_map.mp hp with ⟨x, _, rfl⟩
  exact isSingle_char _

theorem isSingle_several (accepts : Char → Bool) : (several accepts).IsSingle :=
  (isSingle_char accepts).seq (isSingle_whole accepts)

theorem IsSingle.run_eq_some_iff {p : Pattern} (h : p.IsSingle) {α : Type} {before rest : Text}
    {k : Cursor → Option α} {result : α} :
    p.run (Cursor.between before rest) k = some result ↔
      ∃ piece after, rest = piece ++ after ∧ p.Spans before piece after ∧
        k (Cursor.between (before ++ piece) after) = some result := by
  rw [run_eq_findSome?]
  constructor
  · intro hrun
    rcases List.exists_of_findSome?_eq_some hrun with ⟨d, hd, hk⟩
    rcases mem_ends_between.mp hd with ⟨piece, after, hrest, hspans, rfl⟩
    exact ⟨piece, after, hrest, hspans, hk⟩
  · intro hpiece
    rcases hpiece with ⟨piece, after, rfl, hspans, hk⟩
    have hmem : Cursor.between (before ++ piece) after ∈
        p.ends (Cursor.between before (piece ++ after)) := hspans
    cases hends : p.ends (Cursor.between before (piece ++ after)) with
    | nil =>
        rw [hends] at hmem
        cases hmem
    | cons d rest =>
        have hrest := h.eq_nil hends
        rw [hends, hrest] at hmem
        rw [← List.mem_singleton.mp hmem, List.findSome?_cons, hk]

/-!
# Shortest pieces
-/

section Shortest

variable {accepts : Char → Bool} {α : Type} {before rest : Text} {k : Cursor → Option α}
  {result : α}

/-- Whether a result is reached behind the shortest piece of accepted characters behind which
anything is. -/
def ReachesFirst (accepts : Char → Bool) (k : Cursor → Option α) (before rest : Text)
    (result : α) : Prop :=
  ∃ piece after, rest = piece ++ after ∧ (∀ x ∈ piece, accepts x = true) ∧
    k (Cursor.between (before ++ piece) after) = some result ∧
    ∀ u v, piece = u ++ v → v ≠ [] → k (Cursor.between (before ++ u) (v ++ after)) = none

theorem reachesFirst_of_some {found : α} (h : k (Cursor.between before rest) = some found) :
    ReachesFirst accepts k before rest result ↔ found = result := by
  constructor
  · intro hreaches
    rcases hreaches with ⟨piece, after, rfl, _, hk, hfirst⟩
    cases piece with
    | nil =>
        rw [List.append_nil] at hk
        exact Option.some.inj (h.symm.trans hk)
    | cons x more =>
        have hnone := hfirst [] (x :: more) rfl (List.cons_ne_nil x more)
        rw [List.append_nil, h] at hnone
        cases hnone
  · intro hfound
    refine ⟨[], rest, rfl, by simp, ?_, ?_⟩
    · rw [List.append_nil, h, hfound]
    · intro u v huv hv
      exact absurd (List.append_eq_nil_iff.mp huv.symm).2 hv

theorem not_reachesFirst_nil (h : k (Cursor.between before []) = none) :
    ¬ReachesFirst accepts k before [] result := by
  intro hreaches
  rcases hreaches with ⟨piece, after, hsplit, _, hk, _⟩
  rcases List.append_eq_nil_iff.mp hsplit.symm with ⟨rfl, rfl⟩
  rw [List.append_nil, h] at hk
  cases hk

theorem reachesFirst_cons {x : Char} (h : k (Cursor.between before (x :: rest)) = none) :
    ReachesFirst accepts k before (x :: rest) result ↔
      accepts x = true ∧ ReachesFirst accepts k (before ++ [x]) rest result := by
  constructor
  · intro hreaches
    rcases hreaches with ⟨piece, after, hsplit, hpiece, hk, hfirst⟩
    cases piece with
    | nil =>
        rw [List.append_nil, ← show x :: rest = after from hsplit, h] at hk
        cases hk
    | cons y piece =>
        rw [List.cons_append] at hsplit
        rcases List.cons.inj hsplit with ⟨rfl, rfl⟩
        refine ⟨hpiece x List.mem_cons_self, piece, after, rfl, ?_, ?_, ?_⟩
        · intro z hz
          exact hpiece z (List.mem_cons_of_mem x hz)
        · rw [List.append_assoc]
          exact hk
        · intro u v huv hv
          rw [List.append_assoc]
          exact hfirst (x :: u) v (by rw [huv, List.cons_append]) hv
  · intro hreaches
    rcases hreaches with ⟨hx, piece, after, rfl, hpiece, hk, hfirst⟩
    rw [List.append_assoc] at hk
    refine ⟨x :: piece, after, rfl, ?_, hk, ?_⟩
    · intro y hy
      rcases List.mem_cons.mp hy with rfl | hy
      · exact hx
      · exact hpiece y hy
    · intro u v huv hv
      cases u with
      | nil =>
          rw [List.append_nil, ← show x :: piece = v from huv]
          exact h
      | cons y u =>
          rw [List.cons_append] at huv
          rcases List.cons.inj huv with ⟨rfl, hpieces⟩
          have hnone := hfirst u v hpieces hv
          rw [List.append_assoc] at hnone
          exact hnone

/-- A run of a pattern for as few characters as can be goes on behind the shortest piece behind
which it succeeds. -/
theorem run_few_eq_some_iff :
    (few accepts).run (Cursor.between before rest) k = some result ↔
      ReachesFirst accepts k before rest result := by
  show Cursor.firstOver accepts k before.length before.getLast? rest = some result ↔ _
  induction rest generalizing before with
  | nil =>
      unfold Cursor.firstOver
      show k (Cursor.between before []) = some result ↔ _
      cases hhere : k (Cursor.between before []) with
      | none =>
          simp [not_reachesFirst_nil hhere]
      | some found =>
          rw [reachesFirst_of_some hhere]
          exact Option.some_inj
  | cons x rest ih =>
      have hstep := @ih (before ++ [x])
      rw [List.length_append, List.length_singleton, List.getLast?_concat] at hstep
      unfold Cursor.firstOver
      cases hhere : k (Cursor.between before (x :: rest)) with
      | none =>
          rw [show k ⟨before.length, before.getLast?, x :: rest⟩ = none from hhere,
            reachesFirst_cons hhere, ← hstep]
          simp
      | some found =>
          rw [show k ⟨before.length, before.getLast?, x :: rest⟩ = some found from hhere,
            reachesFirst_of_some hhere]
          exact Option.some_inj

end Shortest

end Pattern
end SourceAudit
