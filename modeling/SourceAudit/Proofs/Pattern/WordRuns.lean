import SourceAudit.Proofs.Pattern.Counting
import SourceAudit.Proofs.Text.Cut

/-!
# Counting words

## Runs of word characters

A word of a text is a run of word characters that none of them borders.  A pattern whose matches
are words, each with a gap behind it in which no word begins, has no match inside of another one.
So a scan misses none of them, and the number of its matches is the number of these words.
-/

namespace SourceAudit

theorem Cursor.exists_between {t : Text} {c : Cursor} (h : c ∈ all t) :
    ∃ before after, t = before ++ after ∧ c = between before after :=
  mem_all.mp h

def Cursor.atWordStart (c : Cursor) : Bool :=
  !c.prev.any Text.isWord && c.rest.head?.any Text.isWord

def Cursor.wordRun (c : Cursor) : Text × Text :=
  (c.rest.takeWhile Text.isWord, c.rest.dropWhile Text.isWord)

theorem Cursor.atWordStart_between {before after : Text} :
    (between before after).atWordStart = true ↔
      (∀ x ∈ before.getLast?, Text.isWord x = false) ∧
        ∃ x rest, after = x :: rest ∧ Text.isWord x = true := by
  unfold atWordStart
  rw [between_prev, between_rest, Bool.and_eq_true]
  apply and_congr
  · cases before.getLast? with
    | none =>
        simp
    | some x =>
        simp
  · cases after with
    | nil =>
        simp
    | cons x rest =>
        simp

namespace Text

/-- The words of a text from left to right, each with what follows it. -/
def wordRuns (t : Text) : List (Text × Text) :=
  ((Cursor.all t).filter Cursor.atWordStart).map Cursor.wordRun

/-- Whether a piece between two others is a word: a run of word characters that no further one
borders. -/
structure IsWordRun (before word after : Text) : Prop where
  ne_nil : word ≠ []
  isWord : ∀ x ∈ word, isWord x = true
  before : ∀ x ∈ before.getLast?, Text.isWord x = false
  after : ∀ x ∈ after.head?, Text.isWord x = false

variable {t before word after : Text}

theorem IsWordRun.atWordStart (h : IsWordRun before word after) :
    (Cursor.between before (word ++ after)).atWordStart = true := by
  rcases List.exists_cons_of_ne_nil h.ne_nil with ⟨x, more, rfl⟩
  exact Cursor.atWordStart_between.mpr
    ⟨h.before, x, more ++ after, rfl, h.isWord x List.mem_cons_self⟩

theorem IsWordRun.wordRun_between (h : IsWordRun before word after) :
    (Cursor.between before (word ++ after)).wordRun = (word, after) := by
  unfold Cursor.wordRun
  rw [Cursor.between_rest, takeWhile_append_of_class h.isWord h.after,
    dropWhile_append_of_class h.isWord h.after]

theorem exists_isWordRun {rest : Text} (h : (Cursor.between before rest).atWordStart = true) :
    ∃ word after, rest = word ++ after ∧ IsWordRun before word after := by
  rcases Cursor.atWordStart_between.mp h with ⟨hbefore, x, more, rfl, hx⟩
  refine ⟨(x :: more).takeWhile isWord, (x :: more).dropWhile isWord,
    List.takeWhile_append_dropWhile.symm, ?_, List.all_eq_true.mp List.all_takeWhile, hbefore,
    forall_mem_head?_dropWhile isWord (x :: more)⟩
  rw [List.takeWhile_cons, if_pos hx]
  exact List.cons_ne_nil x _

theorem mem_wordRuns_iff :
    (word, after) ∈ wordRuns t ↔ ∃ before, t = before ++ (word ++ after) ∧
      IsWordRun before word after := by
  unfold wordRuns
  rw [List.mem_map]
  constructor
  · intro h
    rcases h with ⟨c, hc, hrun⟩
    rcases List.mem_filter.mp hc with ⟨hall, hstart⟩
    rcases Cursor.exists_between hall with ⟨before, rest, rfl, rfl⟩
    rcases exists_isWordRun hstart with ⟨found, behind, rfl, hfound⟩
    rw [hfound.wordRun_between] at hrun
    cases hrun
    exact ⟨before, rfl, hfound⟩
  · intro h
    rcases h with ⟨before, rfl, hrun⟩
    refine ⟨Cursor.between before (word ++ after), ?_, ?_⟩
    · exact List.mem_filter.mpr ⟨Cursor.mem_all.mpr ⟨before, _, rfl, rfl⟩, hrun.atWordStart⟩
    · exact hrun.wordRun_between

theorem atWordStart_inside (before after : Text) {u v gap : Text} (hword : ∀ x ∈ word, isWord x = true)
    (hgap : ∀ x ∈ gap, isWord x = false) (hsplit : word ++ gap = u ++ v) (hu : u ≠ [])
    (hv : v ≠ []) : (Cursor.between (before ++ u) (v ++ after)).atWordStart = false := by
  rw [Bool.eq_false_iff]
  intro hstart
  rcases Cursor.atWordStart_between.mp hstart with ⟨hbefore, x, rest, hx, hisWord⟩
  rcases List.exists_cons_of_ne_nil hv with ⟨y, later, rfl⟩
  rcases List.cons.inj hx with ⟨rfl, _⟩
  rcases append_cases hsplit with ⟨m, _, hm⟩ | ⟨z, m, hm, _⟩
  · rw [hgap y (by simp [hm])] at hisWord
    cases hisWord
  · have hlast : u.getLast hu ∈ (before ++ u).getLast? := by
      rw [List.getLast?_append, List.getLast?_eq_some_getLast hu]
      rfl
    have hmem : u.getLast hu ∈ word := by
      rw [hm]
      exact List.mem_append_left _ (List.getLast_mem hu)
    have hnone := hbefore _ hlast
    rw [hword _ hmem] at hnone
    cases hnone

theorem pairwise_wordRuns (t : Text) :
    (wordRuns t).Pairwise fun run later => later.2.length < run.2.length := by
  unfold wordRuns
  rw [List.pairwise_map, List.pairwise_filter]
  have hmem : ∀ c ∈ Cursor.all t, ∀ d ∈ Cursor.all t, c.pos < d.pos → c.atWordStart = true →
      d.atWordStart = true → d.wordRun.2.length < c.wordRun.2.length := by
    intro c hc d hd hlt hstart hlater
    rcases Cursor.exists_between hc with ⟨before, rest, rfl, rfl⟩
    rcases Cursor.exists_between hd with ⟨before', rest', hsplit, rfl⟩
    rcases exists_isWordRun hstart with ⟨word, after, rfl, hrun⟩
    rcases exists_isWordRun hlater with ⟨word', after', rfl, hrun'⟩
    rcases exists_append_of_length_lt hsplit hlt with ⟨m, hm, rfl, hrest⟩
    rw [hrun.wordRun_between, hrun'.wordRun_between]
    rcases append_cases hrest with ⟨k, _, rfl⟩ | ⟨x, k, rfl, hk⟩
    · have hpos := List.length_pos_iff.mpr hrun'.ne_nil
      simp only [List.length_append]
      omega
    · have hinside := atWordStart_inside before after hrun.isWord (List.forall_mem_nil _)
        (List.append_nil _) hm (List.cons_ne_nil x k)
      rw [← hk, hlater] at hinside
      cases hinside
  have hall := List.Pairwise.and_mem.mp (Cursor.pairwise_all t)
  apply hall.imp
  intro c d hcd hc hd
  exact hmem c hcd.1 d hcd.2.1 hcd.2.2 hc hd

end Text

namespace Pattern

variable {p : Pattern} {t : Text}

/-!
# Places at which matches begin
-/

theorem beginsAt_between {before rest : Text} :
    p.beginsAt (Cursor.between before rest) = true ↔
      ∃ piece after, rest = piece ++ after ∧ p.Spans before piece after := by
  rw [beginsAt_iff]
  constructor
  · intro h
    rcases h with ⟨d, hd⟩
    rcases mem_ends_between.mp hd with ⟨piece, after, hrest, hspans, _⟩
    exact ⟨piece, after, hrest, hspans⟩
  · intro h
    rcases h with ⟨piece, after, rfl, hspans⟩
    exact ⟨_, hspans⟩

theorem countIn_le_countP (p : Pattern) (t : Text) :
    p.countIn t ≤ (Cursor.all t).countP p.beginsAt := by
  have h : ∀ (places : List Cursor) (resume : Nat),
      (p.reader.scanFrom resume places).length ≤ places.countP p.beginsAt := by
    intro places
    induction places with
    | nil =>
        intro resume
        exact Nat.le_refl 0
    | cons c later ih =>
        intro resume
        unfold Reader.scanFrom
        rw [List.countP_cons]
        split
        · exact Nat.le_add_right_of_le (ih resume)
        · cases hread : p.reader c with
          | none =>
              exact Nat.le_add_right_of_le (ih resume)
          | some next =>
              rcases Option.map_eq_some_iff.mp hread with ⟨d, hd, _⟩
              have hbegins : p.beginsAt c = true := by
                unfold beginsAt
                rw [hd]
                rfl
              rw [if_pos hbegins]
              exact Nat.succ_le_succ (ih next.1.pos)
  unfold countIn matchesIn
  rw [Reader.scan_eq_scanFrom]
  exact h _ _

/-- A pattern none of whose matches begins inside of another has a match at each place at which one
begins. -/
theorem countIn_eq_countP
    (hinner : ∀ {before u v after : Text}, p.Spans before (u ++ v) after → u ≠ [] → v ≠ [] →
      p.beginsAt (Cursor.between (before ++ u) (v ++ after)) = false) :
    p.countIn t = (Cursor.all t).countP p.beginsAt := by
  unfold countIn matchesIn
  rw [Reader.scan_eq_filterMap, List.length_filterMap_eq_countP]
  · apply List.countP_congr
    intro c _
    unfold reader beginsAt
    cases p.end? c <;> simp
  · intro c hc d value hread e he hlow hhigh
    rcases exists_spans_of_reader hc hread with ⟨before, piece, after, rfl, rfl, rfl, hspans⟩
    rcases Cursor.exists_between he with ⟨place, rest, hsplit, rfl⟩
    rcases exists_append_of_length_lt hsplit hlow with ⟨u, hu, rfl, hrest⟩
    rcases append_cases hrest with ⟨m, rfl, _⟩ | ⟨x, m, rfl, rfl⟩
    · simp only [Cursor.between_pos, List.length_append] at hhigh
      omega
    · have hbegins := hinner hspans hu (List.cons_ne_nil x m)
      unfold reader
      unfold beginsAt at hbegins
      rw [Option.isSome_eq_false_iff, Option.isNone_iff_eq_none] at hbegins
      rw [hbegins]
      rfl

/-!
# Matches that begin with words
-/

/-- Whether a pattern spans certain words, each with a gap behind it that has no word character. -/
structure IsWordwise (p : Pattern) (holds : Text × Text → Bool) : Prop where
  exists_isWordRun {before piece after : Text} : p.Spans before piece after → ∃ word gap,
    piece = word ++ gap ∧ (∀ x ∈ gap, Text.isWord x = false) ∧
      Text.IsWordRun before word (gap ++ after) ∧ holds (word, gap ++ after) = true
  exists_spans {before word behind : Text} : Text.IsWordRun before word behind →
    holds (word, behind) = true → ∃ gap after, behind = gap ++ after ∧
      p.Spans before (word ++ gap) after

variable {holds : Text × Text → Bool}

theorem IsWordwise.atWordStart (h : p.IsWordwise holds) {before rest : Text}
    (hbegins : p.beginsAt (Cursor.between before rest) = true) :
    (Cursor.between before rest).atWordStart = true := by
  rcases beginsAt_between.mp hbegins with ⟨piece, after, rfl, hpiece⟩
  rcases h.exists_isWordRun hpiece with ⟨word, gap, rfl, _, hrun, _⟩
  rw [List.append_assoc]
  exact hrun.atWordStart

theorem IsWordwise.countIn_eq_countP (h : p.IsWordwise holds) (t : Text) :
    p.countIn t = (Cursor.all t).countP p.beginsAt := by
  apply Pattern.countIn_eq_countP
  intro before u v after hpiece hu hv
  rcases h.exists_isWordRun hpiece with ⟨word, gap, hsplit, hgap, hrun, _⟩
  have hinside := Text.atWordStart_inside before after hrun.isWord hgap hsplit.symm hu hv
  rw [Bool.eq_false_iff]
  intro hbegins
  rw [h.atWordStart hbegins] at hinside
  cases hinside

/-- A pattern that spans certain words has as many matches in a text as the text has such words. -/
theorem IsWordwise.countIn_eq_countP_wordRuns (h : p.IsWordwise holds) (t : Text) :
    p.countIn t = t.wordRuns.countP holds := by
  rw [h.countIn_eq_countP]
  unfold Text.wordRuns
  rw [List.countP_map, List.countP_filter]
  apply List.countP_congr
  intro c hc
  rcases Cursor.exists_between hc with ⟨before, rest, rfl, rfl⟩
  rw [Bool.and_eq_true]
  constructor
  · intro hbegins
    refine ⟨?_, h.atWordStart hbegins⟩
    rcases beginsAt_between.mp hbegins with ⟨piece, after, rfl, hpiece⟩
    rcases h.exists_isWordRun hpiece with ⟨word, gap, rfl, _, hrun, hword⟩
    rw [List.append_assoc, Function.comp_apply, hrun.wordRun_between]
    exact hword
  · intro hboth
    rcases Text.exists_isWordRun hboth.2 with ⟨word, behind, rfl, hrun⟩
    rw [Function.comp_apply, hrun.wordRun_between] at hboth
    rcases h.exists_spans hrun hboth.1 with ⟨gap, after, rfl, hpiece⟩
    exact beginsAt_between.mpr ⟨word ++ gap, after, by rw [List.append_assoc], hpiece⟩

/-- A pattern that begins only where another one does, one that spans certain words, has no more
matches. -/
theorem IsWordwise.countIn_le {q : Pattern} (h : p.IsWordwise holds)
    (hbegins : ∀ c, q.beginsAt c = true → p.beginsAt c = true) (t : Text) :
    q.countIn t ≤ p.countIn t := by
  rw [h.countIn_eq_countP]
  calc
    q.countIn t ≤ (Cursor.all t).countP q.beginsAt := countIn_le_countP q t
    _ ≤ (Cursor.all t).countP p.beginsAt := List.countP_mono_left fun c _ => hbegins c

end Pattern
end SourceAudit
