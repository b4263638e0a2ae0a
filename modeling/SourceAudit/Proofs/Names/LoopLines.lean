import SourceAudit.Proofs.Names.Openings
import SourceAudit.Proofs.Names.Targets
import SourceAudit.Proofs.Text.Strip

/-!
# Headers of loops

## Which text hides a header

The header of a loop is read when the scan for targets comes to it, and then all its targets are
bound.  The scan comes to it unless a reading in the text in front stays open: it goes on with the
word `for` of the header, and the first target of the header is lost.

So the targets of all headers behind a text are bound exactly when a scan of that text comes to no
place where something stays open.  What follows the header does not matter.
-/

namespace SourceAudit
namespace Names

open Pattern Text

def loopHeader (row iterable : Text) : Text :=
  "for ".toList ++ (row ++ (" in ".toList ++ (iterable ++ [':'])))

/-- Whether a text ends in front of the first character of a line, spaces and tabs apart. -/
def EndsBeforeLine (front : Text) : Prop :=
  ∃ above indent, front = above ++ indent ∧ (∀ x ∈ above.getLast?, x = '\n') ∧
    ∀ x ∈ indent, isIndent x = true

/-- Whether behind some text of a body all targets of a header are bound and never reported, for
every header and for every text below it.  The keyword `in` is no target. -/
def BindsLoopsBehind (front : Text) : Prop :=
  ∀ (names : List Text) (row iterable below : Text) (function : FunctionText),
    IsNameRow names row → "in".toList ∉ names → '\n' ∉ iterable → (∀ x ∈ below.head?, x = '\n') →
    function.body = front ++ (loopHeader row iterable ++ below) →
      ∀ target ∈ names, target ∈ boundNames function.body ∧
        ∀ used ∈ unknownUsesIn .extended function, used.name ≠ target

/-!
# Targets in a row
-/

theorem splitTargets_append_cons (a b : Text) :
    splitTargets (a ++ ',' :: b) = splitTargets a ++ splitTargets b := by
  unfold splitTargets
  rw [cutAt_append_cons, List.map_append, List.filter_append]

theorem splitTargets_of_isName {gap name gap' : Text} (hname : IsName name)
    (hgap : ∀ x ∈ gap, isIndent x = true) (hgap' : ∀ x ∈ gap', isIndent x = true) :
    splitTargets (gap ++ (name ++ gap')) = [name] := by
  have hcomma : ',' ∉ gap ++ (name ++ gap') := by
    intro hmem
    simp only [List.mem_append] at hmem
    rcases hmem with hmem | hmem | hmem
    · exact absurd (hgap _ hmem) (by decide)
    · exact absurd (hname.2 _ hmem) (by decide)
    · exact absurd (hgap' _ hmem) (by decide)
  have hstrip : strip (gap ++ (name ++ gap')) = name := by
    apply strip_append_append
    · exact fun x hx => isBlank_of_isIndent (hgap x hx)
    · exact fun x hx => isBlank_of_isIndent (hgap' x hx)
    · exact hname.ne_nil
    · exact fun x hx => isBlank_eq_false_of_isWord (hname.2 x (List.mem_of_mem_head? hx))
    · exact fun x hx => isBlank_eq_false_of_isWord (hname.2 x (List.mem_of_getLast? hx))
  unfold splitTargets
  rw [cutAt_of_not_mem hcomma, List.map_singleton, hstrip]
  rcases hname.1 with ⟨x, more, rfl, _⟩
  rfl

theorem IsNameRow.splitTargets_eq {names : List Text} {row : Text} (h : IsNameRow names row)
    {gap : Text} (hgap : ∀ x ∈ gap, isIndent x = true) : splitTargets (gap ++ row) = names := by
  induction h generalizing gap with
  | @single name hname =>
      have hsplit : splitTargets (gap ++ (name ++ [])) = [name] :=
        splitTargets_of_isName hname hgap (by simp)
      rwa [List.append_nil] at hsplit
  | @cons name gap' gap'' row names hname hgap' hgap'' _ ih =>
      have hrow : gap ++ (name ++ (gap' ++ ',' :: (gap'' ++ row))) =
          gap ++ (name ++ gap') ++ ',' :: (gap'' ++ row) := by
        simp
      rw [hrow, splitTargets_append_cons, splitTargets_of_isName hname hgap hgap', ih hgap'']
      rfl

theorem IsNameRow.isTargets {names : List Text} {row : Text} (h : IsNameRow names row) :
    IsTargets row := by
  constructor
  · cases h with
    | single hname =>
        exact hname.1
    | cons hname _ _ _ =>
        rcases hname.1 with ⟨x, more, rfl, hx⟩
        exact ⟨x, _, rfl, hx⟩
  · intro x hx
    unfold isTargetChar
    rcases h.class x hx with hword | hindent | rfl
    · rw [hword, Bool.true_or, Bool.true_or]
    · rw [isBlank_of_isIndent hindent, Bool.or_true, Bool.true_or]
    · decide

theorem IsNameRow.not_endsTargets {names : List Text} {row : Text} (h : IsNameRow names row)
    (hin : "in".toList ∉ names) {u v : Text} (huv : row = u ++ v) (hv : v ≠ []) (tail : Text) :
    ¬EndsTargets (v ++ ' ' :: tail) := by
  intro hends
  have hlast : isWord (v.getLast hv) = true := by
    apply h.isWord_getLast
    rw [huv, List.getLast?_append_of_ne_nil _ hv]
    exact List.getLast?_eq_some_getLast hv
  have hinside : EndsTargets v := by
    apply hends.of_append
    · intro x hx
      cases hx
      decide
    · intro hblank
      have hword := isWord_eq_false_of_isBlank (hblank _ (List.getLast_mem hv))
      rw [hlast] at hword
      cases hword
  rcases hinside with ⟨gap, after, rfl, hne, hgap, hafter⟩
  have hword : row = (u ++ gap) ++ ("in".toList ++ after) := by
    rw [huv, List.append_assoc]
  apply hin
  apply h.mem_of_word hword (by decide) _ hafter
  intro x hx
  rw [List.getLast?_append_of_ne_nil _ hne] at hx
  exact isWord_eq_false_of_isBlank (hgap x (List.mem_of_getLast? hx))

theorem binds_loopHeader {names : List Text} {row : Text} (h : IsNameRow names row)
    (hin : "in".toList ∉ names) (iterable below : Text) :
    ∃ piece after, loopHeader row iterable ++ below = piece ++ after ∧ Binds piece after names := by
  have hbinds : Binds ("for".toList ++ ([' '] ++ (row ++ ([' '] ++ "in".toList))))
      (' ' :: (iterable ++ ':' :: below)) (splitTargets row) := by
    have hspace : ∀ x ∈ [' '], isBlank x = true := List.all_eq_true.mp (by decide)
    apply Binds.loop (by simp) hspace h.isTargets (by simp) hspace
    · intro x hx
      cases hx
      decide
    · intro u v huv _ hv
      exact h.not_endsTargets hin huv hv _
  have hvalue : splitTargets ([] ++ row) = names := h.splitTargets_eq (by simp)
  rw [show splitTargets row = names from hvalue] at hbinds
  exact ⟨_, _, by simp [loopHeader], hbinds⟩

/-!
# Targets of a reading
-/

theorem exists_of_mem_splitTargets {targets target : Text} (h : target ∈ splitTargets targets) :
    ∃ before piece after, targets = before ++ (piece ++ after) ∧ strip piece = target ∧
      (∀ x ∈ before.getLast?, x = ',') ∧ ∀ x ∈ after.head?, x = ',' := by
  unfold splitTargets at h
  rcases List.mem_map.mp (List.mem_filter.mp h).1 with ⟨piece, hpiece, hstrip⟩
  rcases exists_eq_of_mem_cutAt hpiece with ⟨before, after, htargets, hbefore, hafter⟩
  exact ⟨before, piece, after, htargets, hstrip, hbefore, hafter⟩

theorem Binds.length_le {piece after target : Text} {value : List Text}
    (h : Binds piece after value) (htarget : target ∈ value) : target.length ≤ piece.length := by
  cases h with
  | loop =>
      rcases exists_of_mem_splitTargets htarget with ⟨before, part, behind, rfl, rfl, _⟩
      have hpart := length_strip_le part
      simp only [List.length_append]
      omega
  | named =>
      rw [List.mem_singleton.mp htarget]
      simp only [List.length_append]
      omega

/-!
# A header whose target is lost
-/

section Lost

variable {x : Text} {n : Nat}

def longName (n : Nat) : Text :=
  List.replicate (n + 1) 'z'

theorem isName_longName (n : Nat) : IsName (longName n) := by
  refine ⟨⟨'z', List.replicate n 'z', List.replicate_succ, by decide⟩, ?_⟩
  intro y hy
  rw [List.eq_of_mem_replicate hy]
  decide

theorem not_mem_longName {y : Char} (hy : y ≠ 'z') (n : Nat) : y ∉ longName n :=
  fun hmem => hy (List.eq_of_mem_replicate hmem)

theorem longName_not_mem_splitTargets (hlength : x.length ≤ n) :
    longName n ∉ splitTargets (x ++ ("for ".toList ++ longName n)) := by
  intro hmem
  rcases exists_of_mem_splitTargets hmem with ⟨before, piece, after, hsplit, hstrip, hbefore, hafter⟩
  have hcomma : ',' ∉ "for ".toList ++ longName n := by
    intro h
    rcases List.mem_append.mp h with h | h
    · exact absurd h (by decide)
    · exact not_mem_longName (by decide) n h
  rcases append_cases hsplit.symm with ⟨m, rfl, hm⟩ | ⟨y, m, rfl, hm⟩
  · rcases append_cases hm.symm with ⟨m', rfl, hm'⟩ | ⟨y, m', rfl, _⟩
    · cases after with
      | nil =>
          rw [List.append_nil] at hm'
          have hletter : 'f' ∈ longName n := by
            rw [← hstrip, ← hm']
            exact mem_strip (by simp) (by decide)
          exact not_mem_longName (by decide) n hletter
      | cons y more =>
          apply hcomma
          rw [hm', hafter y rfl]
          simp
    · have hpiece := length_strip_le piece
      rw [hstrip] at hpiece
      unfold longName at hpiece
      simp only [List.length_append, List.length_cons, List.length_replicate] at hlength hpiece
      omega
  · apply hcomma
    have hlast := List.getLast_mem (List.cons_ne_nil y m)
    rw [← hbefore ((y :: m).getLast (List.cons_ne_nil y m)) (by
      rw [List.getLast?_append_of_ne_nil _ (List.cons_ne_nil y m)]
      exact List.getLast?_eq_some_getLast _)]
    rw [hm]
    exact List.mem_append_left _ hlast

theorem not_endsTargets_of_open (hopen : ∀ u v, x = u ++ v → u ≠ [] → ¬EndsTargets v) {u v : Text}
    (huv : x ++ ("for ".toList ++ longName n) = u ++ v) (hu : u ≠ []) (hv : v ≠ []) (tail : Text) :
    ¬EndsTargets (v ++ ' ' :: tail) := by
  intro hends
  have hsign : ∀ y ∈ (' ' :: tail : Text).head?, y ≠ 'i' ∧ y ≠ 'n' := by
    intro y hy
    cases hy
    decide
  have hlast : (x ++ ("for ".toList ++ longName n)).getLast? = some 'z' := by
    unfold longName
    rw [List.replicate_succ', ← List.append_assoc, ← List.append_assoc, List.getLast?_concat]
  rw [huv, List.getLast?_append_of_ne_nil _ hv] at hlast
  have hinside : EndsTargets v := by
    apply hends.of_append hsign
    intro hblank
    exact absurd (hblank 'z' (List.mem_of_getLast? hlast)) (by decide)
  rcases append_cases huv.symm with ⟨m, rfl, rfl⟩ | ⟨y, m, rfl, hm⟩
  · exact hopen u m rfl hu (hinside.of_append_header rfl)
  · -- The rest lies in the header, which has no letter of the word `in` so far.
    rcases hinside with ⟨gap, after, rfl, _⟩
    have hletter : 'i' ∈ "for ".toList ++ longName n := by
      rw [hm]
      simp
    rcases List.mem_append.mp hletter with hletter | hletter
    · exact absurd hletter (by decide)
    · exact not_mem_longName (by decide) n hletter

theorem isTargets_open (h : x = [] ∨ IsTargets x) : IsTargets (x ++ ("for ".toList ++ longName n)) := by
  have hheader : IsTargets ("for ".toList ++ longName n) := by
    refine ⟨⟨'f', _, rfl, by decide⟩, ?_⟩
    intro y hy
    rcases List.mem_append.mp hy with hy | hy
    · exact List.all_eq_true.mp (show "for ".toList.all isTargetChar = true by decide) y hy
    · rw [List.eq_of_mem_replicate hy]
      decide
  rcases h with rfl | ⟨⟨y, more, rfl, hy⟩, hall⟩
  · exact hheader
  · refine ⟨⟨y, _, rfl, hy⟩, ?_⟩
    intro z hz
    rcases List.mem_append.mp hz with hz | hz
    · exact hall z hz
    · exact hheader.2 z hz

theorem Opens.exists_binds (h : Opens x) (hlength : x.length ≤ n) :
    ∃ w after value, loopHeader (longName n) ['x'] = w ++ after ∧ w ≠ [] ∧
      Binds (x ++ w) after value ∧ longName n ∉ value ∧ 'f' ∉ after ∧ 'a' ∉ after := by
  cases h with
  | @loop gap targets hne hgap htargets hopen =>
      have hbinds : Binds ("for".toList ++ (gap ++ ((targets ++ ("for ".toList ++ longName n)) ++
          ([' '] ++ "in".toList)))) " x:".toList
          (splitTargets (targets ++ ("for ".toList ++ longName n))) := by
        apply Binds.loop hne hgap (isTargets_open htargets) (by simp)
          (List.all_eq_true.mp (by decide))
        · intro y hy
          cases hy
          decide
        · intro u v huv hu hv
          exact not_endsTargets_of_open hopen huv hu hv _
      have hshort : targets.length ≤ n := by
        simp only [List.length_append] at hlength
        omega
      refine ⟨"for ".toList ++ (longName n ++ " in".toList), " x:".toList,
        splitTargets (targets ++ ("for ".toList ++ longName n)), by simp [loopHeader], by simp, ?_,
        longName_not_mem_splitTargets hshort, by decide, by decide⟩
      simpa using hbinds
  | @named gap hne hgap =>
      have hafter : ∀ y ∈ (" ".toList ++ (longName n ++ " in x:".toList)).head?, isWord y = false := by
        intro y hy
        cases hy
        decide
      have hnot : ∀ y, y ≠ 'z' → y ∉ " in x:".toList →
          y ∉ " ".toList ++ (longName n ++ " in x:".toList) := by
        intro y hy hend hmem
        simp only [List.mem_append] at hmem
        rcases hmem with hmem | hmem | hmem
        · rw [List.mem_singleton.mp hmem] at hend
          exact hend (by decide)
        · exact not_mem_longName hy n hmem
        · exact hend hmem
      refine ⟨"for".toList, " ".toList ++ (longName n ++ " in x:".toList), ["for".toList],
        by simp [loopHeader], by decide, ?_, ?_, hnot 'f' (by decide) (by decide),
        hnot 'a' (by decide) (by decide)⟩
      · have hbinds : Binds ("as".toList ++ (gap ++ "for".toList)) _ ["for".toList] :=
          .named hne hgap (by decide) hafter
        simpa using hbinds
      · intro hmem
        have hletter : 'f' ∈ longName n := by
          rw [List.mem_singleton.mp hmem]
          decide
        exact not_mem_longName (by decide) n hletter

end Lost

/-!
# Headers behind a text
-/

section Behind

variable {front : Text}

theorem head?_loopHeader (row iterable below : Text) :
    (loopHeader row iterable ++ below).head? = some 'f' := rfl

/-- The targets of every header are bound if nothing in front of it stays open. -/
theorem bindsLoopsBehind_of_not_swallows (hlast : ∀ x ∈ front.getLast?, isWord x = false)
    (h : ¬Swallows front) : BindsLoopsBehind front := by
  intro names row iterable below function hrow hin _ _ hbody target htarget
  have hbound : target ∈ boundNames function.body := by
    rcases binds_loopHeader hrow hin iterable below with ⟨piece, after, hsplit, hbinds⟩
    rw [hbody]
    apply mem_boundNames_iff.mpr
    refine ⟨front, piece, after, names, by rw [hsplit], ?_, ?_, htarget⟩
    · rw [← hsplit]
      rcases Reader.visits_or_hides moves_readBinding front (loopHeader row iterable ++ below) with
        hvisits | hhides
      · exact hvisits
      · exact absurd (swallows_of_hides hlast (head?_loopHeader row iterable below) hhides) h
    · exact reads_readBinding_iff.mpr ⟨hlast, hbinds⟩
  have hlocal : target ∈ localNames .extended function.parameters function.body := by
    unfold localNames
    exact List.mem_append_right _ hbound
  exact ⟨hbound, fun used hused => ne_of_mem_unknownUsesIn hused hlocal⟩

theorem Swallows.exists_reads (hlast : ∀ x ∈ front.getLast?, isWord x = false)
    (h : Swallows front) :
    ∃ a piece after value,
      front ++ loopHeader (longName front.length) ['x'] = a ++ (piece ++ after) ∧
      a.length ≤ front.length ∧ readBinding.Visits a (piece ++ after) ∧
      readBinding.Reads a piece after value ∧ longName front.length ∉ value ∧
      'f' ∉ after ∧ 'a' ∉ after := by
  have hover : readBinding.Hides front (loopHeader (longName front.length) ['x']) := by
    rcases h with ⟨a, x, hfront, hbefore, hopens, hvisits⟩
    have hlength : x.length ≤ front.length := by
      rw [hfront, List.length_append]
      omega
    rcases hopens.exists_binds hlength with ⟨w, after, value, htail, hw, hbinds, _⟩
    apply (Reader.hides_iff_exists_visits moves_readBinding (isCut_readBinding hlast rfl)).mpr
    exact ⟨a, x, w, after, value, hfront, htail, hopens.ne_nil, hw, hvisits,
      reads_readBinding_iff.mpr ⟨hbefore, hbinds⟩⟩
  rcases hover with ⟨a, x, w, after, value, hfront, htail, hx, hw, hvisits, hreads⟩
  rcases reads_readBinding_iff.mp hreads with ⟨hbefore, hbinds⟩
  have hlength : x.length ≤ front.length := by
    rw [hfront, List.length_append]
    omega
  have hopens : Opens x := by
    rcases List.exists_cons_of_ne_nil hw with ⟨y, more, rfl⟩
    have hy : 'f' = y := (List.cons.inj htail).1
    rw [← hy] at hbinds
    rw [hfront] at hlast
    exact hbinds.opens hx (forall_mem_getLast?_of_append hlast)
  -- The piece is the one that is found for the text that stays open.
  rcases hopens.exists_binds hlength with ⟨w', after', value', htail', _, hbinds', hrest⟩
  have hreads' := reads_readBinding_iff.mpr ⟨hbefore, hbinds'⟩
  have hsame := hreads'.piece_eq hreads (by
    rw [List.append_assoc, List.append_assoc, ← htail, ← htail'])
  have hw' : w' = w := List.append_cancel_left hsame.1
  rw [htail, hw'] at htail'
  rw [hsame.2, ← List.append_cancel_left htail'] at hrest
  refine ⟨a, x ++ w, after, value, ?_, ?_, hvisits, hreads, hrest⟩
  · rw [htail, hfront]
    simp
  · rw [hfront, List.length_append]
    omega

/-- Behind a text in which something stays open, a long name is not bound by its loop. -/
theorem longName_not_mem_boundNames (hlast : ∀ x ∈ front.getLast?, isWord x = false)
    (h : Swallows front) :
    longName front.length ∉ boundNames (front ++ loopHeader (longName front.length) ['x']) := by
  intro hmem
  rcases h.exists_reads hlast with ⟨a, piece, after, value, hsplit, hlength, hvisits, hreads, hvalue,
    hnoFor, hnoAs⟩
  rcases mem_boundNames_iff.mp hmem with ⟨before, other, behind, found, hsplit', hvisits', hreads',
    hfound⟩
  have hplaces : a ++ (piece ++ after) = before ++ (other ++ behind) := hsplit.symm.trans hsplit'
  have hbinds := (reads_readBinding_iff.mp hreads').2
  rcases Nat.lt_trichotomy before.length a.length with hlt | heq | hlt
  · -- What is taken before lies in the text in front, which is too short.
    rcases hvisits'.behind moves_readBinding hreads' hvisits hplaces.symm hlt with ⟨m, hm, _⟩
    have hlong := hbinds.length_le hfound
    have hshort := congrArg List.length hm
    unfold longName at hlong
    simp only [List.length_append, List.length_replicate] at hlong hshort
    omega
  · rcases List.append_inj hplaces heq.symm with ⟨rfl, hrest⟩
    rw [(hreads.piece_eq hreads' hrest).2] at hvalue
    exact hvalue hfound
  · -- Nothing can be read behind the piece.
    rcases hvisits.behind moves_readBinding hreads hvisits' hplaces hlt with ⟨m, _, hafter⟩
    rcases hbinds.head? with hhead | hhead
    · exact hnoFor (by rw [hafter]; simp [List.mem_of_mem_head? hhead])
    · exact hnoAs (by rw [hafter]; simp [List.mem_of_mem_head? hhead])

theorem not_bindsLoopsBehind_of_swallows (hlast : ∀ x ∈ front.getLast?, isWord x = false)
    (h : Swallows front) : ¬BindsLoopsBehind front := by
  intro hbinds
  have hname := isName_longName front.length
  have hin : "in".toList ∉ [longName front.length] := by
    intro hmem
    apply not_mem_longName (y := 'i') (by decide) front.length
    rw [← List.mem_singleton.mp hmem]
    decide
  apply longName_not_mem_boundNames hlast h
  have hbound := hbinds [longName front.length] (longName front.length) ['x'] []
    ⟨[], 0, front ++ loopHeader (longName front.length) ['x']⟩ (.single hname) hin (by decide)
    (by simp) (by simp) (longName front.length) (List.mem_singleton.mpr rfl)
  exact hbound.1

/-- At the beginning of a line, the targets of all headers are bound exactly when nothing in front
of the line stays open. -/
theorem bindsLoopsBehind_iff (h : EndsBeforeLine front) : BindsLoopsBehind front ↔ ¬Swallows front := by
  have hlast : ∀ x ∈ front.getLast?, isWord x = false := by
    rcases h with ⟨above, indent, rfl, habove, hindent⟩
    apply forall_mem_getLast?_append
    · intro x hx
      rw [habove x hx]
      decide
    · intro x hx
      exact isWord_eq_false_of_isIndent (hindent x (List.mem_of_getLast? hx))
  constructor
  · intro hbinds hswallows
    exact not_bindsLoopsBehind_of_swallows hlast hswallows hbinds
  · exact bindsLoopsBehind_of_not_swallows hlast

theorem bindsLoopsBehind_indent :
    EndsBeforeLine "\n    ".toList ∧ BindsLoopsBehind "\n    ".toList := by
  have hline : EndsBeforeLine "\n    ".toList :=
    ⟨"\n".toList, "    ".toList, by decide, by simp, List.all_eq_true.mp (by decide)⟩
  refine ⟨hline, (bindsLoopsBehind_iff hline).mpr ?_⟩
  rintro ⟨a, x, hfront, _, hopens, _⟩
  -- What stays open begins with a letter.
  have hmem : 'f' ∈ "\n    ".toList ∨ 'a' ∈ "\n    ".toList := by
    rw [hfront]
    cases hopens
    · simp
    · simp
  revert hmem
  decide

/-- Behind a comment that holds the word `for`, the target of a loop is reported. -/
theorem exists_loop_target_unknown :
    ∃ function ∈ functionsIn
        "def f(n):\n    # for all\n    for i in range(n):\n        print(i)".toList,
      function.body = "\n    # for all\n    ".toList ++
        (loopHeader "i".toList "range(n)".toList ++ "\n        print(i)".toList) ∧
      "i".toList ∉ boundNames function.body ∧
        ∃ used ∈ unknownUsesIn .extended function, used.name = "i".toList := by
  refine ⟨⟨"n".toList, 9, "\n    # for all\n    for i in range(n):\n        print(i)".toList⟩,
    by decide +kernel, by decide, by decide +kernel, ?_⟩
  exact ⟨⟨32, "i".toList⟩, mem_unknownUsesIn_iff_exists.mpr (by decide +kernel), rfl⟩

end Behind

end Names
end SourceAudit
