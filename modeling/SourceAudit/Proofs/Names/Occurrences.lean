import Mathlib.Data.List.Basic
import SourceAudit.Names.Unknown
import SourceAudit.Proofs.Names.Bodies
import SourceAudit.Proofs.Text.Cut
import Std.Data.HashSet.Lemmas

/-!
# Occurrences of unknown names

## From places of a text to findings

A name stands at a place of a text when it is a whole run of word characters there.  What borders a
body is no character of a word, so a name stands in a body exactly when it stands there in the text.

The unknown uses of a text are the names that stand in its bodies and are neither introduced nor
allowed there.  They come in the order of their places, and each of them is reported once.
-/

namespace SourceAudit

/-- Whether a text is a name: word characters of which the first may begin a name. -/
def IsName (name : Text) : Prop :=
  (∃ x more, name = x :: more ∧ Text.isNameStart x = true) ∧ ∀ x ∈ name, Text.isWord x = true

theorem isName_iff_all {name : Text} :
    IsName name ↔ name.head?.any Text.isNameStart = true ∧ name.all Text.isWord = true := by
  unfold IsName
  rw [List.all_eq_true]
  cases name <;> simp

instance (name : Text) : Decidable (IsName name) :=
  decidable_of_iff _ isName_iff_all.symm

theorem IsName.ne_nil {name : Text} (h : IsName name) : name ≠ [] := by
  rcases h.1 with ⟨x, more, rfl, _⟩
  exact List.cons_ne_nil x more

theorem IsName.isWord_head? {name : Text} (h : IsName name) (after : Text) :
    ∀ x ∈ (name ++ after).head?, Text.isWord x = true := by
  rcases h.1 with ⟨x, more, rfl, hx⟩
  intro y hy
  cases hy
  exact Text.isWord_of_isNameStart hx

theorem IsName.exists_isWord_getLast? {name passed left : Text} (h : IsName name)
    (hname : name = passed ++ left) (hpassed : passed ≠ []) (before : Text) :
    ∃ x ∈ (before ++ passed).getLast?, Text.isWord x = true := by
  refine ⟨passed.getLast hpassed, ?_, ?_⟩
  · rw [List.getLast?_append_of_ne_nil before hpassed]
    exact List.getLast?_eq_some_getLast hpassed
  · apply h.2
    rw [hname]
    exact List.mem_append_left left (List.getLast_mem hpassed)

theorem IsName.atWordBoundary_iff {name : Text} (h : IsName name) (before after : Text) :
    (Cursor.between before (name ++ after)).atWordBoundary = true ↔
      ∀ x ∈ before.getLast?, Text.isWord x = false := by
  rcases h.1 with ⟨x, more, rfl, hx⟩
  exact Cursor.atWordBoundary_before rfl (Text.isWord_of_isNameStart hx)

/-- Whether a name stands at its place of a text: a word that no character of a word borders. -/
def NameUse.StandsIn (used : NameUse) (t : Text) : Prop :=
  ∃ before after, t = before ++ (used.name ++ after) ∧ before.length = used.pos ∧
    IsName used.name ∧ (∀ x ∈ before.getLast?, Text.isWord x = false) ∧
    ∀ x ∈ after.head?, Text.isWord x = false

namespace Names

open Pattern

/-!
# Names in a text
-/

theorem spans_name {before piece after : Text} :
    name.Spans before piece after ↔
      IsName piece ∧ ∀ x ∈ after.head?, Text.isWord x = false := by
  unfold name
  rw [spans_seq]
  constructor
  · intro h
    rcases h with ⟨u, v, rfl, hu, hv⟩
    rcases spans_char.mp hu with ⟨x, rfl, hx⟩
    rcases spans_whole.mp hv with ⟨hall, hafter⟩
    refine ⟨⟨⟨x, v, rfl, hx⟩, ?_⟩, hafter⟩
    intro y hy
    rcases List.mem_cons.mp hy with rfl | hy
    · exact Text.isWord_of_isNameStart hx
    · exact hall y hy
  · intro h
    rcases h with ⟨⟨⟨x, more, rfl, hx⟩, hall⟩, hafter⟩
    refine ⟨[x], more, rfl, spans_char.mpr ⟨x, rfl, hx⟩, spans_whole.mpr ⟨?_, hafter⟩⟩
    intro y hy
    exact hall y (List.mem_cons_of_mem x hy)

theorem isSingle_name : name.IsSingle :=
  (isSingle_char _).seq (isSingle_whole _)

theorem spans_wholeName {before piece after : Text} :
    (seq name wordBoundary).Spans before piece after ↔
      IsName piece ∧ ∀ x ∈ after.head?, Text.isWord x = false := by
  unfold wordBoundary
  rw [spans_seq]
  constructor
  · intro h
    rcases h with ⟨u, v, rfl, hu, hv⟩
    rcases spans_check.mp hv with ⟨rfl, _⟩
    rw [List.append_nil]
    exact spans_name.mp hu
  · intro h
    refine ⟨piece, [], (List.append_nil piece).symm, spans_name.mpr h, ?_⟩
    apply spans_check.mpr
    refine ⟨rfl, ?_⟩
    rcases h with ⟨⟨⟨x, more, hpiece, _⟩, hall⟩, hafter⟩
    have hne : piece ≠ [] := by
      rw [hpiece]
      exact List.cons_ne_nil x more
    exact (Cursor.atWordBoundary_behind hne hall).mpr hafter

theorem readUse_eq_some_iff {before rest : Text} {d : Cursor} {used : NameUse} :
    readUse (Cursor.between before rest) = some (d, used) ↔
      ∃ after, rest = used.name ++ after ∧ used.pos = before.length ∧ IsName used.name ∧
        (∀ x ∈ before.getLast?, Text.isWord x = false) ∧
        (∀ x ∈ after.head?, Text.isWord x = false) ∧
        d = Cursor.between (before ++ used.name) after := by
  have hsingle : (seq name wordBoundary).IsSingle :=
    isSingle_name.seq (isSingle_check _)
  show (if (Cursor.between before rest).atWordBoundary then _ else none) = _ ↔ _
  constructor
  · intro h
    split at h
    · rename_i hboundary
      rcases hsingle.run_eq_some_iff.mp h with ⟨piece, after, rfl, hspans, hvalue⟩
      rcases spans_wholeName.mp hspans with ⟨hname, hafter⟩
      cases hvalue
      rw [Cursor.upTo_between]
      exact ⟨after, rfl, rfl, hname, (hname.atWordBoundary_iff _ _).mp hboundary, hafter, rfl⟩
    · cases h
  · intro h
    rcases used with ⟨pos, name⟩
    rcases h with ⟨after, rfl, hpos, hname, hbefore, hafter, rfl⟩
    rw [if_pos ((hname.atWordBoundary_iff _ _).mpr hbefore)]
    apply hsingle.run_eq_some_iff.mpr
    refine ⟨name, after, rfl, spans_wholeName.mpr ⟨hname, hafter⟩, ?_⟩
    rw [Cursor.upTo_between, show pos = before.length from hpos]
    rfl

theorem readUse_apart {t : Text} {c d e : Cursor} {used : NameUse} (hc : c ∈ Cursor.all t)
    (hread : readUse c = some (d, used)) (he : e ∈ Cursor.all t) (hlow : c.pos < e.pos)
    (hhigh : e.pos < d.pos) : readUse e = none := by
  rcases Cursor.mem_all.mp hc with ⟨before, rest, ht, rfl⟩
  rcases Cursor.mem_all.mp he with ⟨before', rest', ht', rfl⟩
  rcases readUse_eq_some_iff.mp hread with ⟨after, rfl, _, hname, _, _, rfl⟩
  rcases exists_append_of_length_lt (ht.symm.trans ht') hlow with ⟨passed, hne, rfl, hpassed⟩
  have hlength : passed.length ≤ used.name.length := by
    have hpos : (before ++ passed).length < (before ++ used.name).length := hhigh
    simp only [List.length_append] at hpos
    omega
  rcases exists_append_of_length_le hpassed.symm hlength with ⟨left, hused, _⟩
  cases hother : readUse ⟨(before ++ passed).length, (before ++ passed).getLast?, rest'⟩ with
  | none =>
      rfl
  | some next =>
      rcases readUse_eq_some_iff.mp hother with ⟨_, _, _, _, hbefore, _, _⟩
      rcases hname.exists_isWord_getLast? hused hne before with ⟨x, hx, hword⟩
      rw [hbefore x hx] at hword
      cases hword

theorem usesIn_eq_filterMap (t : Text) :
    usesIn t = (Cursor.all t).filterMap fun c => (readUse c).map Prod.snd :=
  Reader.scan_eq_filterMap fun _ hc _ _ hread _ he hlow hhigh =>
    readUse_apart hc hread he hlow hhigh

/-- The uses found in a text are the names that stand in it. -/
theorem mem_usesIn_iff {t : Text} {used : NameUse} : used ∈ usesIn t ↔ used.StandsIn t := by
  rw [usesIn_eq_filterMap, List.mem_filterMap]
  constructor
  · intro h
    rcases h with ⟨c, hc, hvalue⟩
    rcases Option.map_eq_some_iff.mp hvalue with ⟨⟨d, _⟩, hread, rfl⟩
    rcases Cursor.mem_all.mp hc with ⟨before, rest, rfl, rfl⟩
    rcases readUse_eq_some_iff.mp hread with ⟨after, rfl, hpos, hname, hbefore, hafter, _⟩
    exact ⟨before, after, rfl, hpos.symm, hname, hbefore, hafter⟩
  · intro h
    rcases h with ⟨before, after, rfl, hpos, hname, hbefore, hafter⟩
    refine ⟨Cursor.between before (used.name ++ after), ?_, ?_⟩
    · exact Cursor.mem_all.mpr ⟨before, used.name ++ after, rfl, rfl⟩
    · have hread : readUse (Cursor.between before (used.name ++ after)) =
          some (Cursor.between (before ++ used.name) after, used) :=
        readUse_eq_some_iff.mpr ⟨after, rfl, hpos.symm, hname, hbefore, hafter, rfl⟩
      rw [hread]
      rfl

theorem pairwise_usesIn (t : Text) :
    (usesIn t).Pairwise fun first second => first.pos < second.pos := by
  have hpos : ∀ c ∈ Cursor.all t, ∀ used, (readUse c).map Prod.snd = some used →
      used.pos = c.pos := by
    intro c hc used hvalue
    rcases Option.map_eq_some_iff.mp hvalue with ⟨⟨d, _⟩, hread, rfl⟩
    rcases Cursor.mem_all.mp hc with ⟨before, rest, _, rfl⟩
    rcases readUse_eq_some_iff.mp hread with ⟨_, _, hpos, _⟩
    exact hpos
  rw [usesIn_eq_filterMap, List.pairwise_filterMap]
  apply (Cursor.pairwise_all t).imp_of_mem
  intro c e hc he hlt used hused used' hused'
  rw [hpos c hc used hused, hpos e he used' hused']
  exact hlt

/-!
# Names in a body
-/

theorem standsIn_of_body {function : FunctionText} {t : Text} {start : Nat}
    (hfunction : function.StandsAt t start) {used : NameUse} (h : used.StandsIn function.body) :
    NameUse.StandsIn ⟨function.bodyPos + used.pos, used.name⟩ t := by
  rcases hfunction with ⟨before, header, after, ht, rfl, hheader, hpos, hbody⟩
  rcases h with ⟨front, back, hsplit, hfront, hname, hbefore, hafter⟩
  refine ⟨before ++ header ++ front, back ++ after, ?_, ?_, hname, ?_, ?_⟩
  · rw [ht, hsplit]
    simp
  · rw [← hfront, hpos]
    simp [Nat.add_assoc]
  · intro x hx
    cases hlast : front.getLast? with
    | none =>
        rw [List.getLast?_append, hlast, List.getLast?_append, hheader.getLast?] at hx
        cases hx
        decide
    | some y =>
        rw [List.getLast?_append, hlast] at hx
        cases hx
        exact hbefore _ hlast
  · intro x hx
    cases back with
    | nil =>
        exact hbody.ends.isWord_head? x hx
    | cons y more =>
        exact hafter x hx

theorem standsIn_body {function : FunctionText} {t : Text} {start : Nat}
    (hfunction : function.StandsAt t start) {used : NameUse} (h : used.StandsIn t)
    (hlow : function.bodyPos ≤ used.pos)
    (hhigh : used.pos + used.name.length ≤ function.bodyEnd) :
    NameUse.StandsIn ⟨used.pos - function.bodyPos, used.name⟩ function.body := by
  rcases hfunction with ⟨before, header, after, ht, rfl, _, hpos, _⟩
  rcases h with ⟨front, back, hsplit, hfront, hname, hbefore, hafter⟩
  have hwhole : (before ++ header) ++ (function.body ++ after) =
      front ++ (used.name ++ back) := by
    rw [← hsplit, ht, List.append_assoc]
  have hfrontLength : (before ++ header).length ≤ front.length := by
    rw [List.length_append]
    omega
  rcases exists_append_of_length_le hwhole hfrontLength with ⟨inner, rfl, hinner⟩
  rw [← List.append_assoc] at hinner
  have hinnerLength : (inner ++ used.name).length ≤ function.body.length := by
    unfold FunctionText.bodyEnd at hhigh
    simp only [List.length_append] at hfront hfrontLength ⊢
    omega
  rcases exists_append_of_length_le hinner.symm hinnerLength with ⟨rest, hbody, hrest⟩
  refine ⟨inner, rest, by rw [hbody, List.append_assoc], ?_, hname, ?_, ?_⟩
  · show inner.length = used.pos - function.bodyPos
    rw [← hfront, hpos]
    simp only [List.length_append]
    omega
  · intro x hx
    apply hbefore
    rw [List.getLast?_append, hx]
    rfl
  · intro x hx
    apply hafter
    rw [hrest, List.head?_append, hx]
    rfl

theorem contains_ofList_map_iff {names : List Text} {name : Text} :
    (Std.HashSet.ofList (names.map String.ofList)).contains (String.ofList name) = true ↔
      name ∈ names := by
  rw [Std.HashSet.contains_ofList, List.contains_iff_mem, List.mem_map]
  constructor
  · intro h
    rcases h with ⟨other, hother, heq⟩
    rw [← String.ofList_injective heq]
    exact hother
  · intro h
    exact ⟨name, h, rfl⟩

theorem mem_unknownUsesIn_iff {allowList : AllowList} {function : FunctionText} {t : Text}
    {start : Nat} (hfunction : function.StandsAt t start) {used : NameUse} :
    used ∈ unknownUsesIn allowList function ↔
      used.StandsIn t ∧ function.bodyPos ≤ used.pos ∧
        used.pos + used.name.length ≤ function.bodyEnd ∧
        used.name ∉ localNames allowList function.parameters function.body ∧
        allowList.allows used.name = false := by
  unfold unknownUsesIn
  simp only [List.mem_map, List.mem_filter, mem_usesIn_iff, Bool.and_eq_true, Bool.not_eq_true']
  constructor
  · intro h
    rcases h with ⟨inner, ⟨hstands, hunknown, hallowed⟩, rfl⟩
    have hinside := hstands
    rcases hinside with ⟨front, back, hsplit, hfront, _⟩
    refine ⟨standsIn_of_body hfunction hstands, Nat.le_add_right _ _, ?_, ?_, hallowed⟩
    · unfold FunctionText.bodyEnd
      rw [hsplit, ← hfront]
      simp only [List.length_append]
      omega
    · intro hmem
      rw [contains_ofList_map_iff.mpr hmem] at hunknown
      cases hunknown
  · intro h
    rcases h with ⟨hstands, hlow, hhigh, hunknown, hallowed⟩
    refine ⟨⟨used.pos - function.bodyPos, used.name⟩,
      ⟨standsIn_body hfunction hstands hlow hhigh, ?_, hallowed⟩, ?_⟩
    · cases hcontains : (Std.HashSet.ofList ((localNames allowList function.parameters
          function.body).map String.ofList)).contains (String.ofList used.name) with
      | false =>
          rfl
      | true =>
          exact absurd (contains_ofList_map_iff.mp hcontains) hunknown
    · show (⟨function.bodyPos + (used.pos - function.bodyPos), used.name⟩ : NameUse) = used
      rw [Nat.add_sub_cancel' hlow]

theorem pairwise_unknownUsesIn (allowList : AllowList) (function : FunctionText) :
    (unknownUsesIn allowList function).Pairwise fun first second => first.pos < second.pos := by
  unfold unknownUsesIn
  rw [List.pairwise_map]
  apply ((pairwise_usesIn function.body).filter _).imp
  intro first second hlt
  exact Nat.add_lt_add_left hlt function.bodyPos

end Names

/-!
# Findings
-/

theorem pairwise_unknownUses (allowList : AllowList) (t : Text) :
    (unknownUses allowList t).Pairwise fun first second => first.pos < second.pos := by
  have hfunctions := FunctionText.functionsFrom_iff.mpr (Eq.refl (functionsIn t))
  unfold unknownUses
  rw [List.pairwise_flatMap]
  constructor
  · intro function _
    exact Names.pairwise_unknownUsesIn allowList function
  · apply hfunctions.pairwise.2.imp_of_mem
    intro first second hfirst hsecond hle used hused used' hused'
    rcases hfunctions.exists_standsAt hfirst with ⟨start, hstands⟩
    rcases hfunctions.exists_standsAt hsecond with ⟨start', hstands'⟩
    rcases (Names.mem_unknownUsesIn_iff hstands).mp hused with ⟨⟨_, _, _, _, hname, _⟩, _, hhigh, _⟩
    rcases (Names.mem_unknownUsesIn_iff hstands').mp hused' with ⟨_, hlow, _⟩
    have hlength : 0 < used.name.length := by
      rcases hname.1 with ⟨x, more, hcons, _⟩
      rw [hcons]
      exact Nat.succ_pos more.length
    omega

/-- A name is an unknown use where it stands in a body that neither introduces nor may use it. -/
theorem mem_unknownUses_iff {allowList : AllowList} {t : Text} {used : NameUse} :
    used ∈ unknownUses allowList t ↔
      used.StandsIn t ∧ ∃ function ∈ functionsIn t,
        function.bodyPos ≤ used.pos ∧ used.pos + used.name.length ≤ function.bodyEnd ∧
        used.name ∉ Names.localNames allowList function.parameters function.body ∧
        allowList.allows used.name = false := by
  have hfunctions := FunctionText.functionsFrom_iff.mpr (Eq.refl (functionsIn t))
  unfold unknownUses
  rw [List.mem_flatMap]
  constructor
  · intro h
    rcases h with ⟨function, hmem, hused⟩
    rcases hfunctions.exists_standsAt hmem with ⟨start, hstands⟩
    rcases (Names.mem_unknownUsesIn_iff hstands).mp hused with ⟨hin, hrest⟩
    exact ⟨hin, function, hmem, hrest⟩
  · intro h
    rcases h with ⟨hin, function, hmem, hrest⟩
    rcases hfunctions.exists_standsAt hmem with ⟨start, hstands⟩
    exact ⟨function, hmem, (Names.mem_unknownUsesIn_iff hstands).mpr ⟨hin, hrest⟩⟩

/-- The findings about names report, one by one and in the order of the text, the names that stand
in the body of a function and are neither introduced by the function nor allowed. -/
theorem nameFindings_exact (allowList : AllowList) (t : Text) :
    (∀ functions, FunctionText.FunctionsFrom t 0 functions ↔ functions = functionsIn t) ∧
    (unknownUses allowList t).Pairwise (fun first second => first.pos < second.pos) ∧
    (∀ used, used ∈ unknownUses allowList t ↔
      used.StandsIn t ∧ ∃ function ∈ functionsIn t,
        function.bodyPos ≤ used.pos ∧ used.pos + used.name.length ≤ function.bodyEnd ∧
        used.name ∉ Names.localNames allowList function.parameters function.body ∧
        allowList.allows used.name = false) ∧
    nameFindings allowList t =
      (unknownUses allowList t).map fun used => .unknownName used.name := by
  exact ⟨fun _ => FunctionText.functionsFrom_iff, pairwise_unknownUses allowList t,
    fun _ => mem_unknownUses_iff, rfl⟩

end SourceAudit
