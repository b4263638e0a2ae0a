import SourceAudit.Proofs.Names.Occurrences

/-!
# Blocks of a text

## A text behind another

Two texts are joined by a line feed, and the second begins with a character other than a blank.  A
body may then end at the join, and before it wherever it may end in the first text alone.  So a
function whose header fits in the first text is the same function in both, and the scan enters the
second text as if nothing came before.

A header that begins in the first text and ends in the second is the one thing that can go wrong.
Only headers that the scan finds matter: what looks like a header inside of a body does not.
-/

namespace SourceAudit
namespace FunctionText

open Pattern

/-!
# Functions with their places
-/

def readPlaced : Reader (Nat × FunctionText) :=
  fun c => (read c).map fun next => (next.1, (c.pos, next.2))

def placedIn (t : Text) : List (Nat × FunctionText) :=
  readPlaced.scan t

/-- Whether no header that is found in a text begins within its first characters and ends behind
these. -/
def HeadersFit (t : Text) (length : Nat) : Prop :=
  ∀ found ∈ placedIn t, found.1 < length → found.2.bodyPos ≤ length

instance (t : Text) (length : Nat) : Decidable (HeadersFit t length) :=
  inferInstanceAs (Decidable (∀ found ∈ placedIn t, found.1 < length → found.2.bodyPos ≤ length))

theorem isForward_readPlaced (t : Text) : readPlaced.IsForward (Cursor.all t) := by
  intro c hc d found h
  rcases Option.map_eq_some_iff.mp h with ⟨⟨_, function⟩, hread, heq⟩
  cases heq
  exact isForward_read t c hc hread

theorem functionsFrom_of_scansPlaced {t : Text} {resume : Nat} {placed : List (Nat × FunctionText)}
    (h : readPlaced.ScansFrom (Cursor.all t) resume placed) :
    FunctionsFrom t resume (placed.map Prod.snd) := by
  apply functionsFrom_of_scansFrom
  apply h.map
  intro c
  unfold readPlaced
  cases read c with
  | none =>
      rfl
  | some next =>
      rfl

theorem standsAt_of_scansPlaced {t : Text} {resume : Nat} {placed : List (Nat × FunctionText)}
    (hscan : readPlaced.ScansFrom (Cursor.all t) resume placed) {found : Nat × FunctionText}
    (h : found ∈ placed) : found.2.StandsAt t found.1 := by
  induction hscan with
  | done _ =>
      cases h
  | next hc _ _ hread _ ih =>
      rcases List.mem_cons.mp h with rfl | hlater
      · rcases Cursor.mem_all.mp hc with ⟨before, rest, rfl, rfl⟩
        rcases Option.map_eq_some_iff.mp hread with ⟨⟨passed, function⟩, hfunction, heq⟩
        cases heq
        exact standsAt_iff.mpr ⟨passed, hfunction⟩
      · exact ih hlater

/-- The headers fit if none that stands anywhere in the text reaches over the place. -/
theorem headersFit_of_forall_header {t : Text} {length : Nat}
    (h : ∀ before header rest parameters, t = before ++ (header ++ rest) →
      IsHeader header parameters → before.length < length →
        (before ++ header).length ≤ length) :
    HeadersFit t length := by
  intro found hfound hlt
  rcases standsAt_of_scansPlaced (Reader.scansFrom_scan (isForward_readPlaced t)) hfound with
    ⟨before, header, after, ht, hstart, hheader, hpos, _⟩
  have hle := h before header _ _ ht hheader (by omega)
  rw [List.length_append] at hle
  omega

theorem map_placedIn (t : Text) : (placedIn t).map Prod.snd = functionsIn t :=
  functionsFrom_iff.mp
    (functionsFrom_of_scansPlaced (Reader.scansFrom_scan (isForward_readPlaced t)))

/-!
# Functions further on
-/

def behind (length : Nat) (function : FunctionText) : FunctionText :=
  { function with bodyPos := length + function.bodyPos }

theorem headerAt_behind_iff {front t : Text} {start : Nat} :
    HeaderAt (front ++ t) (front.length + start) ↔ HeaderAt t start := by
  constructor
  · intro h
    rcases h with ⟨before, header, rest, parameters, ht, hstart, hheader⟩
    rcases exists_append_of_length_le ht (by omega) with ⟨between, rfl, rfl⟩
    rw [List.length_append] at hstart
    exact ⟨between, header, rest, parameters, rfl, by omega, hheader⟩
  · intro h
    rcases h with ⟨before, header, rest, parameters, rfl, rfl, hheader⟩
    refine ⟨front ++ before, header, rest, parameters, ?_, List.length_append, hheader⟩
    rw [List.append_assoc]

theorem StandsAt.behind {function : FunctionText} {t : Text} {start : Nat}
    (h : function.StandsAt t start) (front : Text) :
    (function.behind front.length).StandsAt (front ++ t) (front.length + start) := by
  rcases h with ⟨before, header, after, rfl, rfl, hheader, hpos, hbody⟩
  refine ⟨front ++ before, header, after, ?_, List.length_append, hheader, ?_, hbody⟩
  · rw [List.append_assoc]
    rfl
  · show front.length + function.bodyPos = _
    rw [hpos, Nat.add_assoc]

theorem FunctionsFrom.behind {t : Text} {resume : Nat} {functions : List FunctionText}
    (h : FunctionsFrom t resume functions) (front : Text) :
    FunctionsFrom (front ++ t) (front.length + resume)
      (functions.map (FunctionText.behind front.length)) := by
  induction h with
  | done hnone =>
      apply FunctionsFrom.done
      intro start hresume hheader
      rcases Nat.exists_eq_add_of_le (Nat.le_trans (Nat.le_add_right _ _) hresume) with ⟨k, rfl⟩
      exact hnone k (by omega) (headerAt_behind_iff.mp hheader)
  | @next resume start function later hresume hbefore hstands _ ih =>
      have hend : front.length + function.bodyEnd =
          (function.behind front.length).bodyEnd := by
        unfold bodyEnd
        rw [← Nat.add_assoc]
        rfl
      rw [hend] at ih
      apply FunctionsFrom.next (Nat.add_le_add_left hresume _) _ (hstands.behind front) ih
      intro earlier hle hlt hheader
      rcases Nat.exists_eq_add_of_le (Nat.le_trans (Nat.le_add_right _ _) hle) with ⟨k, rfl⟩
      exact hbefore k (by omega) (by omega) (headerAt_behind_iff.mp hheader)

theorem FunctionsFrom.skip {t : Text} {resume further : Nat} {functions : List FunctionText}
    (h : FunctionsFrom t resume functions) (hle : resume ≤ further)
    (hnone : ∀ start, resume ≤ start → start < further → ¬HeaderAt t start) :
    FunctionsFrom t further functions := by
  cases h with
  | done hlater =>
      apply FunctionsFrom.done
      intro start hstart
      exact hlater start (Nat.le_trans hle hstart)
  | @next _ start function later hresume hbefore hstands hlater =>
      have hfurther : further ≤ start := by
        apply Nat.le_of_not_lt
        intro hlt
        exact hnone start hresume hlt hstands.headerAt
      apply FunctionsFrom.next hfurther _ hstands hlater
      intro earlier hearlier
      exact hbefore earlier (Nat.le_trans hle hearlier)

theorem HeaderAt.lt_length {t : Text} {start : Nat} (h : HeaderAt t start) : start < t.length := by
  rcases h with ⟨before, header, rest, _, rfl, rfl, gap, word, space, tail, rfl, _⟩
  simp

theorem HeaderAt.append {t : Text} {start : Nat} (h : HeaderAt t start) (more : Text) :
    HeaderAt (t ++ more) start := by
  rcases h with ⟨before, header, rest, parameters, rfl, hstart, hheader⟩
  refine ⟨before, header, rest ++ more, parameters, ?_, hstart, hheader⟩
  rw [List.append_assoc, List.append_assoc]

theorem not_headerAt_feed (a b : Text) : ¬HeaderAt (a ++ '\n' :: b) a.length := by
  intro h
  rcases h with ⟨before, header, rest, _, ht, hstart, gap, word, space, tail, rfl, _⟩
  have hrest := (List.append_inj ht hstart.symm).2
  cases hrest

/-!
# Bodies at the join
-/

section Join

variable {a b : Text} (hb : ∃ x ∈ b.head?, Text.isBlank x = false)

include hb

theorem endsBody_join_iff {after : Text} : EndsBody (after ++ '\n' :: b) ↔ EndsBody after := by
  rcases hb with ⟨x, hx, hblank⟩
  cases after with
  | nil =>
      constructor
      · intro _
        exact Or.inl rfl
      · intro _
        cases b with
        | nil =>
            cases hx
        | cons y more =>
            cases hx
            exact Or.inr ⟨x, more, rfl, hblank⟩
  | cons y rest =>
      cases rest with
      | nil =>
          -- The first of two line feeds in a row is followed by a blank.
          have hfeed : Text.isBlank '\n' = true := by
            decide
          simp [EndsBody, hfeed]
      | cons z rest =>
          simp [EndsBody]

theorem isBody_join_iff {body after : Text} :
    IsBody body (after ++ '\n' :: b) ↔ IsBody body after := by
  constructor
  · intro h
    refine ⟨(endsBody_join_iff hb).mp h.ends, ?_⟩
    intro u v huv hv hends
    apply h.first u v huv hv
    rw [← List.append_assoc]
    exact (endsBody_join_iff hb).mpr hends
  · intro h
    refine ⟨(endsBody_join_iff hb).mpr h.ends, ?_⟩
    intro u v huv hv hends
    apply h.first u v huv hv
    rw [← List.append_assoc] at hends
    exact (endsBody_join_iff hb).mp hends

theorem IsBody.exists_append_of_join {body after rest : Text} (h : IsBody body after)
    (hsplit : rest ++ '\n' :: b = body ++ after) :
    ∃ between, rest = body ++ between ∧ after = between ++ '\n' :: b := by
  rcases Nat.le_total body.length rest.length with hle | hle
  · exact exists_append_of_length_le hsplit.symm hle
  · rcases exists_append_of_length_le hsplit hle with ⟨between, rfl, hbetween⟩
    cases between with
    | nil =>
        rw [List.nil_append] at hbetween
        exact ⟨[], by simp, hbetween.symm⟩
    | cons x more =>
        have hjoin : EndsBody ([] ++ '\n' :: b) :=
          (endsBody_join_iff hb).mpr (Or.inl rfl)
        rw [List.nil_append, hbetween] at hjoin
        exact absurd hjoin (h.first rest (x :: more) rfl (List.cons_ne_nil x more))

theorem StandsAt.of_join {function : FunctionText} {start : Nat}
    (h : function.StandsAt (a ++ '\n' :: b) start) (hfit : function.bodyPos ≤ a.length) :
    function.StandsAt a start ∧ function.bodyEnd ≤ a.length := by
  rcases h with ⟨before, header, after, ht, rfl, hheader, hpos, hbody⟩
  rw [← List.append_assoc] at ht
  have hfront : (before ++ header).length ≤ a.length := by
    rw [List.length_append]
    omega
  rcases exists_append_of_length_le ht.symm hfront with ⟨rest, rfl, hrest⟩
  rcases hbody.exists_append_of_join hb hrest.symm with ⟨between, rfl, rfl⟩
  constructor
  · refine ⟨before, header, between, List.append_assoc _ _ _, rfl, hheader, hpos, ?_⟩
    exact (isBody_join_iff hb).mp hbody
  · unfold bodyEnd
    simp only [List.length_append] at hpos ⊢
    omega

end Join

/-!
# Functions at the join
-/

section Join

variable {a b : Text}

theorem functions_of_join {resume : Nat} {functions : List FunctionText}
    (h : FunctionsFrom (a ++ '\n' :: b) resume functions) (hresume : resume ≤ a.length)
    (hnone : ∀ start, resume ≤ start → start < a.length → ¬HeaderAt (a ++ '\n' :: b) start) :
    FunctionsFrom a resume [] ∧ functions = (functionsIn b).map (behind (a.length + 1)) := by
  constructor
  · apply FunctionsFrom.done
    intro start hstart hheader
    exact hnone start hstart hheader.lt_length (hheader.append _)
  · have hsecond := (functionsFrom_iff.mpr (Eq.refl (functionsIn b))).behind (a ++ ['\n'])
    rw [List.append_assoc, List.length_append, List.length_singleton] at hsecond
    apply (h.skip (Nat.le_succ_of_le hresume) _).unique hsecond
    intro start hstart hlt hheader
    rcases Nat.lt_or_eq_of_le (Nat.le_of_lt_succ hlt) with hbefore | rfl
    · exact hnone start hstart hbefore hheader
    · exact not_headerAt_feed a b hheader

/-- From a place of the first text on, the whole has the functions that the first text has from
there on, and then those of the second. -/
theorem functionsFrom_join (hb : ∃ x ∈ b.head?, Text.isBlank x = false) {resume : Nat}
    {placed : List (Nat × FunctionText)}
    (h : readPlaced.ScansFrom (Cursor.all (a ++ '\n' :: b)) resume placed)
    (hfit : ∀ found ∈ placed, found.1 < a.length → found.2.bodyPos ≤ a.length)
    (hresume : resume ≤ a.length) :
    ∃ functions, FunctionsFrom a resume functions ∧
      placed.map Prod.snd = functions ++ (functionsIn b).map (behind (a.length + 1)) := by
  have hlast := functionsFrom_of_scansPlaced h
  induction h with
  | done hread =>
      refine ⟨[], functions_of_join hlast hresume ?_⟩
      intro start hstart _ hheader
      rcases headerAt_iff_exists.mp hheader with ⟨c, hc, rfl, hsome⟩
      exact hsome (Option.map_eq_none_iff.mp (hread c hc hstart))
  | @next resume c d found later hc hle hbefore hread hlater ih =>
      have hearlier : ∀ start, resume ≤ start → start < c.pos →
          ¬HeaderAt (a ++ '\n' :: b) start := by
        intro start hstart hlt hheader
        rcases headerAt_iff_exists.mp hheader with ⟨e, he, rfl, hsome⟩
        exact hsome (Option.map_eq_none_iff.mp (hbefore e he hstart hlt))
      rcases Option.map_eq_some_iff.mp hread with ⟨⟨passed, function⟩, hfunction, heq⟩
      cases heq
      -- Either this header begins in the first text and fits, or the scan has left the first text.
      rcases Nat.lt_or_ge c.pos a.length with hin | hout
      · rcases Cursor.mem_all.mp hc with ⟨before, rest, ht, rfl⟩
        have hstands : function.StandsAt (a ++ '\n' :: b) before.length := by
          rw [ht]
          exact standsAt_iff.mpr ⟨passed, hfunction⟩
        have hend : passed.pos = function.bodyEnd := (bodyPos_le_of_read hfunction).2
        rcases hstands.of_join hb (hfit _ List.mem_cons_self hin) with ⟨hfirst, hinside⟩
        rw [← hend] at hinside
        rcases ih (fun other hother => hfit other (List.mem_cons_of_mem _ hother)) hinside
          (functionsFrom_of_scansPlaced hlater) with ⟨functions, hfunctions, hall⟩
        refine ⟨function :: functions, ?_, ?_⟩
        · apply FunctionsFrom.next hle _ hfirst (hend ▸ hfunctions)
          intro start hstart hlt hheader
          exact hearlier start hstart hlt (hheader.append _)
        · rw [List.map_cons, hall, List.cons_append]
      · refine ⟨[], functions_of_join hlast hresume ?_⟩
        intro start hstart hlt
        exact hearlier start hstart (Nat.lt_of_lt_of_le hlt hout)

theorem functionsIn_join (hb : ∃ x ∈ b.head?, Text.isBlank x = false)
    (hfit : HeadersFit (a ++ '\n' :: b) a.length) :
    functionsIn (a ++ '\n' :: b) =
      functionsIn a ++ (functionsIn b).map (behind (a.length + 1)) := by
  have hscan := Reader.scansFrom_scan (isForward_readPlaced (a ++ '\n' :: b))
  rcases functionsFrom_join hb hscan hfit (Nat.zero_le a.length) with
    ⟨functions, hfunctions, hall⟩
  rw [← map_placedIn, ← functionsFrom_iff.mp hfunctions]
  exact hall

end Join
end FunctionText

/-!
# Unknown names at the join
-/

open Names

def NameUse.behind (length : Nat) (used : NameUse) : NameUse :=
  { used with pos := length + used.pos }

theorem unknownUsesIn_behind (allowList : AllowList) (length : Nat) (function : FunctionText) :
    unknownUsesIn allowList (function.behind length) =
      (unknownUsesIn allowList function).map (NameUse.behind length) := by
  unfold unknownUsesIn
  rw [List.map_map]
  apply List.map_congr_left
  intro used _
  show (⟨length + function.bodyPos + used.pos, used.name⟩ : NameUse) = _
  rw [Nat.add_assoc]
  rfl

theorem unknownUses_join (allowList : AllowList) {a b : Text}
    (hb : ∃ x ∈ b.head?, Text.isBlank x = false)
    (hfit : FunctionText.HeadersFit (a ++ '\n' :: b) a.length) :
    unknownUses allowList (a ++ '\n' :: b) =
      unknownUses allowList a ++ (unknownUses allowList b).map (NameUse.behind (a.length + 1)) := by
  unfold unknownUses
  rw [FunctionText.functionsIn_join hb hfit, List.flatMap_append, List.flatMap_map,
    List.map_flatMap]
  congr 2
  funext function
  exact unknownUsesIn_behind allowList (a.length + 1) function

/-- The findings about names of two texts joined by a line feed are those of each alone, if the
second begins with a character other than a blank and no header reaches from the first into it. -/
theorem nameFindings_join (allowList : AllowList) {a b : Text}
    (hb : ∃ x ∈ b.head?, Text.isBlank x = false)
    (hfit : FunctionText.HeadersFit (a ++ '\n' :: b) a.length) :
    nameFindings allowList (a ++ '\n' :: b) =
      nameFindings allowList a ++ nameFindings allowList b := by
  unfold nameFindings
  rw [unknownUses_join allowList hb hfit, List.map_append, List.map_map]
  rfl

theorem nameFindings_join_two_functions :
    nameFindings .compat ("def f():\n  x".toList ++ '\n' :: "def g(y):\n  y + z\n".toList) =
      nameFindings .compat "def f():\n  x".toList ++
        nameFindings .compat "def g(y):\n  y + z\n".toList :=
  nameFindings_join .compat ⟨'d', by decide, by decide⟩ (by decide +kernel)

end SourceAudit
