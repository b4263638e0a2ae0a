import SourceAudit.Names.Function
import SourceAudit.Proofs.Pattern.Scan
import SourceAudit.Proofs.Text.Words

/-!
# Bodies of functions

## Headers, bodies and the functions of a text

A header is described by its parts, and a body by where it may end.  At one place there is at most
one header, because a blank is no character of a word.

The functions of a text are then determined from left to right: each is the one with the leftmost
header behind the body of the one before.  The scan finds exactly these functions.
-/

namespace SourceAudit

namespace FunctionText

open Pattern

/-!
# Headers
-/

/-- Whether a text is a header with some parameters: `def`, blanks, a word, blanks or none, the
parameters in parentheses, and all up to the next colon on the line. -/
def IsHeader (header parameters : Text) : Prop :=
  ∃ gap word space tail,
    header = "def".toList ++ (gap ++ (word ++ (space ++ ['(']))) ++ (parameters ++
      ')' :: (tail ++ [':'])) ∧
    gap ≠ [] ∧ (∀ x ∈ gap, Text.isBlank x = true) ∧
    word ≠ [] ∧ (∀ x ∈ word, Text.isWord x = true) ∧
    (∀ x ∈ space, Text.isBlank x = true) ∧
    (∀ x ∈ parameters, x ≠ ')') ∧ ∀ x ∈ tail, x ≠ ':' ∧ x ≠ '\n'

theorem isSingle_headerStart : headerStart.IsSingle := by
  apply isSingle_sequence
  intro p hp
  simp only [List.mem_cons, List.not_mem_nil, or_false] at hp
  rcases hp with rfl | rfl | rfl | rfl | rfl
  · exact isSingle_literal "def"
  · exact isSingle_several Text.isBlank
  · exact isSingle_several Text.isWord
  · exact isSingle_whole Text.isBlank
  · exact isSingle_char _

theorem isSingle_headerEnd : headerEnd.IsSingle :=
  (isSingle_char _).seq ((isSingle_whole _).seq (isSingle_char _))

theorem spans_headerStart {before piece after : Text} :
    headerStart.Spans before piece after ↔
      ∃ gap word space, piece = "def".toList ++ (gap ++ (word ++ (space ++ ['(']))) ∧
        gap ≠ [] ∧ (∀ x ∈ gap, Text.isBlank x = true) ∧
        word ≠ [] ∧ (∀ x ∈ word, Text.isWord x = true) ∧
        ∀ x ∈ space, Text.isBlank x = true := by
  show (seq (literal "def") (seq someBlanks (seq (several Text.isWord)
    (seq blanks (seq (exactly '(') nothing))))).Spans before piece after ↔ _
  simp only [spans_seq, spans_literal, someBlanks, blanks, spans_several, spans_whole,
    spans_exactly, spans_nothing]
  constructor
  · intro h
    rcases h with ⟨_, _, rfl, rfl, gap, _, rfl, ⟨hgap, hgapAll, _⟩, word, _, rfl,
      ⟨hword, hwordAll, _⟩, space, _, rfl, ⟨hspace, _⟩, _, _, rfl, rfl, rfl⟩
    exact ⟨gap, word, space, rfl, hgap, hgapAll, hword, hwordAll, hspace⟩
  · intro h
    rcases h with ⟨gap, word, space, rfl, hgap, hgapAll, hword, hwordAll, hspace⟩
    -- Each part ends where it must, since no blank is a character of a word.
    refine ⟨_, _, rfl, rfl, gap, _, rfl, ⟨hgap, hgapAll, ?_⟩, word, _, rfl,
      ⟨hword, hwordAll, ?_⟩, space, _, rfl, ⟨hspace, ?_⟩, ['('], [], rfl, rfl, rfl⟩
    · intro x hx
      cases word with
      | nil =>
          exact absurd rfl hword
      | cons y rest =>
          cases hx
          exact Text.isBlank_eq_false_of_isWord (hwordAll _ List.mem_cons_self)
    · intro x hx
      cases space with
      | nil =>
          cases hx
          decide
      | cons y rest =>
          cases hx
          exact Text.isWord_eq_false_of_isBlank (hspace _ List.mem_cons_self)
    · intro x hx
      cases hx
      decide

theorem spans_headerEnd {before piece after : Text} :
    headerEnd.Spans before piece after ↔
      ∃ tail, piece = ')' :: (tail ++ [':']) ∧ ∀ x ∈ tail, x ≠ ':' ∧ x ≠ '\n' := by
  unfold headerEnd throughColon
  simp only [spans_seq, spans_exactly, spans_whole]
  constructor
  · intro h
    rcases h with ⟨_, _, rfl, rfl, tail, _, rfl, ⟨htail, _⟩, rfl⟩
    refine ⟨tail, rfl, ?_⟩
    intro x hx
    simpa using htail x hx
  · intro h
    rcases h with ⟨tail, rfl, htail⟩
    refine ⟨[')'], tail ++ [':'], rfl, rfl, tail, [':'], rfl, ⟨?_, ?_⟩, rfl⟩
    · intro x hx
      simpa using htail x hx
    · intro x hx
      cases hx
      decide

theorem spans_parameterText {before piece after : Text} :
    parameterText.Spans before piece after ↔
      (∀ x ∈ piece, x ≠ ')') ∧ ∀ x ∈ after.head?, x = ')' := by
  unfold parameterText
  rw [spans_whole]
  simp

theorem IsHeader.getLast? {header parameters : Text} (h : IsHeader header parameters) :
    header.getLast? = some ':' := by
  rcases h with ⟨gap, word, space, tail, hheader, _⟩
  have hshape : header =
      "def".toList ++ (gap ++ (word ++ (space ++ ['(']))) ++ (parameters ++ ')' :: tail) ++
        [':'] := by
    rw [hheader]
    simp
  rw [hshape, List.getLast?_concat]

/-!
# Bodies
-/

/-- Whether a body may end in front of a text: at its end, or before a line that is not indented. -/
def EndsBody (after : Text) : Prop :=
  after = [] ∨ ∃ x later, after = '\n' :: x :: later ∧ Text.isBlank x = false

/-- Whether a body that is followed by a text ends there, and might not end earlier. -/
structure IsBody (body after : Text) : Prop where
  ends : EndsBody after
  first : ∀ u v, body = u ++ v → v ≠ [] → ¬EndsBody (v ++ after)

theorem atBodyEnd_between {before after : Text} :
    atBodyEnd (Cursor.between before after) = true ↔ EndsBody after := by
  unfold atBodyEnd EndsBody
  rw [Cursor.between_rest]
  split
  · simp
  · simp
  · rename_i hnil hfeed
    constructor
    · intro h
      cases h
    · intro h
      rcases h with h | ⟨x, later, h, _⟩
      · exact absurd h hnil
      · exact absurd h (hfeed x later)

theorem EndsBody.isWord_head? {after : Text} (h : EndsBody after) :
    ∀ x ∈ after.head?, Text.isWord x = false := by
  intro x hx
  rcases h with rfl | ⟨y, later, rfl, _⟩
  · cases hx
  · cases hx
    decide

theorem exists_isBody (rest : Text) : ∃ body after, rest = body ++ after ∧ IsBody body after := by
  have hempty : ∀ after, EndsBody after → IsBody [] after := by
    intro after hends
    refine ⟨hends, ?_⟩
    intro u v huv hv
    exact absurd (List.append_eq_nil_iff.mp huv.symm).2 hv
  induction rest with
  | nil =>
      exact ⟨[], [], rfl, hempty [] (Or.inl rfl)⟩
  | cons x rest ih =>
      by_cases hends : EndsBody (x :: rest)
      · exact ⟨[], x :: rest, rfl, hempty _ hends⟩
      · rcases ih with ⟨body, after, rfl, hbody⟩
        refine ⟨x :: body, after, rfl, hbody.ends, ?_⟩
        intro u v huv hv
        cases u with
        | nil =>
            rw [← show x :: body = v from huv]
            exact hends
        | cons y u =>
            exact hbody.first u v (List.cons.inj huv).2 hv

theorem run_bodyText_eq_some_iff {before rest : Text} {α : Type} {value : Cursor → α}
    {result : α} :
    bodyText.run (Cursor.between before rest) (fun c => some (value c)) = some result ↔
      ∃ body after, rest = body ++ after ∧ IsBody body after ∧
        value (Cursor.between (before ++ body) after) = result := by
  show (few _).run _ (fun c => if atBodyEnd c then some (value c) else none) = _ ↔ _
  rw [run_few_eq_some_iff]
  unfold ReachesFirst
  dsimp only
  constructor
  · intro h
    rcases h with ⟨body, after, hrest, _, hvalue, hfirst⟩
    split at hvalue
    · rename_i hends
      refine ⟨body, after, hrest, ⟨atBodyEnd_between.mp hends, ?_⟩, Option.some.inj hvalue⟩
      intro u v huv hv hends
      have hnone := hfirst u v huv hv
      rw [if_pos (atBodyEnd_between.mpr hends)] at hnone
      cases hnone
    · cases hvalue
  · intro h
    rcases h with ⟨body, after, hrest, hbody, hvalue⟩
    refine ⟨body, after, hrest, fun _ _ => rfl, ?_, ?_⟩
    · rw [if_pos (atBodyEnd_between.mpr hbody.ends), hvalue]
    · intro u v huv hv
      rw [if_neg]
      intro hends
      exact hbody.first u v huv hv (atBodyEnd_between.mp hends)

/-!
# Reading a function
-/

/-- Reading a function at a place finds its header there and its body behind the header. -/
theorem read_eq_some_iff {before rest : Text} {d : Cursor} {function : FunctionText} :
    read (Cursor.between before rest) = some (d, function) ↔
      ∃ header after, rest = header ++ (function.body ++ after) ∧
        IsHeader header function.parameters ∧ IsBody function.body after ∧
        function.bodyPos = (before ++ header).length ∧
        d = Cursor.between (before ++ header ++ function.body) after := by
  unfold read
  simp only [isSingle_headerStart.run_eq_some_iff, spans_headerStart]
  constructor
  · intro h
    rcases h with ⟨opening, inside, rfl, ⟨gap, word, space, hopening, hgap, hgapAll, hword,
      hwordAll, hspace⟩, h⟩
    rcases (isSingle_whole _).run_eq_some_iff.mp h with ⟨parameters, behind, rfl, hparameters, h⟩
    rcases isSingle_headerEnd.run_eq_some_iff.mp h with ⟨ending, body, rfl, hending, h⟩
    rcases run_bodyText_eq_some_iff.mp h with ⟨body, after, rfl, hbody, hvalue⟩
    rcases spans_headerEnd.mp hending with ⟨tail, rfl, htail⟩
    cases hvalue
    rw [Cursor.upTo_between, Cursor.upTo_between]
    refine ⟨opening ++ (parameters ++ ')' :: (tail ++ [':'])), after, by simp, ?_, hbody, ?_, ?_⟩
    · exact ⟨gap, word, space, tail, by rw [hopening], hgap, hgapAll, hword, hwordAll, hspace,
        (spans_parameterText.mp hparameters).1, htail⟩
    · simp
    · simp
  · intro h
    rcases function with ⟨parameters, bodyPos, body⟩
    rcases h with ⟨header, after, rfl, ⟨gap, word, space, tail, hheader, hgap, hgapAll, hword,
      hwordAll, hspace, hparameters, htail⟩, hbody, hpos, rfl⟩
    refine ⟨_, parameters ++ (')' :: (tail ++ [':']) ++ (body ++ after)), ?_,
      ⟨gap, word, space, rfl, hgap, hgapAll, hword, hwordAll, hspace⟩, ?_⟩
    · rw [hheader]
      simp
    · apply (isSingle_whole _).run_eq_some_iff.mpr
      refine ⟨parameters, _, rfl, spans_parameterText.mpr ⟨hparameters, ?_⟩, ?_⟩
      · intro x hx
        cases hx
        rfl
      · apply isSingle_headerEnd.run_eq_some_iff.mpr
        refine ⟨_, _, rfl, spans_headerEnd.mpr ⟨tail, rfl, htail⟩, ?_⟩
        apply run_bodyText_eq_some_iff.mpr
        refine ⟨body, after, rfl, hbody, ?_⟩
        rw [Cursor.upTo_between, Cursor.upTo_between, hheader]
        have hpos' : bodyPos = _ := hpos
        rw [hpos', hheader]
        simp

theorem bodyPos_le_of_read {before rest : Text} {d : Cursor} {function : FunctionText}
    (h : read (Cursor.between before rest) = some (d, function)) :
    before.length < function.bodyPos ∧ d.pos = function.bodyPos + function.body.length := by
  rcases read_eq_some_iff.mp h with ⟨header, after, _, ⟨gap, word, space, tail, hheader, _⟩, _,
    hpos, rfl⟩
  rw [hpos]
  constructor
  · rw [hheader]
    simp
  · simp [Nat.add_assoc]

/-!
# The functions of a text
-/

def bodyEnd (function : FunctionText) : Nat :=
  function.bodyPos + function.body.length

def HeaderAt (t : Text) (start : Nat) : Prop :=
  ∃ before header rest parameters, t = before ++ (header ++ rest) ∧ before.length = start ∧
    IsHeader header parameters

/-- Whether a function begins at a position of a text: its header there, its body behind. -/
def StandsAt (function : FunctionText) (t : Text) (start : Nat) : Prop :=
  ∃ before header after, t = before ++ (header ++ (function.body ++ after)) ∧
    before.length = start ∧ IsHeader header function.parameters ∧
    function.bodyPos = start + header.length ∧ IsBody function.body after

/-- Whether some functions are those of a text from a position on.  Each has the leftmost header
that begins behind the body of the one before. -/
inductive FunctionsFrom (t : Text) : Nat → List FunctionText → Prop where
  | done {resume : Nat} :
      (∀ start, resume ≤ start → ¬HeaderAt t start) → FunctionsFrom t resume []
  | next {resume start : Nat} {function : FunctionText} {later : List FunctionText} :
      resume ≤ start → (∀ earlier, resume ≤ earlier → earlier < start → ¬HeaderAt t earlier) →
      function.StandsAt t start → FunctionsFrom t function.bodyEnd later →
      FunctionsFrom t resume (function :: later)

theorem StandsAt.headerAt {function : FunctionText} {t : Text} {start : Nat}
    (h : function.StandsAt t start) : HeaderAt t start := by
  rcases h with ⟨before, header, after, ht, hstart, hheader, _, _⟩
  exact ⟨before, header, function.body ++ after, function.parameters, ht, hstart, hheader⟩

theorem standsAt_iff {before rest : Text} {function : FunctionText} :
    function.StandsAt (before ++ rest) before.length ↔
      ∃ d, read (Cursor.between before rest) = some (d, function) := by
  constructor
  · intro h
    rcases h with ⟨before', header, after, ht, hstart, hheader, hpos, hbody⟩
    rcases List.append_inj ht hstart.symm with ⟨rfl, rfl⟩
    refine ⟨_, read_eq_some_iff.mpr ⟨header, after, rfl, hheader, hbody, ?_, rfl⟩⟩
    rw [hpos, List.length_append]
  · intro h
    rcases h with ⟨d, hread⟩
    rcases read_eq_some_iff.mp hread with ⟨header, after, rfl, hheader, hbody, hpos, _⟩
    refine ⟨before, header, after, rfl, rfl, hheader, ?_, hbody⟩
    rw [hpos, List.length_append]

theorem headerAt_iff {before rest : Text} :
    HeaderAt (before ++ rest) before.length ↔ read (Cursor.between before rest) ≠ none := by
  constructor
  · intro h hnone
    rcases h with ⟨before', header, behind, parameters, ht, hstart, hheader⟩
    rcases List.append_inj ht hstart.symm with ⟨rfl, rfl⟩
    rcases exists_isBody behind with ⟨body, after, rfl, hbody⟩
    have hstands : StandsAt ⟨parameters, before.length + header.length, body⟩
        (before ++ (header ++ (body ++ after))) before.length :=
      ⟨before, header, after, rfl, rfl, hheader, rfl, hbody⟩
    rcases standsAt_iff.mp hstands with ⟨d, hread⟩
    rw [hnone] at hread
    cases hread
  · intro h
    rcases Option.ne_none_iff_exists'.mp h with ⟨⟨d, function⟩, hread⟩
    exact (standsAt_iff.mpr ⟨d, hread⟩).headerAt

theorem StandsAt.unique {function function' : FunctionText} {t : Text} {start : Nat}
    (h : function.StandsAt t start) (h' : function'.StandsAt t start) : function = function' := by
  have hshape := h
  rcases hshape with ⟨before, header, after, rfl, rfl, _⟩
  rcases standsAt_iff.mp h with ⟨d, hread⟩
  rcases standsAt_iff.mp h' with ⟨d', hread'⟩
  rw [hread] at hread'
  cases hread'
  rfl

theorem FunctionsFrom.unique {t : Text} {resume : Nat} {functions functions' : List FunctionText}
    (h : FunctionsFrom t resume functions) (h' : FunctionsFrom t resume functions') :
    functions = functions' := by
  induction h generalizing functions' with
  | done hnone =>
      cases h' with
      | done _ =>
          rfl
      | next hresume' _ hstands' _ =>
          exact absurd hstands'.headerAt (hnone _ hresume')
  | @next resume start function later hresume hbefore hstands _ ih =>
      cases h' with
      | done hnone' =>
          exact absurd hstands.headerAt (hnone' _ hresume)
      | @next _ start' function' later' hresume' hbefore' hstands' hlater' =>
          have hstart : start = start' := by
            rcases Nat.lt_trichotomy start start' with hlt | heq | hlt
            · exact absurd hstands.headerAt (hbefore' start hresume hlt)
            · exact heq
            · exact absurd hstands'.headerAt (hbefore start' hresume' hlt)
          rw [← hstart] at hstands'
          have hfunction := hstands.unique hstands'
          rw [← hfunction] at hlater'
          rw [hfunction, ih hlater']

theorem FunctionsFrom.pairwise {t : Text} {resume : Nat} {functions : List FunctionText}
    (h : FunctionsFrom t resume functions) :
    (∀ function ∈ functions, resume ≤ function.bodyPos) ∧
      functions.Pairwise fun first second => first.bodyEnd ≤ second.bodyPos := by
  induction h with
  | done _ =>
      exact ⟨by simp, List.Pairwise.nil⟩
  | @next resume start function later hresume _ hstands _ ih =>
      have hpos : start ≤ function.bodyPos := by
        rcases hstands with ⟨_, header, _, _, _, _, hpos, _⟩
        omega
      constructor
      · intro other hother
        rcases List.mem_cons.mp hother with rfl | hother
        · exact Nat.le_trans hresume hpos
        · have hend := ih.1 other hother
          unfold bodyEnd at hend
          omega
      · exact List.pairwise_cons.mpr ⟨ih.1, ih.2⟩

theorem FunctionsFrom.exists_standsAt {t : Text} {resume : Nat} {functions : List FunctionText}
    (h : FunctionsFrom t resume functions) {function : FunctionText}
    (hfunction : function ∈ functions) : ∃ start, function.StandsAt t start := by
  induction h with
  | done _ =>
      cases hfunction
  | next _ _ hstands _ ih =>
      rcases List.mem_cons.mp hfunction with rfl | hlater
      · exact ⟨_, hstands⟩
      · exact ih hlater

theorem isForward_read (t : Text) : read.IsForward (Cursor.all t) := by
  intro c hc d function h
  rcases Cursor.mem_all.mp hc with ⟨before, rest, _, rfl⟩
  have hpos := bodyPos_le_of_read h
  show before.length < d.pos
  omega

theorem headerAt_iff_exists {t : Text} {start : Nat} :
    HeaderAt t start ↔ ∃ c ∈ Cursor.all t, c.pos = start ∧ read c ≠ none := by
  constructor
  · intro h
    have hshape := h
    rcases hshape with ⟨before, header, rest, _, rfl, rfl, _⟩
    exact ⟨_, Cursor.mem_all.mpr ⟨before, header ++ rest, rfl, rfl⟩, rfl, headerAt_iff.mp h⟩
  · intro h
    rcases h with ⟨c, hc, rfl, hread⟩
    rcases Cursor.mem_all.mp hc with ⟨before, rest, rfl, rfl⟩
    exact headerAt_iff.mpr hread

theorem functionsFrom_of_scansFrom {t : Text} {resume : Nat} {functions : List FunctionText}
    (h : read.ScansFrom (Cursor.all t) resume functions) : FunctionsFrom t resume functions := by
  induction h with
  | done hread =>
      apply FunctionsFrom.done
      intro start hresume hheader
      rcases headerAt_iff_exists.mp hheader with ⟨c, hc, rfl, hsome⟩
      exact hsome (hread c hc hresume)
  | @next resume c d function later hc hresume hbefore hread _ ih =>
      rcases Cursor.mem_all.mp hc with ⟨before, rest, rfl, rfl⟩
      have hend : d.pos = function.bodyEnd := (bodyPos_le_of_read hread).2
      rw [hend] at ih
      apply FunctionsFrom.next hresume _ _ ih
      · intro earlier hle hlt hheader
        rcases headerAt_iff_exists.mp hheader with ⟨e, he, rfl, hsome⟩
        exact hsome (hbefore e he hle hlt)
      · exact standsAt_iff.mpr ⟨d, hread⟩

/-- The scan finds the functions of a text from left to right. -/
theorem functionsFrom_iff {t : Text} {functions : List FunctionText} :
    FunctionsFrom t 0 functions ↔ functions = functionsIn t := by
  have hscan : FunctionsFrom t 0 (functionsIn t) :=
    functionsFrom_of_scansFrom (Reader.scansFrom_scan (isForward_read t))
  constructor
  · intro h
    exact h.unique hscan
  · intro h
    rw [h]
    exact hscan

end FunctionText
end SourceAudit
