import Mathlib.Data.List.Pairwise
import SourceAudit.Proofs.Header.Nesting
import SourceAudit.Proofs.Names.Introduced
import SourceAudit.Proofs.Text.Lines

/-!
# Parameters in their own blocks

## Which function a block belongs to

A header on a line of its own has a block behind it: the lines that are indented deeper.  Every
header that stands in a text begins a function that is found, or it begins inside of one.  In both
cases the whole block lies in the body of that function, since no body ends within a block, and a
header inside of another header ends where that one ends.

So a parameter is not reported in the block of its own header if the header is found.  If the header
begins inside of another function, that function decides: its parameters and its assignments count,
and those of the header inside do not.
-/

namespace SourceAudit
namespace FunctionText

open Pattern Header Text

/-!
# Headers inside of headers
-/

theorem isWord_def : IsWord "def".toList := by
  decide

theorem IsHeader.begins {header parameters : Text} (h : IsHeader header parameters) (after : Text) :
    Begins "def".toList (header ++ after) := by
  rcases h with ⟨gap, word, space, tail, rfl, hgap, hgapBlank, hword, hwordAll, _⟩
  simp only [List.append_assoc]
  exact begins_of_isWord hgap hgapBlank ⟨hword, hwordAll⟩

theorem append_feed_ne {front indent before tail : Text} {sign : Char}
    (hindent : ∀ x ∈ indent, isIndent x = true) (hsign : isIndent sign = false)
    (htail : '\n' ∉ sign :: tail) : front ++ '\n' :: indent ≠ before ++ sign :: tail := by
  intro h
  rcases append_cases h with ⟨m, rfl, hm⟩ | ⟨x, m, rfl, hm⟩
  · cases m with
    | nil =>
        apply htail
        rw [← List.nil_append (sign :: tail), ← hm]
        exact List.mem_cons_self
    | cons y m =>
        have hmem := hindent sign (by rw [(List.cons.inj hm).2]; simp)
        rw [hsign] at hmem
        cases hmem
  · apply htail
    rw [hm]
    simp

theorem IsHeader.length_eq_of_closing {header parameters front tail after behind : Text}
    (h : IsHeader header parameters) (hfront : ∀ x ∈ front, x ≠ ')') (htail : ∀ x ∈ tail, x ≠ ':')
    (hsplit : header ++ after = front ++ ')' :: (tail ++ ':' :: behind)) :
    header.length = front.length + (tail.length + 2) := by
  rcases h with ⟨gap, word, space, last, rfl, _, hgap, hword, hwordAll, hspace, hparameters, hlast⟩
  have hsame : "def".toList ++ (gap ++ (word ++ space)) ++ '(' :: parameters ++
      ')' :: (last ++ ':' :: after) = front ++ ')' :: (tail ++ ':' :: behind) := by
    rw [← hsplit]
    simp
  have hopening := ne_closing_of_mem_start isWord_def hgap ⟨hword, hwordAll⟩ hspace hparameters
  rcases append_sign_inj hsame hopening hfront with ⟨hfrontEq, hback⟩
  rcases append_sign_inj hback (fun x hx => (hlast x hx).1) htail with ⟨rfl, _⟩
  rw [← hfrontEq]
  simp only [List.length_append, List.length_cons, List.length_nil]
  omega

theorem IsHeader.length_eq_of_inside
    {outer outerParameters header parameters left front indent after after' : Text}
    (houter : IsHeader outer outerParameters) (hheader : IsHeader header parameters)
    (hsplit : outer ++ after = left ++ (header ++ after')) (hline : left = front ++ '\n' :: indent)
    (hindent : ∀ x ∈ indent, isIndent x = true) (hinside : left.length < outer.length) :
    (left ++ header).length = outer.length := by
  have hbegins := hheader.begins after'
  have hleftNil : left ≠ [] := by
    rw [hline]
    simp
  rcases houter with ⟨gap, word, space, tail, rfl, hgap, hgapBlank, hword, hwordAll, hspace,
    hparameters, htail⟩
  simp only [List.append_assoc, List.cons_append, List.nil_append] at hsplit
  rcases exists_behind_sign isWord_def hgap hgapBlank ⟨hword, hwordAll⟩ hspace (by decide) (by decide)
    hsplit hleftNil hbegins with ⟨behind, rfl, hrest⟩
  rcases append_cases hrest with ⟨m, rfl, hm⟩ | ⟨x, m, rfl, hm⟩
  · -- Behind the parentheses, no line begins in the outer header.
    exfalso
    cases m with
    | nil =>
        have hclosing : header ++ after' = ')' :: (tail ++ ':' :: after) := hm.symm
        have hfirst := hbegins.isWord_head? isWord_def ')' (by rw [hclosing]; rfl)
        revert hfirst
        decide
    | cons y m =>
        rcases List.cons.inj hm with ⟨rfl, htailSplit⟩
        have hlength : m.length ≤ tail.length := by
          simp only [List.length_append, List.length_cons, List.length_nil] at hinside
          omega
        rcases exists_append_of_length_le (show m ++ (header ++ after') = tail ++ ':' :: after from
          htailSplit.symm) hlength with ⟨between, rfl, _⟩
        have hlast : front ++ '\n' :: indent =
            "def".toList ++ (gap ++ (word ++ (space ++ '(' :: outerParameters))) ++ ')' :: m := by
          rw [← hline]
          simp
        refine append_feed_ne hindent (by decide) ?_ hlast
        intro hmem
        rcases List.mem_cons.mp hmem with heq | hmem
        · cases heq
        · exact (htail '\n' (List.mem_append_left between hmem)).2 rfl
  · -- In the parentheses, both headers have the same closing parenthesis and colon.
    have hlength := hheader.length_eq_of_closing
      (fun y hy => hparameters y (List.mem_append_right behind hy)) (fun y hy => (htail y hy).1) hm
    simp only [List.length_append, List.length_cons, List.length_nil] at hlength ⊢
    omega

/-!
# The function that holds a place
-/

/-- Every header begins a function that is found, or it begins inside of one. -/
theorem FunctionsFrom.exists_covering {t : Text} {resume start : Nat}
    {functions : List FunctionText} (h : FunctionsFrom t resume functions)
    (hheader : HeaderAt t start) (hresume : resume ≤ start) :
    ∃ function ∈ functions, ∃ first, function.StandsAt t first ∧ first ≤ start ∧
      start < function.bodyEnd := by
  induction h with
  | done hnone =>
      exact absurd hheader (hnone start hresume)
  | @next resume first function later _ hbefore hstands _ ih =>
      rcases Nat.lt_or_ge start first with hlt | hle
      · exact absurd hheader (hbefore start hresume hlt)
      · rcases Nat.lt_or_ge start function.bodyEnd with hinside | hbehind
        · exact ⟨function, List.mem_cons_self, first, hstands, hle, hinside⟩
        · rcases ih hbehind with ⟨other, hother, hrest⟩
          exact ⟨other, List.mem_cons_of_mem function hother, hrest⟩

def Apart (function other : FunctionText) : Prop :=
  function.bodyEnd ≤ other.bodyPos ∨ other.bodyEnd ≤ function.bodyPos

instance : Std.Symm Apart :=
  ⟨fun _ _ => Or.symm⟩

theorem FunctionsFrom.eq_of_body {t : Text} {resume pos : Nat} {functions : List FunctionText}
    (h : FunctionsFrom t resume functions) {function function' : FunctionText}
    (hmem : function ∈ functions) (hmem' : function' ∈ functions)
    (hlow : function.bodyPos ≤ pos) (hhigh : pos < function.bodyEnd)
    (hlow' : function'.bodyPos ≤ pos) (hhigh' : pos < function'.bodyEnd) :
    function = function' := by
  have hpairwise : functions.Pairwise Apart := h.pairwise.2.imp Or.inl
  by_contra hne
  rcases hpairwise.forall hmem hmem' hne with hapart | hapart
  · omega
  · omega

/-!
# Headers on lines of their own
-/

/-- Whether a line belongs to a block: it holds only spaces and tabs, or is indented deeper than the
line before the block. -/
def IsDeeper (indent row : Text) : Prop :=
  (∀ x ∈ row, isIndent x = true) ∨ indent.length < (row.takeWhile isIndent).length

theorem isDeeper_iff_all {indent row : Text} :
    IsDeeper indent row ↔
      row.all isIndent = true ∨ indent.length < (row.takeWhile isIndent).length := by
  unfold IsDeeper
  rw [List.all_eq_true]

instance (indent row : Text) : Decidable (IsDeeper indent row) :=
  decidable_of_iff _ isDeeper_iff_all.symm

/-- A header on a line of its own, and the lines that are indented deeper behind it. -/
structure HeaderLine (t : Text) where
  rows : List Text
  indent : Text
  header : Text
  parameters : Text
  trail : Text
  block : List Text
  others : List Text
  lines_eq : t.lines = rows ++ (indent ++ (header ++ trail)) :: (block ++ others)
  isHeader : IsHeader header parameters
  isIndent_indent : ∀ x ∈ indent, isIndent x = true
  isIndent_trail : ∀ x ∈ trail, isIndent x = true
  isDeeper : ∀ row ∈ block, IsDeeper indent row

theorem IsDeeper.isBlank_head? {indent row : Text} (h : IsDeeper indent row) :
    ∀ x ∈ row.head?, isBlank x = true := by
  intro x hx
  apply isBlank_of_isIndent
  rcases h with h | h
  · exact h x (List.mem_of_mem_head? hx)
  · cases row with
    | nil =>
        cases hx
    | cons y more =>
        cases hx
        by_contra hindent
        rw [List.takeWhile_cons, if_neg hindent] at h
        exact absurd h (Nat.not_lt_zero _)

namespace HeaderLine

variable {t : Text} (line : HeaderLine t)

def before : Text :=
  endLines line.rows ++ line.indent

def blockText : Text :=
  line.trail ++ startLines line.block

def start : Nat :=
  line.before.length

def bodyPos : Nat :=
  line.start + line.header.length

def blockEnd : Nat :=
  line.bodyPos + line.blockText.length

theorem eq_append : t = line.before ++ (line.header ++ (line.blockText ++
    startLines line.others)) := by
  rcases exists_of_lines_eq_append line.lines_eq (List.cons_ne_nil _ _) with ⟨rest, ht, hrest⟩
  rw [eq_append_startLines hrest, startLines_append] at ht
  refine ht.trans ?_
  simp [before, blockText]

theorem headerAt : HeaderAt t line.start :=
  ⟨line.before, line.header, _, line.parameters, line.eq_append, rfl, line.isHeader⟩

theorem exists_standsAt : ∃ function : FunctionText, function.StandsAt t line.start ∧
    function.parameters = line.parameters ∧ function.bodyPos = line.bodyPos := by
  rcases exists_isBody (line.blockText ++ startLines line.others) with ⟨body, after, hrest, hbody⟩
  refine ⟨⟨line.parameters, line.bodyPos, body⟩, ?_, rfl, rfl⟩
  refine ⟨line.before, line.header, after, ?_, rfl, line.isHeader, rfl, hbody⟩
  rw [← hrest]
  exact line.eq_append

theorem not_mem_line : '\n' ∉ line.indent ++ (line.header ++ line.trail) := by
  apply not_mem_of_mem_lines (t := t)
  rw [line.lines_eq]
  simp

/-!
# Bodies and blocks
-/

theorem not_endsBody {before after : Text}
    (hsplit : line.header ++ line.blockText = before ++ after) (hafter : after ≠ []) :
    ¬EndsBody (after ++ startLines line.others) := by
  intro hends
  rcases hends with hnil | ⟨x, later, hfeed, hx⟩
  · exact hafter (List.append_eq_nil_iff.mp hnil).1
  · cases after with
    | nil =>
        exact hafter rfl
    | cons y rest =>
        rcases List.cons.inj hfeed with ⟨rfl, htail⟩
        have hrest : rest ++ startLines line.others = x :: later := htail
        unfold blockText at hsplit
        rw [← List.append_assoc] at hsplit
        rcases append_cases hsplit with ⟨m, _, hblock⟩ | ⟨y, m, hline, hy⟩
        · -- A line of the block follows, or the next line feed.
          have hrows : ∀ row ∈ line.block, '\n' ∉ row := by
            intro row hrow
            apply not_mem_of_mem_lines (t := t)
            rw [line.lines_eq]
            simp [hrow]
          rcases exists_of_startLines_eq hrows hblock with ⟨row, hrow, more, rfl⟩
          rw [List.append_assoc, ← startLines_append] at hrest
          have hblank : isBlank x = true := by
            cases row with
            | nil =>
                have hfirst := forall_mem_head?_startLines (more ++ line.others) x
                  (by rw [show startLines (more ++ line.others) = x :: later from hrest]; rfl)
                rw [hfirst]
                decide
            | cons z row =>
                exact (line.isDeeper _ hrow).isBlank_head? x
                  (by rw [(List.cons.inj hrest).1]; rfl)
          rw [hblank] at hx
          cases hx
        · apply line.not_mem_line
          rw [hline, ← (List.cons.inj hy).1]
          simp

theorem blockEnd_le {function : FunctionText} {first : Nat} (h : function.StandsAt t first)
    (hinside : line.start < function.bodyEnd) : line.blockEnd ≤ function.bodyEnd := by
  rcases h with ⟨front, header, after, ht, rfl, _, hpos, hbody⟩
  have hend : function.bodyEnd = (front ++ (header ++ function.body)).length := by
    unfold bodyEnd
    rw [hpos]
    simp only [List.length_append]
    omega
  have hsplit : line.before ++ (line.header ++ (line.blockText ++ startLines line.others)) =
      front ++ (header ++ function.body) ++ after := by
    rw [← line.eq_append, ht]
    simp
  have hstart : line.before.length ≤ (front ++ (header ++ function.body)).length := by
    rw [← hend]
    exact Nat.le_of_lt hinside
  rcases exists_append_of_length_le hsplit hstart with ⟨passed, hpassed, hrest⟩
  rw [← List.append_assoc] at hrest
  rcases append_cases hrest with ⟨m, hm, _⟩ | ⟨x, m, hm, rfl⟩
  · rw [hend, hpassed, hm]
    unfold blockEnd bodyPos start
    simp only [List.length_append]
    omega
  · exact absurd hbody.ends (line.not_endsBody hm (List.cons_ne_nil x m))

theorem exists_feed {front left : Text} (h : line.before = front ++ left) {x : Char}
    (hx : x ∈ left.head?) (hindent : isIndent x = false) :
    ∃ inner, left = inner ++ '\n' :: line.indent := by
  unfold before at h
  rcases append_cases h with ⟨m, rfl, hm⟩ | ⟨y, m, hrows, rfl⟩
  · have hmem := line.isIndent_indent x
      (by rw [hm]; exact List.mem_append_right m (List.mem_of_mem_head? hx))
    rw [hindent] at hmem
    cases hmem
  · rcases List.eq_nil_or_concat (y :: m) with hnil | ⟨inner, last, hlast⟩
    · cases hnil
    · rw [List.concat_eq_append] at hlast
      have hfeed := forall_mem_getLast?_endLines line.rows last
        (by rw [hrows, hlast, ← List.append_assoc]; exact List.getLast?_concat)
      rw [hlast, hfeed]
      exact ⟨inner, List.append_assoc inner ['\n'] line.indent⟩

theorem bodyPos_eq_of_inside {function : FunctionText} {first : Nat}
    (h : function.StandsAt t first) (hfirst : first < line.start)
    (hinside : line.start < function.bodyPos) : function.bodyPos = line.bodyPos := by
  rcases h with ⟨front, header, after, ht, rfl, hheader, hpos, _⟩
  rcases exists_append_of_length_lt (ht.symm.trans line.eq_append) hfirst with
    ⟨left, hne, hleft, hsplit⟩
  have hlength := congrArg List.length hleft
  rw [List.length_append] at hlength
  have hd : 'd' ∈ left.head? := by
    rcases hheader with ⟨gap, word, space, tail, rfl, _⟩
    cases left with
    | nil =>
        exact absurd rfl hne
    | cons x more =>
        rw [← (List.cons.inj hsplit).1]
        rfl
  rcases line.exists_feed hleft hd (by decide) with ⟨inner, hline⟩
  have hinner : left.length < header.length := by
    unfold start at hinside
    omega
  have hend := hheader.length_eq_of_inside line.isHeader hsplit hline line.isIndent_indent hinner
  rw [List.length_append] at hend
  unfold bodyPos start
  omega

theorem bodyPos_le {function : FunctionText} {first : Nat} (h : function.StandsAt t first)
    (hfirst : first ≤ line.start) : function.bodyPos ≤ line.bodyPos := by
  rcases Nat.lt_or_eq_of_le hfirst with hlt | rfl
  · rcases Nat.lt_or_ge line.start function.bodyPos with hinside | hbehind
    · exact Nat.le_of_eq (line.bodyPos_eq_of_inside h hlt hinside)
    · exact Nat.le_trans hbehind (Nat.le_add_right _ _)
  · rcases line.exists_standsAt with ⟨own, hown, _, hpos⟩
    exact Nat.le_of_eq (by rw [h.unique hown, hpos])

end HeaderLine
end FunctionText

/-!
# Unknown names in blocks
-/

open FunctionText Names

theorem mem_localNames_of_parameter {allowList : AllowList} {parameters body parameter name : Text}
    (h : parameter ∈ parameters.cutAt ',') (hnamed : IsNamed parameter name) :
    name ∈ localNames allowList parameters body := by
  have hname : name ∈ parameterNames parameters :=
    mem_parameterNames_iff.mpr ⟨parameter, h, hnamed⟩
  unfold localNames
  exact List.mem_append_left _ (List.mem_append_left _ hname)

/-- In the block of its own header, a parameter is unknown exactly when the header begins inside of
a function found before, and that one does not introduce the name. -/
theorem mem_unknownUses_parameter_iff {t : Text} (line : HeaderLine t) (allowList : AllowList)
    {parameter : Text} (hparameter : parameter ∈ line.parameters.cutAt ',') {used : NameUse}
    (hnamed : IsNamed parameter used.name) (hused : used.StandsIn t)
    (hlow : line.bodyPos ≤ used.pos) (hhigh : used.pos + used.name.length ≤ line.blockEnd) :
    used ∈ unknownUses allowList t ↔
      ∃ function ∈ functionsIn t, ∃ first, function.StandsAt t first ∧ first < line.start ∧
        line.start < function.bodyEnd ∧
        used.name ∉ localNames allowList function.parameters function.body ∧
        allowList.allows used.name = false := by
  have hfunctions := functionsFrom_iff.mpr (Eq.refl (functionsIn t))
  have hinBody : ∀ {function : FunctionText} {first : Nat}, function.StandsAt t first →
      first ≤ line.start → line.start < function.bodyEnd →
      function.bodyPos ≤ used.pos ∧ used.pos + used.name.length ≤ function.bodyEnd := by
    intro function first hstands hfirst hinside
    have hbody := line.bodyPos_le hstands hfirst
    have hblock := line.blockEnd_le hstands hinside
    exact ⟨Nat.le_trans hbody hlow, Nat.le_trans hhigh hblock⟩
  have hlength : 0 < used.name.length := by
    rcases hnamed with ⟨_, _, _, _, _, _, _, _, ⟨⟨x, more, hcons, _⟩, _⟩, _⟩
    rw [hcons]
    exact Nat.succ_pos more.length
  rw [mem_unknownUses_iff]
  constructor
  · intro h
    rcases h with ⟨_, function, hmem, hbodyLow, hbodyHigh, hunknown, hallowed⟩
    rcases hfunctions.exists_covering line.headerAt (Nat.zero_le _) with
      ⟨other, hother, first, hstands, hfirst, hinside⟩
    rcases hinBody hstands hfirst hinside with ⟨hotherLow, hotherHigh⟩
    have hsame : other = function :=
      hfunctions.eq_of_body hother hmem hotherLow (by omega) hbodyLow (by omega)
    rw [hsame] at hstands hinside
    refine ⟨function, hmem, first, hstands, ?_, hinside, hunknown, hallowed⟩
    rcases Nat.lt_or_eq_of_le hfirst with hlt | rfl
    · exact hlt
    · -- The function is the one of the header, and it introduces the parameter.
      exfalso
      rcases line.exists_standsAt with ⟨own, hown, hparameters, _⟩
      apply hunknown
      rw [hstands.unique hown, hparameters]
      exact mem_localNames_of_parameter hparameter hnamed
  · intro h
    rcases h with ⟨function, hmem, first, hstands, hfirst, hinside, hunknown, hallowed⟩
    rcases hinBody hstands (Nat.le_of_lt hfirst) hinside with ⟨hbodyLow, hbodyHigh⟩
    exact ⟨hused, function, hmem, hbodyLow, hbodyHigh, hunknown, hallowed⟩

theorem not_mem_unknownUses_lone_parameter :
    (⟨21, ['a']⟩ : NameUse) ∉ unknownUses .compat "def f(a):\n    return a".toList := by
  let line : HeaderLine "def f(a):\n    return a".toList :=
    { rows := []
      indent := []
      header := "def f(a):".toList
      parameters := ['a']
      trail := []
      block := ["    return a".toList]
      others := []
      lines_eq := by decide
      isHeader := ⟨[' '], ['f'], [], [], by simp [Text.isBlank, Text.isWord]⟩
      isIndent_indent := by simp
      isIndent_trail := by simp
      isDeeper := by decide }
  have hparameter : ['a'] ∈ line.parameters.cutAt ',' := by
    decide
  have hnamed : IsNamed ['a'] ['a'] := ⟨[], [], [], [], rfl, by simp, by simp, by simp, by decide, by simp⟩
  have hused : NameUse.StandsIn ⟨21, ['a']⟩ "def f(a):\n    return a".toList :=
    ⟨"def f(a):\n    return ".toList, [], by decide, by decide, by decide, by simp [Text.isWord],
      by simp⟩
  intro h
  rcases (mem_unknownUses_parameter_iff line .compat hparameter hnamed hused (by decide)
    (by decide)).mp h with ⟨_, _, first, _, hfirst, _⟩
  exact Nat.not_lt_zero first hfirst

def secondMethod : Text :=
  "class A:\n    def f(self, a):\n        return a\n    def g(self, b):\n        return b\n".toList

/-- The parameter of a second method is reported in its own block. -/
theorem exists_parameter_mem_unknownUses :
    ∃ (line : HeaderLine secondMethod) (parameter : Text) (used : NameUse),
      parameter ∈ line.parameters.cutAt ',' ∧ IsNamed parameter used.name ∧
        used.StandsIn secondMethod ∧ line.bodyPos ≤ used.pos ∧
        used.pos + used.name.length ≤ line.blockEnd ∧ used ∈ unknownUses .compat secondMethod := by
  let line : HeaderLine secondMethod :=
    { rows := ["class A:".toList, "    def f(self, a):".toList, "        return a".toList]
      indent := "    ".toList
      header := "def g(self, b):".toList
      parameters := "self, b".toList
      trail := []
      block := ["        return b".toList]
      others := [[]]
      lines_eq := by decide
      isHeader := ⟨[' '], ['g'], [], [], by simp [Text.isBlank, Text.isWord]⟩
      isIndent_indent := by simp [Text.isIndent]
      isIndent_trail := by simp
      isDeeper := by decide }
  have hlast : (secondMethod.take 81).getLast? = some ' ' := by
    decide
  have hused : NameUse.StandsIn ⟨81, ['b']⟩ secondMethod :=
    ⟨secondMethod.take 81, ['\n'], by decide, by decide, by decide, by simp [hlast, Text.isWord],
      by simp [Text.isWord]⟩
  have hnamed : IsNamed " b".toList ['b'] :=
    ⟨[' '], [], [], [], rfl, by simp [Text.isBlank], by simp, by simp, by decide, by simp⟩
  refine ⟨line, " b".toList, ⟨81, ['b']⟩, by decide, hnamed, hused, by decide, by decide, ?_⟩
  -- The second header stands in the body of the first method.
  exact mem_unknownUses_iff.mpr ⟨hused, by decide +kernel⟩

end SourceAudit
