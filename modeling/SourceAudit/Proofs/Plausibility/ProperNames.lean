import SourceAudit.Plausibility
import SourceAudit.Proofs.Header.Kinds

/-!
# Headers without a proper name

## What is found and what is hidden

The headers of a kind are looked for from left to right, and those found are the outermost ones.  A
text is refused if one of these holds no header with a proper name.

A header without a proper name is therefore refused, unless a header that reaches around it holds
one with a proper name elsewhere: in the text between its parentheses, or as the header itself.
-/

namespace SourceAudit

namespace Header
namespace DefinitionKind

open Pattern

variable {kind : DefinitionKind}

/-!
# The headers found
-/

theorem isUnique_pattern_word (kind : DefinitionKind) : (kind.pattern word).IsUnique :=
  fun _ _ _ _ _ h h' hsplit => (spans_pattern_word.mp h).unique (spans_pattern_word.mp h') hsplit

theorem reader_eq_some_iff {before rest header : Text} {d : Cursor} :
    (kind.pattern word).reader (Cursor.between before rest) = some (d, header) ↔
      ∃ after, rest = header ++ after ∧ kind.IsHeader IsWord header ∧
        d = Cursor.between (before ++ header) after := by
  rw [(isUnique_pattern_word kind).reader_eq_some_iff]
  simp only [spans_pattern_word]

theorem IsHeader.ne_nil {Named : Text → Prop} {header : Text} (h : kind.IsHeader Named header) :
    header ≠ [] := by
  rcases h with ⟨_, _, gap, _, _, rfl, hgap, _⟩
  simp [hgap]

theorem isForward_reader (kind : DefinitionKind) (t : Text) :
    (kind.pattern word).reader.IsForward (Cursor.all t) := by
  intro c hc d header hread
  rcases Cursor.mem_all.mp hc with ⟨before, rest, _, rfl⟩
  rcases reader_eq_some_iff.mp hread with ⟨after, _, hheader, rfl⟩
  show before.length < (before ++ header).length
  rw [List.length_append]
  exact Nat.lt_add_of_pos_right (List.length_pos_iff.mpr hheader.ne_nil)

theorem isNested_reader (kind : DefinitionKind) (t : Text) :
    (kind.pattern word).reader.IsNested t := by
  intro c hc e he d d' header header' hread hread' hlow hhigh
  rcases Cursor.mem_all.mp hc with ⟨before, rest, ht, rfl⟩
  rcases Cursor.mem_all.mp he with ⟨before', rest', ht', rfl⟩
  rcases exists_append_of_length_lt (ht.symm.trans ht') hlow with ⟨left, hleft, rfl, rfl⟩
  rcases reader_eq_some_iff.mp hread with ⟨after, hsplit, hheader, rfl⟩
  rcases reader_eq_some_iff.mp hread' with ⟨after', rfl, hheader', rfl⟩
  have hinside : left.length < header.length := by
    have hpos : (before ++ left).length < (before ++ header).length := hhigh
    simp only [List.length_append] at hpos
    omega
  have hle := hheader.nested hheader' hsplit.symm hleft hinside
  show (before ++ left ++ header').length ≤ (before ++ header).length
  simp only [List.length_append] at hle ⊢
  omega

theorem exists_of_mem_matchesIn {t header : Text} (h : header ∈ (kind.pattern word).matchesIn t) :
    ∃ before after, t = before ++ (header ++ after) ∧ kind.IsHeader IsWord header ∧
      ∀ left right, left <:+ before → right <+: after →
        kind.IsHeader IsWord (left ++ (header ++ right)) →
          left ++ (header ++ right) = header := by
  have hscan := Reader.scansFrom_scan (isForward_reader kind t)
  rcases hscan.exists_outermost (isForward_reader kind t) (isNested_reader kind t) h with
    ⟨c, hc, d, _, hread, houter⟩
  rcases Cursor.mem_all.mp hc with ⟨before, rest, rfl, rfl⟩
  rcases reader_eq_some_iff.mp hread with ⟨after, rfl, hheader, rfl⟩
  refine ⟨before, after, rfl, hheader, ?_⟩
  intro left right hleft hright haround
  rcases hleft with ⟨front, rfl⟩
  rcases hright with ⟨back, rfl⟩
  have hwhole : front ++ left ++ (header ++ (right ++ back)) =
      front ++ (left ++ (header ++ right) ++ back) := by
    simp
  have hreadAround : (kind.pattern word).reader
      (Cursor.between front (left ++ (header ++ right) ++ back)) =
        some (Cursor.between (front ++ (left ++ (header ++ right))) back,
          left ++ (header ++ right)) :=
    reader_eq_some_iff.mpr ⟨back, rfl, haround, rfl⟩
  have hsame := houter _ (Cursor.mem_all.mpr ⟨front, _, hwhole, rfl⟩) _ _ hreadAround
    (Nat.zero_le _) (by simp) (by simp)
  -- Both headers begin at one place, and there is one header there.
  have hnil : left = [] := by
    have hpos : front.length = (front ++ left).length := congrArg Cursor.pos hsame
    rw [List.length_append] at hpos
    exact List.eq_nil_of_length_eq_zero (by omega)
  rw [hnil, List.nil_append] at haround ⊢
  exact haround.unique hheader (List.append_assoc header right back)

/-- A header that is found reaches around every header, be it that one itself. -/
theorem exists_mem_matchesIn {before header after : Text} (hheader : kind.IsHeader IsWord header) :
    ∃ left right, left <:+ before ∧ right <+: after ∧
      kind.IsHeader IsWord (left ++ (header ++ right)) ∧
      left ++ (header ++ right) ∈ (kind.pattern word).matchesIn (before ++ (header ++ after)) := by
  have hscan := Reader.scansFrom_scan (isForward_reader kind (before ++ (header ++ after)))
  have hread : (kind.pattern word).reader (Cursor.between before (header ++ after)) =
      some (Cursor.between (before ++ header) after, header) :=
    reader_eq_some_iff.mpr ⟨after, rfl, hheader, rfl⟩
  rcases hscan.exists_covering (isNested_reader kind _) (Cursor.mem_all.mpr ⟨before, _, rfl, rfl⟩)
    (Nat.zero_le _) hread with ⟨e, he, d, outer, houter, hfound, hlow, hhigh⟩
  rcases Cursor.mem_all.mp he with ⟨front, rest, hsplit, rfl⟩
  rcases reader_eq_some_iff.mp houter with ⟨back, rfl, houterHeader, rfl⟩
  rcases exists_append_of_length_le hsplit.symm hlow with ⟨left, rfl, hleft⟩
  have hlength : (left ++ header).length ≤ outer.length := by
    have hpos : (front ++ left ++ header).length ≤ (front ++ outer).length := hhigh
    simp only [List.length_append] at hpos ⊢
    omega
  rw [← List.append_assoc] at hleft
  rcases exists_append_of_length_le hleft.symm hlength with ⟨right, rfl, rfl⟩
  rw [List.append_assoc left] at houterHeader hfound
  exact ⟨left, right, ⟨front, rfl⟩, ⟨back, rfl⟩, houterHeader, hfound⟩

/-!
# The headers without a proper name
-/

def HoldsProper (kind : DefinitionKind) (t : Text) : Prop :=
  ∃ front header back, t = front ++ (header ++ back) ∧ kind.IsHeader IsName header

/-- A header is found to be without a proper name when no header that reaches around it, itself
among them, holds one with a proper name. -/
theorem hasImproperName_iff {t : Text} :
    Plausibility.hasImproperName kind.pattern t = true ↔
      ∃ before header after, t = before ++ (header ++ after) ∧ kind.IsHeader IsWord header ∧
        ∀ left right, left <:+ before → right <+: after →
          kind.IsHeader IsWord (left ++ (header ++ right)) →
            ¬kind.HoldsProper (left ++ (header ++ right)) := by
  unfold Plausibility.hasImproperName
  simp only [List.any_eq_true, Bool.not_eq_true', Bool.eq_false_iff, ne_eq,
    occursIn_pattern_name_iff]
  constructor
  · intro h
    rcases h with ⟨header, hfound, hproper⟩
    rcases exists_of_mem_matchesIn hfound with ⟨before, after, rfl, hheader, houter⟩
    refine ⟨before, header, after, rfl, hheader, ?_⟩
    intro left right hleft hright haround
    rw [houter left right hleft hright haround]
    exact hproper
  · intro h
    rcases h with ⟨before, header, after, rfl, hheader, hnone⟩
    rcases exists_mem_matchesIn hheader with ⟨left, right, hleft, hright, haround, hfound⟩
    exact ⟨_, hfound, hnone left right hleft hright haround⟩

end DefinitionKind
end Header

/-!
# Texts that are refused
-/

namespace Plausibility

open Header

variable {kind : DefinitionKind} {before word header after : Text}

/-- Whether a header is hidden: one that reaches around it holds a header with a proper name that
begins elsewhere. -/
def IsHidden (kind : DefinitionKind) (before header after : Text) : Prop :=
  ∃ left right front proper back, left <:+ before ∧ right <+: after ∧
    kind.IsHeader IsWord (left ++ (header ++ right)) ∧
    left ++ (header ++ right) = front ++ (proper ++ back) ∧ front ≠ left ∧
    kind.IsHeader IsName proper

/-- Where the keyword stands nowhere else, nothing is hidden. -/
theorem not_isHidden_of_keyword_once
    (h : ∀ n ≤ (before ++ (header ++ after)).length,
      kind.keyword <+: (before ++ (header ++ after)).drop n → n = before.length) :
    ¬IsHidden kind before header after := by
  intro hhidden
  rcases hhidden with ⟨left, right, front, proper, back, ⟨outside, rfl⟩, ⟨behind, rfl⟩, _, hsplit,
    hne, name, _, gap, space, ending, rfl, _⟩
  have hwhole : outside ++ left ++ (header ++ (right ++ behind)) =
      outside ++ front ++ (kind.keyword ++
        (gap ++ (name ++ (space ++ ending)) ++ back ++ behind)) := by
    calc
      outside ++ left ++ (header ++ (right ++ behind)) =
          outside ++ (left ++ (header ++ right)) ++ behind := by
        simp
      _ = outside ++ front ++ (kind.keyword ++
          (gap ++ (name ++ (space ++ ending)) ++ back ++ behind)) := by
        rw [hsplit]
        simp
  have hlength : (outside ++ front).length = (outside ++ left).length := by
    apply h
    · rw [hwhole]
      simp
    · rw [hwhole, List.drop_left]
      exact List.prefix_append _ _
  simp only [List.length_append, Nat.add_left_cancel_iff] at hlength
  exact hne (List.append_inj hsplit.symm hlength).1

theorem hasImproperName_of_not_isHidden (hword : IsWord word)
    (hheader : kind.IsHeaderOf word header)
    (hfirst : ∀ x ∈ word.head?, Text.isNameStart x = false)
    (h : ¬IsHidden kind before header after) :
    hasImproperName kind.pattern (before ++ (header ++ after)) = true := by
  apply DefinitionKind.hasImproperName_iff.mpr
  refine ⟨before, header, after, rfl, ⟨word, hword, hheader⟩, ?_⟩
  intro left right hleft hright haround hproper
  rcases hproper with ⟨front, proper, back, hsplit, hname⟩
  apply h
  refine ⟨left, right, front, proper, back, hleft, hright, haround, hsplit, ?_, hname⟩
  -- At its own place, the header would have to have the proper name.
  rintro rfl
  rcases hname with ⟨name, hname, hproper⟩
  rcases hheader.unique hproper hword (DefinitionKind.isWord_of_isName hname)
    (List.append_cancel_left hsplit) with ⟨rfl, _⟩
  rcases hname.1 with ⟨x, more, rfl, hx⟩
  rw [hfirst x rfl] at hx
  cases hx

theorem isValid_eq_false_of_hasImproperName {t : Text} (kind : DefinitionKind)
    (h : hasImproperName kind.pattern t = true) : isValid t = false := by
  unfold isValid flaw?
  cases kind with
  | function =>
      rw [if_pos (show hasImproperName Header.function t = true from h)]
      split_ifs <;> rfl
  | classOf =>
      rw [if_pos (show hasImproperName Header.classOf t = true from h)]
      split_ifs <;> rfl

/-- A text with a header whose word may not begin a name, as one that begins with a digit, is
refused unless the header is hidden. -/
theorem isValid_eq_false_of_not_isHidden (hword : IsWord word)
    (hheader : kind.IsHeaderOf word header)
    (hfirst : ∀ x ∈ word.head?, Text.isNameStart x = false)
    (h : ¬IsHidden kind before header after) :
    isValid (before ++ (header ++ after)) = false :=
  isValid_eq_false_of_hasImproperName kind
    (hasImproperName_of_not_isHidden hword hheader hfirst h)

theorem isValid_lone_digitName :
    isValid "def 1bad(a):\n    return a".toList = false := by
  have hheader : DefinitionKind.function.IsHeaderOf "1bad".toList "def 1bad(a):".toList :=
    ⟨[' '], [], '(' :: (['a'] ++ ')' :: ([] ++ [':'])), rfl, by simp, by simp [Text.isBlank],
      by simp, .list (by simp) (by simp)⟩
  have hhidden : ¬IsHidden .function [] "def 1bad(a):".toList "\n    return a".toList :=
    not_isHidden_of_keyword_once (by decide)
  exact isValid_eq_false_of_not_isHidden (by decide) hheader (by simp [Text.isNameStart]) hhidden

/-- The parenthesised text of a header ends at the first closing parenthesis.  So a header is not
found if there are parentheses inside, and it is hidden by a header in a string inside. -/
theorem isValid_digitName_of_parentheses :
    ("def 1bad(a=(1, 2)):".toList ∈ Text.lines "def 1bad(a=(1, 2)):\n    return a".toList ∧
      isValid "def 1bad(a=(1, 2)):\n    return a".toList = true) ∧
    ("def 1bad(a='def f(x):'):".toList ∈
        Text.lines "def 1bad(a='def f(x):'):\n    return a".toList ∧
      isValid "def 1bad(a='def f(x):'):\n    return a".toList = true) := by
  decide

end Plausibility
end SourceAudit
