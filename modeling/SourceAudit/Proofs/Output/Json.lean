import SourceAudit.Output.Json
import SourceAudit.Proofs.Output.Pictures
import SourceAudit.Proofs.Text.Words

/-!
# The text of a value

## Strings between structure

The text of a value consists of its strings, of the names of its members with a colon behind them,
and of characters that tell its structure and its numbers.  No code reaches beyond what stands in
quotes, so the codes of a text are those of its quoted parts.  All characters are ASCII.
-/

namespace SourceAudit
namespace Json

open Emoji (codesIn)

/-!
# Numbers
-/

def isLiteral (x : Char) : Bool :=
  x.isAlphanum || x == '+' || x == '-' || x == '.'

theorem exists_of_mem_toDigits {b n : Nat} (hb : 1 < b) {x : Char} (h : x ∈ Nat.toDigits b n) :
    ∃ digit < b, x = digit.digitChar := by
  induction n using Nat.strongRecOn with
  | ind n ih =>
      rw [Nat.toDigits_eq_if hb] at h
      split at h
      · rename_i hlt
        exact ⟨n, hlt, List.mem_singleton.mp h⟩
      · rename_i hle
        rcases List.mem_append.mp h with h | h
        · exact ih (n / b) (Nat.div_lt_self (by omega) hb) h
        · exact ⟨n % b, Nat.mod_lt n (by omega), List.mem_singleton.mp h⟩

theorem isLiteral_digitChar : ∀ digit < 16, isLiteral (Nat.digitChar digit) = true := by
  decide

theorem isLiteral_of_mem_toDigits {b n : Nat} (hb : 1 < b) (hle : b ≤ 16) {x : Char}
    (h : x ∈ Nat.toDigits b n) : isLiteral x = true := by
  rcases exists_of_mem_toDigits hb h with ⟨digit, hlt, rfl⟩
  exact isLiteral_digitChar digit (Nat.lt_of_lt_of_le hlt hle)

theorem isLiteral_of_mem_hexDigits {width n : Nat} {x : Char} (h : x ∈ Text.hexDigits width n) :
    isLiteral x = true := by
  unfold Text.hexDigits at h
  rcases List.mem_append.mp h with h | h
  · rw [List.eq_of_mem_replicate h]
    decide
  · exact isLiteral_of_mem_toDigits (by decide) (by decide) h

theorem isLiteral_of_mem_toString {n : Int} {x : Char} (h : x ∈ (toString n).toList) :
    isLiteral x = true := by
  rw [Int.toString_eq_repr] at h
  cases n with
  | ofNat n =>
      have hdigits : x ∈ n.repr.toList := h
      rw [Nat.toList_repr] at hdigits
      exact isLiteral_of_mem_toDigits (by decide) (by decide) hdigits
  | negSucc n =>
      have hdigits : x ∈ ("-" ++ n.succ.repr).toList := h
      rw [String.toList_append, Nat.toList_repr] at hdigits
      rcases List.mem_append.mp hdigits with hsign | hdigits
      · rw [List.mem_singleton.mp hsign]
        decide
      · exact isLiteral_of_mem_toDigits (by decide) (by decide) hdigits

theorem isLiteral_of_mem_positional {digits : List Char}
    (hdigits : ∀ x ∈ digits, isLiteral x = true) (before : Int) :
    ∀ x ∈ Number.positional digits before, isLiteral x = true := by
  have hzero : isLiteral '0' = true := by
    decide
  have hpoint : isLiteral '.' = true := by
    decide
  have hzeros : ∀ k, ∀ x ∈ List.replicate k '0', isLiteral x = true := by
    intro k x hx
    rw [List.eq_of_mem_replicate hx, hzero]
  have htake : ∀ k, ∀ x ∈ digits.take k, isLiteral x = true :=
    fun k x hx => hdigits x (List.mem_of_mem_take hx)
  have hdrop : ∀ k, ∀ x ∈ digits.drop k, isLiteral x = true :=
    fun k x hx => hdigits x (List.mem_of_mem_drop hx)
  unfold Number.positional
  split
  · simp only [List.forall_mem_append, List.forall_mem_cons]
    exact ⟨⟨hzero, hpoint, by simp⟩, hdigits⟩
  · rename_i k _
    dsimp only
    simp only [List.forall_mem_append, List.forall_mem_cons]
    refine ⟨⟨⟨htake k, hzeros _⟩, hpoint, by simp⟩, ?_⟩
    split
    · simp [hzero]
    · exact hdrop k
  · rename_i k
    simp only [List.forall_mem_append, List.forall_mem_cons]
    exact ⟨⟨⟨hzero, hpoint, by simp⟩, hzeros _⟩, hdigits⟩

theorem isLiteral_of_mem_scientific {digits : List Char}
    (hdigits : ∀ x ∈ digits, isLiteral x = true) (exponent : Int) :
    ∀ x ∈ Number.scientific digits exponent, isLiteral x = true := by
  have hsize : ∀ x ∈ Number.digitsOf exponent.natAbs, isLiteral x = true :=
    fun x hx => isLiteral_of_mem_toDigits (by decide) (by decide) hx
  unfold Number.scientific
  dsimp only
  simp only [List.forall_mem_append, List.forall_mem_cons]
  refine ⟨⟨⟨fun x hx => hdigits x (List.mem_of_mem_take hx), ?_⟩, by decide, ?_, by simp⟩, ?_⟩
  · split
    · simp
    · rw [List.forall_mem_cons]
      exact ⟨by decide, fun x hx => hdigits x (List.mem_of_mem_drop hx)⟩
  · split <;> decide
  · split
    · rw [List.forall_mem_cons]
      exact ⟨by decide, hsize⟩
    · exact hsize

theorem isLiteral_of_mem_decimal (value : Number.Decimal) :
    ∀ x ∈ value.text, isLiteral x = true := by
  have hdigits : ∀ x ∈ value.digitText, isLiteral x = true := by
    unfold Number.Decimal.digitText
    dsimp only
    split
    · exact List.all_eq_true.mp rfl
    · intro x hx
      have hall := (List.dropWhile_suffix _).subset (List.mem_reverse.mp hx)
      exact isLiteral_of_mem_toDigits (by decide) (by decide) (List.mem_reverse.mp hall)
  unfold Number.Decimal.text
  split
  · exact isLiteral_of_mem_positional hdigits _
  · exact isLiteral_of_mem_scientific hdigits _

theorem isLiteral_of_mem_fullText (value : Float) :
    ∀ x ∈ (Number.fullText value).toList, isLiteral x = true := by
  have hsign : ∀ x ∈ (Number.signText value).toList, isLiteral x = true := by
    unfold Number.signText
    split
    · exact List.all_eq_true.mp rfl
    · split <;> exact List.all_eq_true.mp rfl
    · split <;> exact List.all_eq_true.mp rfl
  unfold Number.fullText
  split
  · rw [String.toList_append, List.forall_mem_append]
    exact ⟨hsign, List.all_eq_true.mp rfl⟩
  · split
    · rw [String.toList_append, String.toList_ofList, List.forall_mem_append]
      exact ⟨hsign, isLiteral_of_mem_decimal _⟩
    · exact List.all_eq_true.mp rfl

/-!
# Quoted parts
-/

/-- Whether a text stands in quotes in the text of a value: one of its strings, or the name of a
member with the colon behind it. -/
inductive Quotes : Json → Text → Prop where
  | string (s : String) : Quotes (.string s) (stringText s)
  | item {items : List Json} {item : Json} {t : Text} : item ∈ items → Quotes item t →
      Quotes (.array items) t
  | label {members : List (String × Json)} {member : String × Json} : member ∈ members →
      Quotes (.object members) (stringText member.1 ++ [':'])
  | value {members : List (String × Json)} {member : String × Json} {t : Text} :
      member ∈ members → Quotes member.2 t → Quotes (.object members) t

@[simp] theorem not_quotes_null (t : Text) : ¬null.Quotes t :=
  fun h => by cases h

@[simp] theorem not_quotes_bool (b : Bool) (t : Text) : ¬(bool b).Quotes t :=
  fun h => by cases h

@[simp] theorem not_quotes_int (n : Int) (t : Text) : ¬(int n).Quotes t :=
  fun h => by cases h

@[simp] theorem not_quotes_float (x : Float) (t : Text) : ¬(float x).Quotes t :=
  fun h => by cases h

@[simp] theorem quotes_string_iff {s : String} {t : Text} :
    (string s).Quotes t ↔ t = stringText s := by
  constructor
  · intro h
    cases h
    rfl
  · rintro rfl
    exact .string s

@[simp] theorem quotes_array_iff {items : List Json} {t : Text} :
    (array items).Quotes t ↔ ∃ item ∈ items, item.Quotes t := by
  constructor
  · intro h
    cases h with
    | item hitem hquotes => exact ⟨_, hitem, hquotes⟩
  · rintro ⟨item, hitem, hquotes⟩
    exact .item hitem hquotes

theorem quotes_object_iff {members : List (String × Json)} {t : Text} :
    (object members).Quotes t ↔
      ∃ member ∈ members, t = stringText member.1 ++ [':'] ∨ member.2.Quotes t := by
  constructor
  · intro h
    cases h with
    | label hmember => exact ⟨_, hmember, Or.inl rfl⟩
    | value hmember hquotes => exact ⟨_, hmember, Or.inr hquotes⟩
  · rintro ⟨member, hmember, rfl | hquotes⟩
    · exact .label hmember
    · exact .value hmember hquotes

@[simp] theorem quotes_record_iff {members : List (String × Json)} {t : Text} :
    (record members).Quotes t ↔
      ∃ member ∈ members, t = stringText member.1 ++ [':'] ∨ member.2.Quotes t := by
  unfold record
  rw [quotes_object_iff]
  simp only [List.mem_mergeSort]

/-!
# Codes
-/

theorem not_mem_newLine (level : Nat) : ':' ∉ newLine level := by
  intro h
  rcases List.mem_cons.mp h with hfeed | hspaces
  · exact absurd hfeed (by decide)
  · exact absurd (List.eq_of_mem_replicate hspaces) (by decide)

theorem codesIn_append_newLine (t : Text) (level : Nat) (u : Text) :
    codesIn (t ++ (newLine level ++ u)) = codesIn t ++ codesIn u := by
  have hfeed : Text.isBlank '\n' = true := by
    decide
  have hline : codesIn (newLine level ++ u) = codesIn u :=
    Emoji.codesIn_append_of_not_mem (not_mem_newLine level) u
  rw [← hline]
  unfold newLine
  rw [List.cons_append, Emoji.codesIn_append_blank hfeed,
    Emoji.codesIn_cons_of_ne (by decide)]

theorem codesIn_join_items (level : Nat) (first : Text) (rest : List Text) :
    codesIn (Text.join [','] ((first :: rest).map (newLine level ++ ·))) =
      codesIn first ++ rest.flatMap codesIn := by
  have hlater : ∀ (t : Text), codesIn (t ++ rest.flatMap fun item =>
      [','] ++ (newLine level ++ item)) = codesIn t ++ rest.flatMap codesIn := by
    induction rest with
    | nil =>
        simp
    | cons item rest ih =>
        intro t
        have hcomma : codesIn (t ++ [',']) = codesIn t :=
          Emoji.codesIn_append_not_mem t (by decide)
        rw [List.flatMap_cons, ← List.append_assoc, ih, ← List.append_assoc,
          codesIn_append_newLine, hcomma, List.flatMap_cons, List.append_assoc]
  rw [List.map_cons, Text.join, List.flatMap_map, hlater,
    Emoji.codesIn_append_of_not_mem (not_mem_newLine level)]

theorem codesIn_block (level : Nat) {opening closing : Char} (hopening : opening ≠ ':')
    (hclosing : closing ≠ ':') (items : List Text) :
    codesIn (block level opening closing items) = items.flatMap codesIn := by
  unfold block
  cases items with
  | nil =>
      rw [if_pos List.isEmpty_nil, Emoji.codesIn_cons_of_ne hopening,
        Emoji.codesIn_cons_of_ne hclosing]
      rfl
  | cons first rest =>
      have hclosed : ':' ∉ [closing] := by
        simpa using Ne.symm hclosing
      rw [if_neg (by simp), List.append_assoc, codesIn_append_newLine, List.singleton_append,
        Emoji.codesIn_cons_of_ne hopening, Emoji.codesIn_of_not_mem hclosed, List.append_nil,
        codesIn_join_items]
      rfl

theorem mem_codesIn_member {label : String} {t code : Text} :
    code ∈ codesIn (stringText label ++ [':', ' '] ++ t) ↔
      code ∈ codesIn (stringText label ++ [':']) ∨ code ∈ codesIn t := by
  have hblank : Text.isBlank ' ' = true := by
    decide
  rw [show stringText label ++ [':', ' '] ++ t = stringText label ++ [':'] ++ ' ' :: t by simp,
    Emoji.codesIn_append_blank hblank, List.mem_append]

theorem mem_codesIn_literal {v : Json} {level : Nat}
    (hliteral : ∀ x ∈ v.textAt level, isLiteral x = true) (hquotes : ∀ t, ¬v.Quotes t)
    (code : Text) :
    code ∈ codesIn (v.textAt level) ↔ ∃ t, v.Quotes t ∧ code ∈ codesIn t := by
  have hcolon : ':' ∉ v.textAt level := by
    intro hmem
    exact absurd (hliteral ':' hmem) (by decide)
  rw [Emoji.codesIn_of_not_mem hcolon]
  constructor
  · intro h
    cases h
  · rintro ⟨t, ht, _⟩
    exact absurd ht (hquotes t)

mutual

/-- The codes in the text of a value are those in its quoted parts. -/
theorem mem_codesIn_textAt {code : Text} (level : Nat) : ∀ v : Json,
    code ∈ codesIn (v.textAt level) ↔ ∃ t, v.Quotes t ∧ code ∈ codesIn t
  | null =>
      mem_codesIn_literal (List.all_eq_true.mp rfl) not_quotes_null code
  | bool true =>
      mem_codesIn_literal (List.all_eq_true.mp rfl) (not_quotes_bool true) code
  | bool false =>
      mem_codesIn_literal (List.all_eq_true.mp rfl) (not_quotes_bool false) code
  | int n =>
      mem_codesIn_literal (by unfold textAt; exact fun _ => isLiteral_of_mem_toString)
        (not_quotes_int n) code
  | float x =>
      mem_codesIn_literal (by unfold textAt; exact isLiteral_of_mem_fullText x)
        (not_quotes_float x) code
  | string s => by
      simp only [textAt, quotes_string_iff, exists_eq_left]
  | array items => by
      rw [textAt, codesIn_block level (by decide) (by decide), List.mem_flatMap,
        mem_codesIn_itemTexts (level + 1) items]
      simp only [quotes_array_iff]
      constructor
      · rintro ⟨item, hitem, t, ht, hcode⟩
        exact ⟨t, ⟨item, hitem, ht⟩, hcode⟩
      · rintro ⟨t, ⟨item, hitem, ht⟩, hcode⟩
        exact ⟨item, hitem, t, ht, hcode⟩
  | object members => by
      rw [textAt, codesIn_block level (by decide) (by decide), List.mem_flatMap,
        mem_codesIn_memberTexts (level + 1) members]
      simp only [quotes_object_iff]
      constructor
      · rintro ⟨member, hmember, hcode | ⟨t, ht, hcode⟩⟩
        · exact ⟨_, ⟨member, hmember, Or.inl rfl⟩, hcode⟩
        · exact ⟨t, ⟨member, hmember, Or.inr ht⟩, hcode⟩
      · rintro ⟨t, ⟨member, hmember, rfl | ht⟩, hcode⟩
        · exact ⟨member, hmember, Or.inl hcode⟩
        · exact ⟨member, hmember, Or.inr ⟨t, ht, hcode⟩⟩

theorem mem_codesIn_itemTexts {code : Text} (level : Nat) : ∀ items : List Json,
    (∃ t ∈ itemTexts level items, code ∈ codesIn t) ↔
      ∃ item ∈ items, ∃ t, item.Quotes t ∧ code ∈ codesIn t
  | [] => by
      simp [itemTexts]
  | item :: rest => by
      rw [itemTexts, List.exists_mem_cons_iff, mem_codesIn_textAt level item,
        mem_codesIn_itemTexts level rest, List.exists_mem_cons_iff]

theorem mem_codesIn_memberTexts {code : Text} (level : Nat) :
    ∀ members : List (String × Json),
    (∃ t ∈ memberTexts level members, code ∈ codesIn t) ↔
      ∃ member ∈ members, code ∈ codesIn (stringText member.1 ++ [':']) ∨
        ∃ t, member.2.Quotes t ∧ code ∈ codesIn t
  | [] => by
      simp [memberTexts]
  | (label, v) :: rest => by
      rw [memberTexts, List.exists_mem_cons_iff, mem_codesIn_member, mem_codesIn_textAt level v,
        mem_codesIn_memberTexts level rest, List.exists_mem_cons_iff]

end

/-!
# Characters
-/

def isSimple (x : Char) : Bool :=
  x == '\n' || (32 ≤ x.toNat && x.toNat < 127)

theorem isSimple_of_isLiteral {x : Char} (h : isLiteral x = true) : isSimple x = true := by
  simp only [isLiteral, Bool.or_eq_true, beq_iff_eq] at h
  rcases h with ((h | rfl) | rfl) | rfl
  · rcases Text.toNat_bounds_of_isAlphanum h with ⟨hlow, hhigh⟩
    simp only [isSimple, Bool.or_eq_true, Bool.and_eq_true, decide_eq_true_eq]
    right
    omega
  · decide
  · decide
  · decide

/-- How a character stands in a string: as it is if it is printable, and else as a sign, a number or
two numbers behind backslashes. -/
inductive IsEscapeOf (c : Char) : Text → Prop where
  | plain : isSimple c = true → IsEscapeOf c [c]
  | sign {x : Char} : x ∈ ['\x22', '\\', 'n', 'r', 't', 'b', 'f'] → IsEscapeOf c ['\\', x]
  | number (n : Nat) : IsEscapeOf c (unicodeEscape n)
  | pair (n m : Nat) : IsEscapeOf c (unicodeEscape n ++ unicodeEscape m)

theorem isEscapeOf_escapedChar (c : Char) : IsEscapeOf c (escapedChar c) := by
  unfold escapedChar
  repeat' split
  all_goals first | exact .sign (by decide) | skip
  · rename_i hprintable
    apply IsEscapeOf.plain
    unfold isSimple
    rw [hprintable, Bool.or_true]
  · exact .number _
  · exact .pair _ _

theorem isSimple_of_mem_unicodeEscape (n : Nat) : ∀ x ∈ unicodeEscape n, isSimple x = true := by
  unfold unicodeEscape
  rw [List.forall_mem_append]
  exact ⟨List.all_eq_true.mp rfl,
    fun x hx => isSimple_of_isLiteral (isLiteral_of_mem_hexDigits hx)⟩

theorem IsEscapeOf.isSimple {c : Char} {t : Text} (h : IsEscapeOf c t) :
    ∀ x ∈ t, isSimple x = true := by
  cases h with
  | plain hc =>
      rw [List.forall_mem_singleton]
      exact hc
  | @sign x hsign =>
      rw [List.forall_mem_cons, List.forall_mem_singleton]
      exact ⟨by decide, List.all_eq_true.mp rfl x hsign⟩
  | number n =>
      exact isSimple_of_mem_unicodeEscape n
  | pair n m =>
      rw [List.forall_mem_append]
      exact ⟨isSimple_of_mem_unicodeEscape n, isSimple_of_mem_unicodeEscape m⟩

theorem isSimple_of_mem_stringText (s : String) : ∀ x ∈ stringText s, isSimple x = true := by
  unfold stringText
  rw [List.forall_mem_append, List.forall_mem_append]
  refine ⟨⟨List.all_eq_true.mp rfl, ?_⟩, List.all_eq_true.mp rfl⟩
  intro x hx
  rcases List.mem_flatMap.mp hx with ⟨c, _, hx⟩
  exact (isEscapeOf_escapedChar c).isSimple x hx

theorem isSimple_of_mem_newLine (level : Nat) : ∀ x ∈ newLine level, isSimple x = true := by
  unfold newLine
  rw [List.forall_mem_cons]
  refine ⟨by decide, ?_⟩
  intro x hx
  rw [List.eq_of_mem_replicate hx]
  decide

theorem isSimple_of_mem_block {level : Nat} {opening closing : Char}
    (hopening : isSimple opening = true) (hclosing : isSimple closing = true)
    {items : List Text} (hitems : ∀ t ∈ items, ∀ x ∈ t, isSimple x = true) :
    ∀ x ∈ block level opening closing items, isSimple x = true := by
  have hline : ∀ t ∈ items, ∀ x ∈ newLine (level + 1) ++ t, isSimple x = true := by
    intro t ht
    rw [List.forall_mem_append]
    exact ⟨isSimple_of_mem_newLine _, hitems t ht⟩
  have hjoin : ∀ x ∈ Text.join [','] (items.map (newLine (level + 1) ++ ·)),
      isSimple x = true := by
    intro x hx
    rcases Text.mem_of_mem_join hx with hcomma | ⟨piece, hpiece, hx⟩
    · rw [List.mem_singleton.mp hcomma]
      decide
    · rcases List.mem_map.mp hpiece with ⟨t, ht, rfl⟩
      exact hline t ht x hx
  unfold block
  split
  · rw [List.forall_mem_cons, List.forall_mem_singleton]
    exact ⟨hopening, hclosing⟩
  · rw [List.forall_mem_append, List.forall_mem_append, List.forall_mem_append,
      List.forall_mem_singleton, List.forall_mem_singleton]
    exact ⟨⟨⟨hopening, hjoin⟩, isSimple_of_mem_newLine _⟩, hclosing⟩

mutual

/-- A document has no other characters than printable ASCII and line feeds. -/
theorem isSimple_of_mem_textAt (level : Nat) : ∀ v : Json,
    ∀ x ∈ v.textAt level, isSimple x = true
  | null => List.all_eq_true.mp rfl
  | bool true => List.all_eq_true.mp rfl
  | bool false => List.all_eq_true.mp rfl
  | int n => by
      unfold textAt
      exact fun x hx => isSimple_of_isLiteral (isLiteral_of_mem_toString hx)
  | float x => by
      unfold textAt
      exact fun y hy => isSimple_of_isLiteral (isLiteral_of_mem_fullText x y hy)
  | string s => by
      unfold textAt
      exact isSimple_of_mem_stringText s
  | array items => by
      unfold textAt
      exact isSimple_of_mem_block (by decide) (by decide)
        (isSimple_of_mem_itemTexts (level + 1) items)
  | object members => by
      unfold textAt
      exact isSimple_of_mem_block (by decide) (by decide)
        (isSimple_of_mem_memberTexts (level + 1) members)

theorem isSimple_of_mem_itemTexts (level : Nat) : ∀ items : List Json,
    ∀ t ∈ itemTexts level items, ∀ x ∈ t, isSimple x = true
  | [] => by
      simp [itemTexts]
  | item :: rest => by
      rw [itemTexts, List.forall_mem_cons]
      exact ⟨isSimple_of_mem_textAt level item, isSimple_of_mem_itemTexts level rest⟩

theorem isSimple_of_mem_memberTexts (level : Nat) : ∀ members : List (String × Json),
    ∀ t ∈ memberTexts level members, ∀ x ∈ t, isSimple x = true
  | [] => by
      simp [memberTexts]
  | (label, v) :: rest => by
      rw [memberTexts, List.forall_mem_cons, List.forall_mem_append, List.forall_mem_append]
      exact ⟨⟨⟨isSimple_of_mem_stringText label, List.all_eq_true.mp rfl⟩,
        isSimple_of_mem_textAt level v⟩, isSimple_of_mem_memberTexts level rest⟩

end

theorem not_mem_unicodeEscape (n : Nat) : ':' ∉ unicodeEscape n := by
  unfold unicodeEscape
  rw [List.mem_append]
  rintro (hmem | hmem)
  · exact absurd hmem (by decide)
  · exact absurd (isLiteral_of_mem_hexDigits hmem) (by decide)

theorem IsEscapeOf.not_mem {c : Char} {t : Text} (h : IsEscapeOf c t) (hc : c ≠ ':') : ':' ∉ t := by
  cases h with
  | plain _ =>
      rw [List.mem_singleton]
      exact Ne.symm hc
  | @sign x hsign =>
      intro hmem
      have hx : x = ':' := by
        simpa [eq_comm] using hmem
      rw [hx] at hsign
      exact absurd hsign (by decide)
  | number n =>
      exact not_mem_unicodeEscape n
  | pair n m =>
      rw [List.mem_append]
      rintro (hmem | hmem)
      · exact not_mem_unicodeEscape n hmem
      · exact not_mem_unicodeEscape m hmem

theorem not_mem_stringText {s : String} (h : ':' ∉ s.toList) : ':' ∉ stringText s := by
  unfold stringText
  rw [List.mem_append, List.mem_append]
  rintro ((hmem | hmem) | hmem)
  · exact absurd hmem (by decide)
  · rcases List.mem_flatMap.mp hmem with ⟨c, hc, hmem⟩
    have hne : c ≠ ':' := by
      rintro rfl
      exact h hc
    exact (isEscapeOf_escapedChar c).not_mem hne hmem
  · exact absurd hmem (by decide)

/-!
# Values without codes
-/

def HasNoCode (v : Json) : Prop :=
  ∀ t, v.Quotes t → codesIn t = []

theorem hasNoCode_null : null.HasNoCode :=
  fun t h => absurd h (not_quotes_null t)

theorem hasNoCode_bool (b : Bool) : (bool b).HasNoCode :=
  fun t h => absurd h (not_quotes_bool b t)

theorem hasNoCode_int (n : Int) : (int n).HasNoCode :=
  fun t h => absurd h (not_quotes_int n t)

theorem hasNoCode_float (x : Float) : (float x).HasNoCode :=
  fun t h => absurd h (not_quotes_float x t)

theorem hasNoCode_string {s : String} (h : ':' ∉ s.toList) : (string s).HasNoCode := by
  intro t hquotes
  rw [quotes_string_iff.mp hquotes]
  exact Emoji.codesIn_of_not_mem (not_mem_stringText h)

theorem hasNoCode_array {items : List Json} (h : ∀ item ∈ items, item.HasNoCode) :
    (array items).HasNoCode := by
  intro t hquotes
  rcases quotes_array_iff.mp hquotes with ⟨item, hitem, hquotes⟩
  exact h item hitem t hquotes

theorem codesIn_label {s : String} (h : ':' ∉ s.toList) :
    codesIn (stringText s ++ [':']) = [] := by
  rw [Emoji.codesIn_append_of_not_mem (not_mem_stringText h)]
  rfl

theorem hasNoCode_record {members : List (String × Json)}
    (hlabels : ∀ label ∈ members.map Prod.fst, ':' ∉ label.toList)
    (hvalues : ∀ v ∈ members.map Prod.snd, v.HasNoCode) : (record members).HasNoCode := by
  intro t hquotes
  rcases quotes_record_iff.mp hquotes with ⟨member, hmember, rfl | hquotes⟩
  · exact codesIn_label (hlabels _ (List.mem_map_of_mem hmember))
  · exact hvalues _ (List.mem_map_of_mem hmember) t hquotes

/-!
# Members in order
-/

/-- Whether the members of every object in a value stand in the order of their names. -/
inductive IsSorted : Json → Prop where
  | null : IsSorted null
  | bool (b : Bool) : IsSorted (bool b)
  | int (n : Int) : IsSorted (int n)
  | float (x : Float) : IsSorted (float x)
  | string (s : String) : IsSorted (string s)
  | array {items : List Json} (hitems : ∀ item ∈ items, IsSorted item) : IsSorted (array items)
  | object {members : List (String × Json)} (hnames : members.Pairwise fun a b => a.1 ≤ b.1)
      (hvalues : ∀ member ∈ members, IsSorted member.2) : IsSorted (object members)

theorem isSorted_record {members : List (String × Json)}
    (h : ∀ v ∈ members.map Prod.snd, v.IsSorted) : (record members).IsSorted := by
  have hpairwise : (members.mergeSort fun a b => !(b.1 < a.1)).Pairwise
      fun a b => (!decide (b.1 < a.1)) = true := by
    apply List.pairwise_mergeSort
    · intro a b c hab hbc
      simp only [Bool.not_eq_true', decide_eq_false_iff_not, String.not_lt] at hab hbc ⊢
      exact String.le_trans hab hbc
    · intro a b
      simp only [Bool.or_eq_true, Bool.not_eq_true', decide_eq_false_iff_not, String.not_lt]
      exact String.le_total a.1 b.1
  constructor
  · apply hpairwise.imp
    intro a b hab
    rw [Bool.not_eq_true', decide_eq_false_iff_not, String.not_lt] at hab
    exact hab
  · intro member hmember
    exact h _ (List.mem_map_of_mem (List.mem_mergeSort.mp hmember))

end Json

end SourceAudit
