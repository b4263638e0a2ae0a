import SourceAudit.Proofs.Discovery.Pruning
import SourceAudit.Proofs.Ignore.Precedence

/-!
# Which rule decides

## The last direct hit

The last rule that hits a path directly decides about it.  If none does, the last one that hits it
through a directory decides.  A path is ignored when the rule that decides ignores it.

A directory is asked for by its path and by its path with a slash behind, and either answer ignores
it.  So it stays ignored when a rule that re-includes decides about the path with the slash only.
-/

namespace SourceAudit
namespace IgnoreRules

/-!
# Deciding rules
-/

/-- Whether a rule decides about a path by a hit: no later rule hits the path, save through a
directory where the hit is direct, and where the hit is through a directory, no earlier rule hits
the path directly. -/
def DecidesBy (rules : List IgnoreRule) (path : Text) (rule : IgnoreRule) (hit : Hit) : Prop :=
  ∃ earlier later, rules = earlier ++ rule :: later ∧ rule.hit? path = some hit ∧
    (∀ other ∈ later, ∀ found, other.hit? path = some found → hit = .direct ∧ found = .folder) ∧
    (hit = .folder → ∀ other ∈ earlier, other.hit? path ≠ some .direct)

/-- Whether a rule decides about a path. -/
def Decides (rules : IgnoreRules) (path : Text) (rule : IgnoreRule) : Prop :=
  ∃ hit, DecidesBy rules.rules path rule hit

section Deciding

variable {path : Text} {first rule : IgnoreRule} {rest list : List IgnoreRule} {hit : Hit}

theorem DecidesBy.mem (h : DecidesBy list path rule hit) : rule ∈ list := by
  rcases h with ⟨earlier, later, rfl, _⟩
  simp

theorem DecidesBy.hit?_eq (h : DecidesBy list path rule hit) : rule.hit? path = some hit := by
  rcases h with ⟨_, _, _, hhit, _⟩
  exact hhit

theorem DecidesBy.eq_folder (h : DecidesBy list path rule .folder) {other : IgnoreRule}
    (hother : other ∈ list) {found : Hit} (hfound : other.hit? path = some found) :
    found = .folder := by
  rcases h with ⟨earlier, later, rfl, hhit, hlater, hearlier⟩
  rcases List.mem_append.mp hother with hbefore | hbehind
  · cases found with
    | folder =>
        rfl
    | direct =>
        exact absurd hfound (hearlier rfl other hbefore)
  · rcases List.mem_cons.mp hbehind with rfl | hbehind
    · rw [hhit] at hfound
      exact (Option.some.inj hfound).symm
    · exact (hlater other hbehind found hfound).2

theorem decidesBy_cons_iff :
    DecidesBy (first :: rest) path rule hit ↔
      (rule = first ∧ first.hit? path = some hit ∧
        ∀ other ∈ rest, ∀ found, other.hit? path = some found → hit = .direct ∧ found = .folder) ∨
      (DecidesBy rest path rule hit ∧ (hit = .folder → first.hit? path ≠ some .direct)) := by
  constructor
  · intro h
    rcases h with ⟨earlier, later, hlist, hhit, hlater, hearlier⟩
    cases earlier with
    | nil =>
        cases hlist
        exact Or.inl ⟨rfl, hhit, hlater⟩
    | cons before earlier =>
        cases hlist
        right
        constructor
        · refine ⟨earlier, later, rfl, hhit, hlater, ?_⟩
          intro hfolder other hother
          exact hearlier hfolder other (List.mem_cons_of_mem first hother)
        · intro hfolder
          exact hearlier hfolder first List.mem_cons_self
  · intro h
    rcases h with ⟨rfl, hhit, hlater⟩ | ⟨⟨earlier, later, rfl, hhit, hlater, hearlier⟩, hfirst⟩
    · exact ⟨[], rest, rfl, hhit, hlater, by simp⟩
    · refine ⟨first :: earlier, later, rfl, hhit, hlater, ?_⟩
      intro hfolder
      exact List.forall_mem_cons.mpr ⟨hfirst hfolder, hearlier hfolder⟩

theorem outweighs_some_iff {found : Hit} {ignores : Bool} :
    outweighs found (some (ignores, hit)) = true ↔ found = .direct ∧ hit = .folder := by
  cases found <;> cases hit <;> simp [outweighs]

theorem decisiveHit_append (path : Text) (best : Option (Bool × Hit))
    (rules others : List IgnoreRule) :
    decisiveHit path best (rules ++ others) =
      decisiveHit path (decisiveHit path best rules) others := by
  induction rules generalizing best with
  | nil =>
      rfl
  | cons rule rest ih =>
      show decisiveHit path best (rule :: (rest ++ others)) = _
      rw [decisiveHit, decisiveHit]
      cases rule.hit? path with
      | none =>
          exact ih best
      | some hit =>
          cases hweight : outweighs hit best with
          | true =>
              simp only [hweight, if_true]
              exact ih (some (rule.ignores, hit))
          | false =>
              simp only [hweight, Bool.false_eq_true, if_false]
              exact ih best

theorem decisiveHit_reverse_cons (path : Text) (first : IgnoreRule) (rest : List IgnoreRule) :
    decisiveHit path none (first :: rest).reverse =
      match first.hit? path with
      | none => decisiveHit path none rest.reverse
      | some hit =>
          if outweighs hit (decisiveHit path none rest.reverse) then some (first.ignores, hit)
          else decisiveHit path none rest.reverse := by
  rw [List.reverse_cons, decisiveHit_append]
  rfl

theorem decisiveHit_eq_none_iff :
    decisiveHit path none list.reverse = none ↔ ∀ rule ∈ list, rule.hit? path = none := by
  induction list with
  | nil =>
      simp [decisiveHit]
  | cons first rest ih =>
      rw [decisiveHit_reverse_cons, List.forall_mem_cons]
      cases hfirst : first.hit? path with
      | none =>
          simpa using ih
      | some hit =>
          cases hrest : decisiveHit path none rest.reverse with
          | none =>
              simp [outweighs]
          | some decision =>
              dsimp only
              split <;> simp

theorem exists_decidesBy {ignores : Bool}
    (h : decisiveHit path none list.reverse = some (ignores, hit)) :
    ∃ rule, DecidesBy list path rule hit ∧ rule.ignores = ignores := by
  induction list generalizing ignores hit with
  | nil =>
      cases h
  | cons first rest ih =>
      rw [decisiveHit_reverse_cons] at h
      simp only [decidesBy_cons_iff]
      cases hfirst : first.hit? path with
      | none =>
          rw [hfirst] at h
          rcases ih h with ⟨rule, hdecides, hsign⟩
          exact ⟨rule, Or.inr ⟨hdecides, by simp⟩, hsign⟩
      | some found =>
          rw [hfirst] at h
          dsimp only at h
          split at h
          · -- The first rule decides only where all others hit through a directory, or not at all.
            rename_i hweight
            cases h
            refine ⟨first, Or.inl ⟨rfl, rfl, ?_⟩, rfl⟩
            intro other hother found' hfound'
            cases hrest : decisiveHit path none rest.reverse with
            | none =>
                rw [decisiveHit_eq_none_iff.mp hrest other hother] at hfound'
                cases hfound'
            | some decision =>
                rw [hrest, outweighs_some_iff] at hweight
                have hfolder : decision = (decision.1, .folder) := by
                  rw [← hweight.2]
                rw [hfolder] at hrest
                rcases ih hrest with ⟨rule, hdecides, _⟩
                exact ⟨hweight.1, hdecides.eq_folder hother hfound'⟩
          · -- The first rule does not outweigh what the later ones decide, so their decision stays.
            rename_i hweight
            rcases ih h with ⟨rule, hdecides, hsign⟩
            rw [h, outweighs_some_iff] at hweight
            refine ⟨rule, Or.inr ⟨hdecides, ?_⟩, hsign⟩
            intro hfolder hdirect
            exact hweight ⟨Option.some.inj hdirect, hfolder⟩

theorem DecidesBy.decisiveHit_eq (h : DecidesBy list path rule hit) :
    decisiveHit path none list.reverse = some (rule.ignores, hit) := by
  induction list with
  | nil =>
      cases h.mem
  | cons first rest ih =>
      rw [decisiveHit_reverse_cons]
      rcases decidesBy_cons_iff.mp h with ⟨rfl, hfirst, hlater⟩ | ⟨hrest, hfirst⟩
      · rw [hfirst]
        refine if_pos ?_
        cases hdecision : decisiveHit path none rest.reverse with
        | none =>
            rfl
        | some decision =>
            rcases exists_decidesBy hdecision with ⟨other, hother, _⟩
            exact outweighs_some_iff.mpr (hlater other hother.mem _ hother.hit?_eq)
      · rw [ih hrest]
        cases hfound : first.hit? path with
        | none =>
            rfl
        | some found =>
            refine if_neg ?_
            intro hweight
            rcases outweighs_some_iff.mp hweight with ⟨rfl, hfolder⟩
            exact hfirst hfolder hfound

end Deciding

variable {rules : IgnoreRules} {path : Text}

/-- A path is ignored when the rule that decides about it ignores. -/
theorem ignoresPath_iff :
    rules.ignoresPath path = true ↔
      ∃ rule, rules.Decides (relative path) rule ∧ rule.ignores = true := by
  unfold ignoresPath
  constructor
  · intro h
    cases hdecision : decisiveHit (relative path) none rules.rules.reverse with
    | none =>
        rw [hdecision] at h
        cases h
    | some decision =>
        rw [hdecision] at h
        rcases exists_decidesBy hdecision with ⟨rule, hdecides, hsign⟩
        exact ⟨rule, ⟨_, hdecides⟩, hsign.trans h⟩
  · intro h
    rcases h with ⟨rule, ⟨hit, hdecides⟩, hsign⟩
    rw [hdecides.decisiveHit_eq]
    exact hsign

theorem exists_decides_iff :
    (∃ rule, rules.Decides path rule) ↔ ∃ rule ∈ rules.rules, (rule.hit? path).isSome = true := by
  constructor
  · intro h
    rcases h with ⟨rule, hit, hdecides⟩
    exact ⟨rule, hdecides.mem, by rw [hdecides.hit?_eq]; rfl⟩
  · intro h
    rcases h with ⟨rule, hrule, hhit⟩
    cases hdecision : decisiveHit path none rules.rules.reverse with
    | none =>
        rw [decisiveHit_eq_none_iff.mp hdecision rule hrule] at hhit
        cases hhit
    | some decision =>
        rcases exists_decidesBy hdecision with ⟨other, hdecides, _⟩
        exact ⟨other, _, hdecides⟩

/-!
# Directories
-/

theorem isSome_hit?_folder {lines : List Text} (hrules : ofLines lines = .ok rules)
    (hfeed : '\n' ∉ path) {rule : IgnoreRule} (hrule : rule ∈ rules.rules)
    (hhit : (rule.hit? path).isSome = true) : (rule.hit? (path ++ ['/'])).isSome = true := by
  rcases exists_line_of_mem hrules hrule with ⟨line, _, hline⟩
  rcases IgnoreRule.exists_of_ofLine?_eq hline with ⟨row, body, ending, hpieces, hbody, rfl⟩
  have hfree := IgnoreRule.isAnchor_tail_of_pieces hpieces
  rw [IgnoreRule.isSome_hit?_iff hbody hfree] at hhit ⊢
  exact hhit.behind_name hfeed []

theorem exists_decides_folder {lines : List Text} (hrules : ofLines lines = .ok rules)
    (hfeed : '\n' ∉ path) (h : ∃ rule, rules.Decides path rule) :
    ∃ rule, rules.Decides (path ++ ['/']) rule := by
  rw [exists_decides_iff] at h ⊢
  rcases h with ⟨rule, hrule, hhit⟩
  exact ⟨rule, hrule, isSome_hit?_folder hrules hfeed hrule hhit⟩

/-!
# Lines
-/

def LineHits (line path : Text) (hit : Hit) : Prop :=
  ∃ rule, IgnoreRule.ofLine? line = .ok (some rule) ∧ rule.hit? path = some hit

theorem exists_lines_of_append {lines : List Text} {earlier later : List IgnoreRule}
    {rule : IgnoreRule} (h : ofLines lines = .ok ⟨earlier ++ rule :: later⟩) :
    ∃ front line back, lines = front ++ line :: back ∧
      IgnoreRule.ofLine? line = .ok (some rule) ∧ ofLines front = .ok ⟨earlier⟩ ∧
      ofLines back = .ok ⟨later⟩ := by
  induction lines generalizing earlier with
  | nil =>
      cases earlier <;> cases h
  | cons first rest ih =>
      rw [ofLines_cons] at h
      rcases exists_of_bind_eq_ok h with ⟨found, hfound, h⟩
      rcases exists_of_map_eq_ok h with ⟨others, hothers, heq⟩
      have hsplit : found.toList ++ others.rules = earlier ++ rule :: later :=
        congrArg IgnoreRules.rules heq
      -- The line has no rule, the rule in question, or one that comes before it.
      have hcons : ∀ {earlier' : List IgnoreRule}, others.rules = earlier' ++ rule :: later →
          earlier = found.toList ++ earlier' →
          ∃ front line back, first :: rest = front ++ line :: back ∧
            IgnoreRule.ofLine? line = .ok (some rule) ∧ ofLines front = .ok ⟨earlier⟩ ∧
            ofLines back = .ok ⟨later⟩ := by
        intro earlier' hrules hearlier
        rcases ih (by rw [hothers, ← hrules]) with ⟨front, line, back, rfl, hline, hfront, hback⟩
        refine ⟨first :: front, line, back, rfl, hline, ?_, hback⟩
        rw [ofLines_cons, hfound, hfront, hearlier]
        rfl
      cases found with
      | none =>
          exact hcons hsplit rfl
      | some own =>
          cases earlier with
          | nil =>
              cases hsplit
              refine ⟨[], first, rest, rfl, ?_, rfl, hothers⟩
              split at hfound
              · cases hfound
              · exact hfound
          | cons before earlier =>
              rcases List.cons.inj hsplit with ⟨rfl, hrules⟩
              exact hcons hrules rfl

theorem exists_lineHits_of_mem {lines : List Text} {list : List IgnoreRule}
    (hlines : ofLines lines = .ok ⟨list⟩) {rule : IgnoreRule} (hrule : rule ∈ list)
    (hkept : rule.ignores = false) {hit : Hit} (hhit : rule.hit? path = some hit) :
    ∃ line ∈ lines, line.head? = some '!' ∧ LineHits line path hit := by
  rcases exists_line_of_mem hlines hrule with ⟨line, hline, hofLine⟩
  refine ⟨line, hline, ?_, rule, hofLine, hhit⟩
  by_contra hhead
  rw [(IgnoreRule.ignores_iff_of_ofLine? hofLine).mpr hhead] at hkept
  cases hkept

/-- Whether a line that ignores hits the path of a directory, and a line that re-includes hits the
path with a slash behind.  The second one stands behind the first, or else hits directly. -/
def ReincludesFolder (lines : List Text) (path : Text) : Prop :=
  ∃ front line back, lines = front ++ line :: back ∧ line.head? ≠ some '!' ∧
    (∃ hit, LineHits line path hit) ∧
    ((∃ later ∈ back, later.head? = some '!' ∧ ∃ hit, LineHits later (path ++ ['/']) hit) ∨
      ∃ earlier ∈ front, earlier.head? = some '!' ∧ LineHits earlier (path ++ ['/']) .direct)

theorem reincludesFolder_of_decides {lines : List Text} (hrules : ofLines lines = .ok rules)
    (hfeed : '\n' ∉ path) {rule other : IgnoreRule} (hrule : rules.Decides path rule)
    (hignores : rule.ignores = true) (hother : rules.Decides (path ++ ['/']) other)
    (hkept : other.ignores = false) : ReincludesFolder lines path := by
  rcases hrule with ⟨hit, earlier, later, hlist, hhit, _⟩
  rcases hother with ⟨found, before, behind, hsame, hfound, hbehind, _⟩
  have hfolder : (rule.hit? (path ++ ['/'])).isSome = true :=
    isSome_hit?_folder hrules hfeed (by rw [hlist]; simp) (by rw [hhit]; rfl)
  rw [show rules = ⟨earlier ++ rule :: later⟩ from congrArg IgnoreRules.mk hlist] at hrules
  rcases exists_lines_of_append hrules with
    ⟨front, line, back, hlines, hline, hfront, hback⟩
  refine ⟨front, line, back, hlines, (IgnoreRule.ignores_iff_of_ofLine? hline).mp hignores,
    ⟨hit, rule, hline, hhit⟩, ?_⟩
  rw [hlist] at hsame
  have hne : rule ≠ other := by
    rintro rfl
    rw [hignores] at hkept
    cases hkept
  rcases List.append_eq_append_iff.mp hsame with ⟨m, rfl, hrest⟩ | ⟨m, rfl, hrest⟩
  · left
    rcases List.cons_eq_append_iff.mp hrest with ⟨_, hcons⟩ | ⟨between, rfl, rfl⟩
    · exact absurd (List.cons.inj hcons).1.symm hne
    · rcases exists_lineHits_of_mem hback (by simp) hkept hfound with ⟨after, hafter, hhead, hhits⟩
      exact ⟨after, hafter, hhead, found, hhits⟩
  · right
    rcases List.cons_eq_append_iff.mp hrest with ⟨_, hcons⟩ | ⟨between, rfl, rfl⟩
    · exact absurd (List.cons.inj hcons).1 hne
    · rcases Option.isSome_iff_exists.mp hfolder with ⟨kind, hkind⟩
      rw [(hbehind rule (by simp) kind hkind).1] at hfound
      exact exists_lineHits_of_mem hfront (by simp) hkept hfound

theorem isIgnored_folder_eq_iff_decides (rules : IgnoreRules) {names : List Text} (hne : names ≠ [])
    (hnames : ∀ name ∈ names, IsPathName name) :
    rules.isIgnored (Path.joinNames names) true =
        rules.ignoresPath (Path.joinNames names ++ ['/']) ↔
      ¬∃ rule, rules.Decides (Path.joinNames names) rule ∧ rule.ignores = true ∧
        ∀ other, rules.Decides (Path.joinNames names ++ ['/']) other → other.ignores = false := by
  have hown := relative_joinNames hnames [] hne
  have hfolder := relative_joinNames hnames ['/'] hne
  rw [List.append_nil] at hown
  have hpath := @ignoresPath_iff rules (Path.joinNames names)
  have hslash := @ignoresPath_iff rules (Path.joinNames names ++ ['/'])
  rw [hown] at hpath
  rw [hfolder] at hslash
  rw [isIgnored_joinNames rules hne hnames, Bool.true_and]
  cases hdecision : rules.ignoresPath (Path.joinNames names ++ ['/']) with
  | true =>
      rcases hslash.mp hdecision with ⟨other, hother, hsign⟩
      rw [Bool.or_true]
      refine iff_of_true rfl ?_
      intro h
      rcases h with ⟨rule, _, _, hkept⟩
      rw [hkept other hother] at hsign
      cases hsign
  | false =>
      rw [Bool.or_false, Bool.eq_false_iff, ne_eq, hpath, not_iff_not]
      constructor
      · intro h
        rcases h with ⟨rule, hrule, hsign⟩
        refine ⟨rule, hrule, hsign, ?_⟩
        intro other hother
        rw [Bool.eq_false_iff]
        intro hignores
        rw [hslash.mpr ⟨other, hother, hignores⟩] at hdecision
        cases hdecision
      · intro h
        rcases h with ⟨rule, hrule, hsign, _⟩
        exact ⟨rule, hrule, hsign⟩

/-- The decision about a directory is the one about its path with a slash behind, except where the
path itself is ignored and the rule that decides about the path with the slash re-includes it.
Unless a line feed is involved, there is such a rule whenever one decides about the path, and the
exception needs a line that ignores the directory and another one that re-includes it. -/
theorem isIgnored_folder_eq_iff {lines : List Text} (hrules : ofLines lines = .ok rules)
    {names : List Text} (hne : names ≠ []) (hnames : ∀ name ∈ names, IsPathName name) :
    (rules.isIgnored (Path.joinNames names) true =
        rules.ignoresPath (Path.joinNames names ++ ['/']) ↔
      ¬∃ rule, rules.Decides (Path.joinNames names) rule ∧ rule.ignores = true ∧
        ∀ other, rules.Decides (Path.joinNames names ++ ['/']) other → other.ignores = false) ∧
    ('\n' ∉ Path.joinNames names → (∃ rule, rules.Decides (Path.joinNames names) rule) →
      ∃ other, rules.Decides (Path.joinNames names ++ ['/']) other) ∧
    ('\n' ∉ Path.joinNames names →
      rules.isIgnored (Path.joinNames names) true ≠
        rules.ignoresPath (Path.joinNames names ++ ['/']) →
      ReincludesFolder lines (Path.joinNames names)) := by
  have hdecision := isIgnored_folder_eq_iff_decides rules hne hnames
  refine ⟨hdecision, exists_decides_folder hrules, ?_⟩
  intro hfeed hdiffers
  rcases not_not.mp (mt hdecision.mpr hdiffers) with ⟨rule, hrule, hignores, hkept⟩
  rcases exists_decides_folder hrules hfeed ⟨rule, hrule⟩ with ⟨other, hother⟩
  exact reincludesFolder_of_decides hrules hfeed hrule hignores hother (hkept other hother)

def reincludedBuild : List Text :=
  [['b', 'u', 'i', 'l', 'd'], ['!', 'b', 'u', 'i', 'l', 'd', '/']]

theorem isIgnored_folder_eq_iff_build :
    let path := Path.joinNames [['d', 'i', 's', 't'], ['b', 'u', 'i', 'l', 'd']]
    ∃ rules, ofLines reincludedBuild = .ok rules ∧ '\n' ∉ path ∧
      (rules.isIgnored path true = rules.ignoresPath (path ++ ['/']) ↔
        ¬∃ rule, rules.Decides path rule ∧ rule.ignores = true ∧
          ∀ other, rules.Decides (path ++ ['/']) other → other.ignores = false) ∧
      ((∃ rule, rules.Decides path rule) → ∃ other, rules.Decides (path ++ ['/']) other) ∧
      (rules.isIgnored path true ≠ rules.ignoresPath (path ++ ['/']) →
        ReincludesFolder reincludedBuild path) := by
  intro path
  have hnames : ∀ name ∈ [['d', 'i', 's', 't'], ['b', 'u', 'i', 'l', 'd']], IsPathName name := by
    intro name hname
    rcases List.mem_pair.mp hname with rfl | rfl
    · exact ⟨by decide, by decide, by decide⟩
    · exact ⟨by decide, by decide, by decide⟩
  have hrules : ∃ rules, ofLines reincludedBuild = .ok rules := ⟨_, rfl⟩
  rcases hrules with ⟨rules, hrules⟩
  have hboth := isIgnored_folder_eq_iff hrules (by decide) hnames
  exact ⟨rules, hrules, by decide, hboth.1, hboth.2.1 (by decide), hboth.2.2 (by decide)⟩

/-- The directory `build` is ignored although the rules re-include its path with a slash. -/
theorem exists_isIgnored_reincluded_folder :
    ∃ rules, ofLines reincludedBuild = .ok rules ∧
      rules.isIgnored ['b', 'u', 'i', 'l', 'd'] true = true ∧
      rules.ignoresPath ['b', 'u', 'i', 'l', 'd', '/'] = false :=
  ⟨_, rfl, rfl, rfl⟩

end IgnoreRules
end SourceAudit
