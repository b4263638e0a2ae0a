import SourceAudit.Proofs.Ignore.Confinement
import SourceAudit.Proofs.Discovery.Pruning

/-!
# Names with wildcards

## More than one name

A name with wildcards or escapes is not taken literally: if it stands for itself as the first
segment of a pattern, it stands for another name as well.  A star can cover one character more, a
question mark another character.  Sets and escapes take more characters in the pattern than they
cover, so a name that has them and no star is too long to stand for itself.
-/

namespace SourceAudit

/-- Whether a name means itself in a pattern. -/
def IsPlainName (name : Text) : Prop :=
  ∀ c ∈ name, c ≠ '*' ∧ c ≠ '?' ∧ c ≠ '[' ∧ c ≠ '\\'

namespace Glob

/-!
# Parts and characters
-/

theorem length_le_of_partsFrom {state : State} {t : Text} {parts : List GlobPart}
    (h : partsFrom state t = .ok parts) : parts.length ≤ t.length := by
  induction t generalizing state parts with
  | nil =>
      cases state with
      | plain =>
          cases h
          exact Nat.le_refl 0
      | _ =>
          cases h
  | cons c rest ih =>
      rcases partsFrom_cons state c rest with ⟨later, _, hstep⟩ | ⟨part, _, hstep⟩
      · rw [hstep] at h
        exact Nat.le_succ_of_le (ih h)
      · rw [hstep] at h
        rcases exists_of_map_eq_ok h with ⟨others, hothers, rfl⟩
        exact Nat.succ_le_succ (ih hothers)

def partOf (c : Char) : GlobPart :=
  if c = '*' then .anyRun else if c = '?' then .anyOne else .literal c

theorem eq_map_partOf_of_length_eq {t : Text} {parts : List GlobPart}
    (h : partsFrom .plain t = .ok parts) (hlength : parts.length = t.length) :
    parts = t.map partOf ∧ ∀ c ∈ t, c ≠ '[' ∧ c ≠ '\\' := by
  induction t generalizing parts with
  | nil =>
      cases h
      exact ⟨rfl, by simp⟩
  | cons c rest ih =>
      have hshort : ∀ later, partsFrom later rest ≠ .ok parts := by
        intro later hlater
        have hle := length_le_of_partsFrom hlater
        rw [hlength, List.length_cons] at hle
        exact Nat.not_succ_le_self _ hle
      rw [partsFrom] at h
      by_cases hescape : c = '\\'
      · rw [if_pos hescape] at h
        exact absurd h (hshort _)
      · have hopen : c ≠ '[' := by
          intro hopen
          rw [hopen] at h
          exact absurd h (hshort _)
        have hown : (partsFrom .plain rest).map (partOf c :: ·) = .ok parts := by
          unfold partOf
          rw [if_neg hescape] at h
          by_cases hrun : c = '*'
          · rw [if_pos hrun] at h ⊢
            exact h
          · rw [if_neg hrun] at h ⊢
            by_cases hone : c = '?'
            · rw [if_pos hone] at h ⊢
              exact h
            · rw [if_neg hone, if_neg hopen] at h
              rw [if_neg hone]
              exact h
        rcases exists_of_map_eq_ok hown with ⟨others, hothers, rfl⟩
        rcases ih hothers (Nat.succ.inj hlength) with ⟨hmap, hrest⟩
        exact ⟨by rw [hmap, List.map_cons], List.forall_mem_cons.mpr ⟨⟨hopen, hescape⟩, hrest⟩⟩

/-!
# Other texts that parts cover
-/

variable {parts front back : List GlobPart} {t : Text}

theorem covers_append : Covers (front ++ back) t ↔
    ∃ u v, t = u ++ v ∧ Covers front u ∧ Covers back v := by
  induction front generalizing t with
  | nil =>
      constructor
      · intro h
        exact ⟨[], t, rfl, rfl, h⟩
      · intro h
        rcases h with ⟨u, v, rfl, rfl, hback⟩
        exact hback
  | cons part rest ih =>
      constructor
      · intro h
        rcases h with ⟨u, w, rfl, hpart, hrest⟩
        rcases ih.mp hrest with ⟨v, w, rfl, hrest, hback⟩
        exact ⟨u ++ v, w, (List.append_assoc u v w).symm, ⟨u, v, rfl, hpart, hrest⟩, hback⟩
      · intro h
        rcases h with ⟨_, w, rfl, ⟨u, v, rfl, hpart, hrest⟩, hback⟩
        exact ⟨u, v ++ w, List.append_assoc u v w, hpart, ih.mpr ⟨v, w, rfl, hrest, hback⟩⟩

theorem Covers.length_eq (h : Covers parts t) (hrun : .anyRun ∉ parts) :
    t.length = parts.length := by
  induction parts generalizing t with
  | nil =>
      rw [show t = [] from h]
      rfl
  | cons part rest ih =>
      rcases h with ⟨u, v, rfl, hpart, hrest⟩
      rw [List.mem_cons, not_or] at hrun
      have hu : u.length = 1 := by
        cases part with
        | literal c =>
            rw [show u = [c] from hpart]
            rfl
        | anyRun =>
            exact absurd rfl hrun.1
        | anyOne =>
            rcases hpart with ⟨x, rfl, _⟩
            rfl
        | set negated members =>
            rcases hpart with ⟨found, x, _, rfl, _⟩
            rfl
      rw [List.length_append, List.length_cons, hu, ih hrest hrun.2, Nat.add_comm]

theorem Covers.exists_insert (h : Covers (front ++ .anyRun :: back) t) {c : Char} (hc : c ≠ '/') :
    ∃ u v, t = u ++ v ∧ Covers front u ∧ Covers (front ++ .anyRun :: back) (u ++ c :: v) := by
  rcases covers_append.mp h with ⟨u, _, rfl, hfront, w, v, rfl, hrun, hback⟩
  refine ⟨u, w ++ v, rfl, hfront, covers_append.mpr ⟨u, c :: (w ++ v), rfl, hfront, ?_⟩⟩
  exact ⟨c :: w, v, rfl, List.forall_mem_cons.mpr ⟨hc, hrun⟩, hback⟩

theorem Covers.exists_replace (h : Covers (front ++ .anyOne :: back) t) :
    ∃ u x v, t = u ++ x :: v ∧
      ∀ c, c ≠ '/' → Covers (front ++ .anyOne :: back) (u ++ c :: v) := by
  rcases covers_append.mp h with ⟨u, _, rfl, hfront, _, v, rfl, ⟨x, rfl, _⟩, hback⟩
  refine ⟨u, x, v, rfl, ?_⟩
  intro c hc
  exact covers_append.mpr ⟨u, c :: v, rfl, hfront, [c], v, rfl, ⟨c, rfl, hc⟩, hback⟩

/-!
# Other names
-/

theorem exists_ne_char (x : Char) : ∃ c, c ≠ x ∧ c ≠ '/' ∧ c ≠ '.' := by
  by_cases hx : x = 'a'
  · rw [hx]
    exact ⟨'b', by decide⟩
  · exact ⟨'a', fun h => hx h.symm, by decide⟩

theorem isPathName_insert {u v : Text} {c : Char} (hname : '/' ∉ u ++ v) (hne : u ++ v ≠ [])
    (hc : c ≠ '/') : IsPathName (u ++ c :: v) ∧ u ++ c :: v ≠ u ++ v := by
  have hlength : (u ++ c :: v).length = (u ++ v).length + 1 := by
    simp only [List.length_append, List.length_cons]
    omega
  have hpos := List.length_pos_iff.mpr hne
  refine ⟨⟨by simp, ?_, ?_⟩, ?_⟩
  · intro hdot
    rw [hdot, List.length_singleton] at hlength
    omega
  · intro hmem
    rcases List.mem_append.mp hmem with hmem | hmem
    · exact hname (List.mem_append_left v hmem)
    · rcases List.mem_cons.mp hmem with hslash | hmem
      · exact hc hslash.symm
      · exact hname (List.mem_append_right u hmem)
  · intro hsame
    rw [hsame] at hlength
    omega

/-- Parts with wildcards that cover the text of their own name, or more, up to a slash, also cover a
text with another name in its place. -/
theorem exists_covers_other {name u behind more : Text} (hparts : Glob.parts name = .ok parts)
    (hwild : ¬IsPlainName name) (hslash : '/' ∉ name) (hcovers : Covers parts u)
    (hpath : name ++ '/' :: more = u ++ behind) (hbehind : behind.head? = some '/') :
    ∃ other u', IsPathName other ∧ other ≠ name ∧ Covers parts u' ∧
      other ++ '/' :: more = u' ++ behind := by
  have hle := length_le_of_partsFrom hparts
  by_cases hrun : .anyRun ∈ parts
  · -- The part in front of the first star covers less than the name.
    rcases List.eq_append_cons_of_mem hrun with ⟨front, back, rfl, hfront⟩
    rcases hcovers.exists_insert (show 'a' ≠ '/' by decide) with ⟨v, w, rfl, hv, hother⟩
    have hshort : v.length < name.length := by
      rw [hv.length_eq hfront]
      rw [List.length_append, List.length_cons] at hle
      omega
    rw [List.append_assoc] at hpath
    rcases exists_append_of_length_lt hpath.symm hshort with ⟨rest, hrest, rfl, hw⟩
    rcases isPathName_insert hslash (by simp [hrest]) (show 'a' ≠ '/' by decide) with
      ⟨hname, hne⟩
    refine ⟨v ++ 'a' :: rest, v ++ 'a' :: w, hname, hne, hother, ?_⟩
    simp [hw]
  · -- Without a star the name is as long as its parts, so it has a question mark.
    have hu := hcovers.length_eq hrun
    have hsame : name = u ∧ '/' :: more = behind := by
      apply List.append_inj hpath
      apply Nat.le_antisymm _ (hu ▸ hle)
      by_contra hlonger
      rcases exists_append_of_length_lt hpath.symm (Nat.lt_of_not_le hlonger) with
        ⟨rest, hrest, hname, hbehindRest⟩
      apply hslash
      rw [hname]
      apply List.mem_append_right
      rw [hbehindRest, List.head?_append_of_ne_nil rest hrest] at hbehind
      exact List.mem_of_mem_head? hbehind
    rcases hsame with ⟨rfl, rfl⟩
    rcases eq_map_partOf_of_length_eq hparts hu.symm with ⟨hmap, hplain⟩
    have hone : .anyOne ∈ parts := by
      unfold IsPlainName at hwild
      push Not at hwild
      rcases hwild with ⟨c, hc, hspecial⟩
      have hpart : partOf c ∈ parts := by
        rw [hmap]
        exact List.mem_map_of_mem hc
      have hstar : c ≠ '*' := by
        intro hstar
        rw [hstar] at hpart
        exact hrun hpart
      have hmark : c = '?' := by
        by_contra hmark
        exact (hplain c hc).2 (hspecial hstar hmark (hplain c hc).1)
      rw [hmark] at hpart
      exact hpart
    rcases List.append_of_mem hone with ⟨front, back, rfl⟩
    rcases hcovers.exists_replace with ⟨v, x, w, rfl, hother⟩
    rcases exists_ne_char x with ⟨c, hcx, hc, hdot⟩
    refine ⟨v ++ c :: w, v ++ c :: w, ⟨by simp, ?_, ?_⟩, ?_, hother c hc, rfl⟩
    · intro heq
      have hmem : c ∈ v ++ c :: w := by
        simp
      rw [heq] at hmem
      exact hdot (List.mem_singleton.mp hmem)
    · intro hmem
      apply hslash
      rcases List.mem_append.mp hmem with hmem | hmem
      · exact List.mem_append_left _ hmem
      · rcases List.mem_cons.mp hmem with hsame | hmem
        · exact absurd hsame.symm hc
        · exact List.mem_append_right _ (List.mem_cons_of_mem x hmem)
    · intro hsame
      exact hcx (List.cons.inj (List.append_cancel_left hsame)).1

end Glob

namespace IgnoreRule

theorem exists_collapse_anyDepth {rest : List Text} {last : Text}
    (hrest : rest.getLast? = some last) (hlast : last ≠ anyDepth) :
    ∃ later, collapse (anyDepth :: rest) = anyDepth :: later ∧ later.getLast? = some last := by
  have hhead := head?_collapse (anyDepth :: rest)
  rcases List.head?_eq_some_iff.mp hhead with ⟨later, hlater⟩
  have hend := getLast?_collapse (anyDepth :: rest)
  rw [hlater, List.getLast?_cons, List.getLast?_cons, hrest] at hend
  refine ⟨later, hlater, ?_⟩
  cases hfound : later.getLast? with
  | none =>
      rw [hfound] at hend
      exact absurd (Option.some.inj hend).symm hlast
  | some found =>
      rw [hfound] at hend
      exact hend

theorem collapse_name {name : Text} (hname : name ≠ anyDepth) (rest : List Text) :
    collapse (name :: rest) = name :: collapse rest :=
  collapse_append (fun other hother => by rw [List.mem_singleton.mp hother]; exact hname) rest

section Wild

variable {name more last : Text} {rest : List Text} {row : List Piece} {ending : Ending}

theorem exists_hits_longer
    (hpieces : pieces false (collapse (anyDepth :: rest)) = .ok (row, ending))
    (hrest : rest.getLast? = some last) (hlast : last ≠ anyDepth) (hstar : last ≠ ['*'])
    (hhits : Hits row ending (anyDepth ++ '/' :: more)) :
    ∃ first later, (∀ other ∈ first :: later, IsPathName other) ∧ first ≠ anyDepth ∧
      Hits row ending (Path.joinNames (first :: later) ++ '/' :: more) := by
  have hdepth : IsPathName anyDepth := ⟨by decide, by decide, by decide⟩
  rcases exists_collapse_anyDepth hrest hlast with ⟨later, hcollapse, hlater⟩
  have hany : later ≠ [['*']] := by
    rintro rfl
    exact hstar (Option.some.inj hlater).symm
  have hanyBelow : later ≠ [['*'], anyDepth] := by
    rintro rfl
    exact hlast (Option.some.inj hlater).symm
  have hne : later ≠ [] := by
    rintro rfl
    cases hlater
  rw [hcollapse, pieces_depth false hne hany hanyBelow] at hpieces
  rcases exists_of_map_eq_ok hpieces with ⟨found, _, hrow⟩
  cases hrow
  rw [hits_of_isAnchored rfl] at hhits
  rcases hhits with ⟨_, after, hpath, ⟨u, v, rfl, hu, hv⟩, hadmits⟩
  rcases hu with rfl | ⟨part, hpart, hfeed, rfl⟩
  · refine ⟨['a'], [anyDepth], ?_, by decide, (hits_of_isAnchored rfl).mpr ?_⟩
    · intro other hother
      rcases List.mem_cons.mp hother with rfl | hother
      · exact ⟨by decide, by decide, by decide⟩
      · rw [List.mem_singleton.mp hother]
        exact hdepth
    · refine ⟨['a', '/'] ++ v, after, ?_, ⟨['a', '/'], v, rfl, ?_, hv⟩, hadmits⟩
      · rw [List.append_assoc]
        exact congrArg (['a', '/'] ++ ·) hpath
      · exact Or.inr ⟨['a'], by simp, by simp, rfl⟩
  · refine ⟨'a' :: anyDepth, [], ?_, by decide, (hits_of_isAnchored rfl).mpr ?_⟩
    · intro other hother
      rw [List.mem_singleton.mp hother]
      exact ⟨by decide, by decide, by decide⟩
    · refine ⟨'a' :: (part ++ ['/']) ++ v, after, ?_, ⟨'a' :: (part ++ ['/']), v, rfl, ?_, hv⟩,
        hadmits⟩
      · exact congrArg ('a' :: ·) hpath
      · exact Or.inr ⟨'a' :: part, by simp, List.forall_mem_cons.mpr ⟨by decide, hfeed⟩, rfl⟩

theorem exists_hits_renamed
    (hpieces : pieces false (collapse (name :: rest)) = .ok (row, ending)) (hrest : rest ≠ [])
    (hdepth : name ≠ anyDepth) (hne : name ≠ []) (hslash : '/' ∉ name)
    (hwild : ¬IsPlainName name) (hhits : Hits row ending (name ++ '/' :: more)) :
    ∃ other, IsPathName other ∧ other ≠ name ∧ Hits row ending (other ++ '/' :: more) := by
  have hlater : collapse rest ≠ [] := mt (collapse_eq_nil_iff rest).mp hrest
  rw [collapse_name hdepth, pieces_name false hdepth,
    piecesFrom_name false false hdepth hlater] at hpieces
  rcases exists_of_map_eq_ok hpieces with ⟨found, hfound, hrow⟩
  rcases exists_of_bind_eq_ok hfound with ⟨piece, hpiece, hmap⟩
  rcases exists_of_map_eq_ok hmap with ⟨behind, hbehind, rfl⟩
  cases hrow
  rw [hits_of_isAnchored rfl] at hhits
  rcases hhits with ⟨_, after, hpath, ⟨_, _, rfl, rfl, u, v, rfl, hu, hv⟩, hadmits⟩
  have hhead := (rowOf_of_piecesFrom hlater hbehind).head?_eq_slash rfl hv hadmits
  have hpath : name ++ '/' :: more = u ++ (v ++ after) := by
    simpa using hpath
  have hother : ∃ other u', IsPathName other ∧ other ≠ name ∧ piece.Covers u' (v ++ after) ∧
      other ++ '/' :: more = u' ++ (v ++ after) := by
    unfold namePiece at hpiece
    by_cases hstar : name = ['*']
    · rw [if_pos hstar] at hpiece
      cases hpiece
      rcases hu with ⟨_, hu, hend⟩
      rcases Glob.isPathName_insert (u := []) hslash hne (show 'a' ≠ '/' by decide) with
        ⟨hname, hother⟩
      refine ⟨'a' :: name, 'a' :: u, hname, hother, ?_, congrArg ('a' :: ·) hpath⟩
      exact ⟨by simp, List.forall_mem_cons.mpr ⟨by decide, hu⟩, hend⟩
    · rw [if_neg hstar] at hpiece
      rcases exists_of_map_eq_ok hpiece with ⟨parts, hparts, rfl⟩
      exact Glob.exists_covers_other hparts hwild hslash hu hpath hhead
  rcases hother with ⟨other, u', hname, hne, hcovers, hjoined⟩
  refine ⟨other, hname, hne, (hits_of_isAnchored rfl).mpr ⟨u' ++ v, after, ?_, ?_, hadmits⟩⟩
  · rw [hjoined, List.append_assoc]
  · exact ⟨[], u' ++ v, rfl, rfl, u', v, rfl, hcovers, hv⟩

/-- The first name of a pattern, if it has wildcards and stands for itself, is not all that it
stands for. -/
theorem exists_hits_other
    (hpieces : pieces false (collapse (name :: rest)) = .ok (row, ending))
    (hrest : rest.getLast? = some last) (hlast : last ≠ anyDepth) (hstar : last ≠ ['*'])
    (hne : name ≠ []) (hslash : '/' ∉ name) (hwild : ¬IsPlainName name)
    (hhits : Hits row ending (name ++ '/' :: more)) :
    ∃ first later, (∀ other ∈ first :: later, IsPathName other) ∧ first ≠ name ∧
      Hits row ending (Path.joinNames (first :: later) ++ '/' :: more) := by
  by_cases hdepth : name = anyDepth
  · rw [hdepth] at hpieces hhits ⊢
    exact exists_hits_longer hpieces hrest hlast hstar hhits
  · have hbelow : rest ≠ [] := by
      rintro rfl
      cases hrest
    rcases exists_hits_renamed hpieces hbelow hdepth hne hslash hwild hhits with
      ⟨other, hname, hother, hhits⟩
    refine ⟨other, [], ?_, hother, ?_⟩
    · intro same hsame
      rw [List.mem_singleton.mp hsame]
      exact hname
    · rw [Path.joinNames_singleton]
      exact hhits

end Wild
end IgnoreRule
end SourceAudit
