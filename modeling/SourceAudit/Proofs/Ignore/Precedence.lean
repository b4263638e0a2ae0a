import SourceAudit.Ignore.Nested
import SourceAudit.Proofs.Files.Order
import SourceAudit.Proofs.Outcome

/-!
# Precedence of nested ignore files

## Which file comes first

The lines of the ignore files are put one file after the other, in the order of the paths of the
files.  The file of a directory then comes before a file further down exactly when the name of an
ignore file does not come behind the next name on the way down.  Below a directory whose name comes
before that of an ignore file the order is the other way round: the deeper file comes first, and the
rules of the outer one override it.
-/

namespace SourceAudit
namespace IgnoreRules

variable {d : Disk} {root : Path}

/-!
# Lines of several files
-/

/-- The lines of all ignore files below a root. -/
def linesOf (d : Disk) (root : Path) : Except ReadFault (List Text) :=
  (filesOf d root).bind (collectLines d root)

theorem load_eq_match : load d root =
    match linesOf d root with
    | .error fault => .error (.unreadable fault)
    | .ok lines =>
        match ofLines lines with
        | .error fault => .error (.badRule fault)
        | .ok rules => .ok rules := by
  unfold load linesOf
  cases filesOf d root with
  | error fault =>
      rfl
  | ok files =>
      rfl

theorem load_eq_ok_iff {rules : IgnoreRules} :
    load d root = .ok rules ↔ ∃ lines, linesOf d root = .ok lines ∧ ofLines lines = .ok rules := by
  rw [load_eq_match]
  cases linesOf d root with
  | error fault =>
      simp
  | ok lines =>
      cases hrules : ofLines lines <;> simp [hrules]

theorem collectLines_cons (names : List Text) (others : List (List Text)) :
    collectLines d root (names :: others) =
      (scopedLines d root names).bind fun first =>
        (collectLines d root others).map fun rest => first ++ rest := by
  rw [collectLines]
  cases scopedLines d root names with
  | error fault =>
      rfl
  | ok first =>
      cases collectLines d root others <;> rfl

theorem exists_collectLines_append {front back : List (List Text)} {lines : List Text}
    (h : collectLines d root (front ++ back) = .ok lines) :
    ∃ linesFront linesBack, collectLines d root front = .ok linesFront ∧
      collectLines d root back = .ok linesBack ∧ lines = linesFront ++ linesBack := by
  induction front generalizing lines with
  | nil =>
      exact ⟨[], lines, rfl, h, rfl⟩
  | cons names others ih =>
      rw [List.cons_append, collectLines_cons] at h
      rcases exists_of_bind_eq_ok h with ⟨first, hfirst, h⟩
      rcases exists_of_map_eq_ok h with ⟨rest, hrest, rfl⟩
      rcases ih hrest with ⟨linesFront, linesBack, hfront, hback, rfl⟩
      refine ⟨first ++ linesFront, linesBack, ?_, hback, ?_⟩
      · rw [collectLines_cons, hfirst, hfront]
        rfl
      · exact (List.append_assoc first linesFront linesBack).symm

/-!
# The order of two files
-/

/-- Whether all lines of one ignore file come before all lines of another: the lines of all files
can be cut in two parts, of which the first has the one file and the second has the other. -/
def LinesPrecede (d : Disk) (root : Path) (first second : List Text) : Prop :=
  ∃ front back linesFront linesBack,
    filesOf d root = .ok (front ++ back) ∧
    first ∈ front ∧ first ∉ back ∧ second ∉ front ∧ second ∈ back ∧
    collectLines d root front = .ok linesFront ∧ collectLines d root back = .ok linesBack ∧
    linesOf d root = .ok (linesFront ++ linesBack)

theorem exists_filesOf_eq {files : List (List Text)} (h : filesOf d root = .ok files) :
    ∃ paths, files = Path.sortNames paths := by
  unfold filesOf at h
  split at h
  · cases h
  · cases h
    exact ⟨[], by simp [Path.sortNames]⟩
  · cases h
    exact ⟨_, rfl⟩

theorem LinesPrecede.namesBefore_eq_false {first second : List Text}
    (h : LinesPrecede d root first second) : Path.namesBefore second first = false := by
  rcases h with ⟨front, back, _, _, hfiles, hfirst, _, _, hsecond, _⟩
  rcases exists_filesOf_eq hfiles with ⟨paths, hpaths⟩
  have hsorted := Path.pairwise_sortNames paths
  rw [← hpaths] at hsorted
  exact (List.pairwise_append.mp hsorted).2.2 first hfirst second hsecond

theorem linesPrecede_of_namesBefore {files : List (List Text)} {lines : List Text}
    (hfiles : filesOf d root = .ok files) (hlines : linesOf d root = .ok lines)
    {first second : List Text} (hfirst : first ∈ files) (hsecond : second ∈ files)
    (hbefore : Path.namesBefore first second = true) : LinesPrecede d root first second := by
  rcases exists_filesOf_eq hfiles with ⟨paths, hpaths⟩
  rcases Path.exists_cut_sortNames paths second with ⟨front, back, hcut, hfront, hback⟩
  rw [hpaths, hcut] at hfiles hfirst hsecond
  have hfirstBack : first ∉ back := by
    intro hmem
    rw [hback first hmem] at hbefore
    cases hbefore
  have hsecondFront : second ∉ front := by
    intro hmem
    have hself := hfront second hmem
    rw [Path.isOrder_namesBefore.irrefl] at hself
    cases hself
  have hcollect : collectLines d root (front ++ back) = .ok lines := by
    rw [← hlines]
    unfold linesOf
    rw [hfiles]
    rfl
  rcases exists_collectLines_append hcollect with ⟨linesFront, linesBack, hf, hb, rfl⟩
  refine ⟨front, back, linesFront, linesBack, hfiles, ?_, hfirstBack, hsecondFront, ?_, hf, hb,
    hlines⟩
  · exact (List.mem_append.mp hfirst).resolve_right hfirstBack
  · exact (List.mem_append.mp hsecond).resolve_left hsecondFront

theorem namesBefore_deeper (outer rest : List Text) (name : Text) :
    Path.namesBefore (outer ++ name :: (rest ++ [fileName])) (outer ++ [fileName]) =
      Path.nameBefore name fileName := by
  have hrest : Path.namesBefore (rest ++ [fileName]) [] = false := by
    cases rest <;> rfl
  rw [Path.namesBefore_append, Path.namesBefore_cons, hrest, Bool.and_false, Bool.or_false]

/-- The lines of the ignore file of a directory come before those of a file further down unless the
next name on the way down comes before the name of an ignore file; then they come behind. -/
theorem linesPrecede_iff {files : List (List Text)} {lines : List Text}
    (hfiles : filesOf d root = .ok files) (hlines : linesOf d root = .ok lines)
    {outer rest : List Text} {name : Text} (houter : outer ++ [fileName] ∈ files)
    (hinner : outer ++ name :: (rest ++ [fileName]) ∈ files) :
    (LinesPrecede d root (outer ++ [fileName]) (outer ++ name :: (rest ++ [fileName])) ↔
      Path.nameBefore name fileName = false) ∧
    (LinesPrecede d root (outer ++ name :: (rest ++ [fileName])) (outer ++ [fileName]) ↔
      Path.nameBefore name fileName = true) := by
  have hdeeper := namesBefore_deeper outer rest name
  have hordered : Path.namesBefore (outer ++ [fileName]) (outer ++ name :: (rest ++ [fileName])) =
      true ∨ Path.nameBefore name fileName = true := by
    rw [← hdeeper]
    rcases Path.isOrder_namesBefore.total (outer ++ [fileName])
        (outer ++ name :: (rest ++ [fileName])) with hbefore | heq | hbehind
    · exact Or.inl hbefore
    · have hlength := congrArg List.length heq
      simp at hlength
    · exact Or.inr hbehind
  constructor
  · constructor
    · intro h
      rw [← hdeeper]
      exact h.namesBefore_eq_false
    · intro h
      apply linesPrecede_of_namesBefore hfiles hlines houter hinner
      rcases hordered with hbefore | hname
      · exact hbefore
      · rw [h] at hname
        cases hname
  · constructor
    · intro h
      rcases hordered with hbefore | hname
      · rw [h.namesBefore_eq_false] at hbefore
        cases hbefore
      · exact hname
    · intro h
      apply linesPrecede_of_namesBefore hfiles hlines hinner houter
      rw [hdeeper]
      exact h

def withIgnored (later : Folder) : Folder :=
  .file fileName [42, 46, 116, 109, 112, 10] later

def withKept (name : Text) (later : Folder) : Folder :=
  .folder name (.file fileName [33, 107, 101, 101, 112, 46, 116, 109, 112, 10] .empty) later

/-- The lines of the ignore file in a directory `s` come last. -/
theorem linesPrecede_plain_directory :
    LinesPrecede ⟨withIgnored (withKept ['s'] .empty), []⟩ ⟨[], []⟩ [fileName]
      [['s'], fileName] := by
  have hfiles : filesOf ⟨withIgnored (withKept ['s'] .empty), []⟩ ⟨[], []⟩ =
      .ok ([[] ++ [fileName], [] ++ ['s'] :: ([] ++ [fileName])]) := by
    show Except.ok (Path.sortNames [[fileName], [['s'], fileName]]) = _
    rw [Path.sortNames_eq_self (by simp; decide)]
    rfl
  have hlines : ∃ lines,
      linesOf ⟨withIgnored (withKept ['s'] .empty), []⟩ ⟨[], []⟩ = .ok lines := by
    unfold linesOf
    rw [hfiles]
    exact ⟨_, rfl⟩
  rcases hlines with ⟨lines, hlines⟩
  have houter : [] ++ [fileName] ∈ [[] ++ [fileName], [] ++ ['s'] :: ([] ++ [fileName])] :=
    List.mem_cons_self
  have hinner : [] ++ ['s'] :: ([] ++ [fileName]) ∈
      [[] ++ [fileName], [] ++ ['s'] :: ([] ++ [fileName])] :=
    List.mem_cons_of_mem _ List.mem_cons_self
  exact (linesPrecede_iff hfiles hlines houter hinner).1.mpr (by decide)

/-- The lines of the ignore file in a directory `.config` come first, and what they re-include is
ignored after all. -/
theorem not_linesPrecede_hidden_directory :
    let config : Text := ['.', 'c', 'o', 'n', 'f', 'i', 'g']
    let d : Disk := ⟨withKept config (withIgnored .empty), []⟩
    ∃ files rules, filesOf d ⟨[], []⟩ = .ok files ∧ [fileName] ∈ files ∧
      [config, fileName] ∈ files ∧
      load d ⟨[], []⟩ = .ok rules ∧ ¬LinesPrecede d ⟨[], []⟩ [fileName] [config, fileName] ∧
      rules.isIgnored (Path.joinNames [config, ['k', 'e', 'e', 'p', '.', 't', 'm', 'p']]) false =
        true := by
  intro config d
  have hname : Path.namesBefore [config, fileName] [fileName] = true := by
    decide
  have hfiles : filesOf d ⟨[], []⟩ = .ok [[config, fileName], [fileName]] := by
    show Except.ok (Path.sortNames [[config, fileName], [fileName]]) = _
    rw [Path.sortNames_eq_self (by simp; decide)]
  have hlines : ∃ lines rules, linesOf d ⟨[], []⟩ = .ok lines ∧ ofLines lines = .ok rules ∧
      rules.isIgnored (Path.joinNames [config, ['k', 'e', 'e', 'p', '.', 't', 'm', 'p']]) false =
        true := by
    unfold linesOf
    rw [hfiles]
    exact ⟨_, _, rfl, rfl, rfl⟩
  rcases hlines with ⟨lines, rules, hlines, hrules, hignored⟩
  refine ⟨_, rules, hfiles, by simp, by simp, load_eq_ok_iff.mpr ⟨lines, hlines, hrules⟩, ?_,
    hignored⟩
  intro h
  rw [h.namesBefore_eq_false] at hname
  cases hname

end IgnoreRules
end SourceAudit
