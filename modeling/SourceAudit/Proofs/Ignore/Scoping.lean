import SourceAudit.Proofs.Ignore.Relocation

/-!
# Scoped lines

## The meaning of a line below its directory

The line of an ignore file, put below the directory of the file, makes a rule that hits a path
exactly when the rule of the line itself hits the part of the path below the directory.  The two
rules ignore or re-include alike, and one of the lines makes no rule, or is faulty, exactly when the
other is.
-/

namespace SourceAudit
namespace IgnoreRule

/-!
# Segments below a directory
-/

section Scoped

variable {names : List Text}

theorem piecesFrom_separated (forFolders : Bool) {segments : List Text} (hne : segments ≠ [])
    (hdepth : segments.head? ≠ some anyDepth) :
    piecesFrom forFolders true segments =
      (piecesFrom forFolders false segments).map fun found =>
        (.separator :: found.1, found.2) := by
  cases segments with
  | nil =>
      exact absurd rfl hne
  | cons segment rest =>
      have hsegment : segment ≠ anyDepth := by
        intro h
        exact hdepth (congrArg some h)
      by_cases hrest : rest = []
      · rw [hrest, piecesFrom_singleton, piecesFrom_singleton, if_neg hsegment, if_neg hsegment]
        cases namePiece segment <;> rfl
      · rw [piecesFrom_name forFolders true hsegment hrest,
          piecesFrom_name forFolders false hsegment hrest]
        cases namePiece segment with
        | error fault =>
            rfl
        | ok piece =>
            cases piecesFrom forFolders true rest <;> rfl

theorem pieces_names_append (hnames : IsPlainScope names) (forFolders : Bool)
    {segments : List Text} (hne : segments ≠ []) :
    pieces forFolders (names ++ segments) =
      (piecesFrom forFolders true segments).map fun found =>
        (scopedRow names found.1, found.2) := by
  have hrow := piecesFrom_names_append forFolders false hnames.ne_nil hnames.no_wildcard hne
  cases names with
  | nil =>
      exact absurd rfl hnames.ne_nil
  | cons first rest =>
      have hfirst := IsPlainScope.ne_anyDepth hnames first List.mem_cons_self
      rw [List.cons_append] at hrow ⊢
      rw [pieces_name forFolders hfirst, hrow]
      cases piecesFrom forFolders true segments <;> rfl

theorem pieces_names_depth (hnames : IsPlainScope names) (forFolders : Bool) {rest : List Text}
    (hne : rest ≠ []) (hdepth : rest.head? ≠ some anyDepth) :
    pieces forFolders (names ++ anyDepth :: rest) =
      (piecesFrom forFolders false rest).map fun found =>
        (scopedRow names (.innerDepth :: .separator :: found.1), found.2) := by
  rw [pieces_names_append hnames forFolders (by simp), piecesFrom_depth forFolders true hne,
    piecesFrom_separated forFolders hne hdepth]
  cases piecesFrom forFolders false rest <;> rfl

theorem pieces_names_name (hnames : IsPlainScope names) (forFolders : Bool)
    {segments : List Text} (hne : segments ≠ []) (hdepth : segments.head? ≠ some anyDepth) :
    pieces forFolders (names ++ segments) =
      (piecesFrom forFolders false segments).map fun found =>
        (scopedRow names (.separator :: found.1), found.2) := by
  rw [pieces_names_append hnames forFolders hne, piecesFrom_separated forFolders hne hdepth]
  cases piecesFrom forFolders false segments <;> rfl

/-- Whether a reading of segments relocates another one, or fails as it does. -/
def RelocatesReading (names : List Text) :
    Except GlobFault (List Piece × Ending) → Except GlobFault (List Piece × Ending) → Prop
  | .error fault, .error fault' => fault = fault'
  | .ok outer, .ok inner => Relocates names outer inner
  | _, _ => False

theorem relocatesReading_map {names : List Text} {reading : Except GlobFault (List Piece × Ending)}
    {outer inner : List Piece × Ending → List Piece × Ending}
    (h : ∀ found, reading = .ok found → Relocates names (outer found) (inner found)) :
    RelocatesReading names (reading.map outer) (reading.map inner) := by
  cases reading with
  | error fault =>
      exact rfl
  | ok found =>
      exact h found rfl

theorem relocatesReading_depth (hnames : IsPlainScope names) (forFolders : Bool)
    {rest : List Text} (hne : rest ≠ []) (hdepth : rest.head? ≠ some anyDepth) :
    RelocatesReading names (pieces forFolders (names ++ anyDepth :: rest))
      (pieces forFolders (anyDepth :: rest)) := by
  have hgeneral : ∀ found : List Piece × Ending,
      Relocates names (scopedRow names (.innerDepth :: .separator :: found.1), found.2)
        (.leadingDepth :: found.1, found.2) :=
    fun found => relocates_leadingDepth hnames.ne_nil found.1 found.2
  rw [pieces_names_depth hnames forFolders hne hdepth]
  by_cases hany : rest = [['*']]
  · rw [hany, pieces_depth_anyName]
    apply (hgeneral ([.anyName], .slashOrEnd)).congr hnames
    · rw [isSound_cons_iff ⟨_, rfl⟩, isSound_cons_iff ⟨_, rfl⟩, isSound_cons_iff ⟨_, rfl⟩]
    · intro path hclean
      exact hits_anyName_iff hclean
  · by_cases hanyBelow : rest = [['*'], anyDepth]
    · rw [hanyBelow, pieces_depth_anyName_depth]
      apply (hgeneral (.anyName :: (depthEnd forFolders).1, (depthEnd forFolders).2)).congr hnames
      · rw [isSound_cons_iff ⟨_, rfl⟩, isSound_cons_iff ⟨_, rfl⟩]
      · intro path hclean
        exact hits_anyName_depthEnd_iff forFolders hclean
    · rw [pieces_depth forFolders hne hany hanyBelow]
      apply relocatesReading_map
      intro found _
      exact hgeneral found

theorem relocatesReading_segments (hnames : IsPlainScope names) {forFolders : Bool}
    {segments : List Text} (hne : segments ≠ [])
    (hcollapsed : ∀ rest, segments = anyDepth :: rest → rest.head? ≠ some anyDepth)
    (hbare : segments = [anyDepth] → forFolders = false) :
    RelocatesReading names (pieces forFolders (names ++ segments))
      (pieces forFolders segments) := by
  cases segments with
  | nil =>
      exact absurd rfl hne
  | cons first rest =>
      by_cases hfirst : first = anyDepth
      · rw [hfirst] at hcollapsed hbare ⊢
        by_cases hrest : rest = []
        · rw [hrest] at hbare ⊢
          rw [hbare rfl, pieces_names_append hnames false (by simp)]
          exact relocates_anyChar hnames
        · exact relocatesReading_depth hnames forFolders hrest (hcollapsed rest rfl)
      · have hhead : (first :: rest).head? ≠ some anyDepth := by
          intro h
          exact hfirst (Option.some.inj h)
        rw [pieces_names_name hnames forFolders hne hhead, pieces_name forFolders hfirst]
        apply relocatesReading_map
        intro found _
        exact relocates_pathStart hnames.ne_nil found.1 found.2

theorem piecesFrom_empty_names (n : Nat) :
    ∃ front, piecesFrom true true (List.replicate (n + 1) [] ++ [anyDepth]) =
      .ok (front ++ [.separator, .named []], .slash) := by
  have hempty : ([] : Text) ≠ anyDepth := by
    decide
  induction n with
  | zero =>
      refine ⟨[], ?_⟩
      show piecesFrom true true ([] :: [anyDepth]) = _
      rw [piecesFrom_name true true hempty (by simp)]
      rfl
  | succ n ih =>
      rcases ih with ⟨front, hfront⟩
      refine ⟨.separator :: .named [] :: front, ?_⟩
      rw [List.replicate_succ, List.cons_append, piecesFrom_name true true hempty (by simp), hfront]
      rfl

theorem relocatesReading_empty_names (hnames : IsPlainScope names) {name : Text}
    (hname : name ≠ anyDepth) (n : Nat) :
    RelocatesReading names
      (pieces true (names ++ anyDepth :: name :: (List.replicate (n + 1) [] ++ [anyDepth])))
      (pieces true (name :: (List.replicate (n + 1) [] ++ [anyDepth]))) := by
  rcases piecesFrom_empty_names n with ⟨front, hfront⟩
  have hhead : (name :: (List.replicate (n + 1) [] ++ [anyDepth])).head? ≠ some anyDepth := by
    intro h
    exact hname (Option.some.inj h)
  have hrow : piecesFrom true false (name :: (List.replicate (n + 1) [] ++ [anyDepth])) =
      (namePiece name).map fun piece =>
        (piece :: (front ++ [.separator, .named []]), .slash) := by
    rw [piecesFrom_name true false hname (by simp), hfront]
    cases namePiece name <;> rfl
  rw [pieces_names_append hnames true (by simp), piecesFrom_depth true true (by simp),
    piecesFrom_separated true (by simp) hhead, pieces_name true hname, hrow]
  cases namePiece name with
  | error fault =>
      exact rfl
  | ok piece =>
      apply relocates_of_not_hits hnames
      · rw [isSound_scopedRow_iff, isSound_cons_iff ⟨_, rfl⟩, isSound_cons_iff ⟨_, rfl⟩]
        exact (isSound_cons_iff ⟨_, rfl⟩).symm
      · intro path hclean
        have hshape : scopedRow names
            (.innerDepth :: .separator :: piece :: (front ++ [.separator, .named []])) =
              (scopedRow names (.innerDepth :: .separator :: piece :: front)) ++
                [.separator, .named []] := by
          simp [scopedRow]
        show ¬Hits (scopedRow names _) .slash path
        rw [hshape]
        exact not_hits_empty_name _ hclean
      · intro path hclean
        exact not_hits_empty_name (.pathStart :: piece :: front) hclean

end Scoped

/-!
# Lines
-/

section Lines

variable {names : List Text} {line : Text}

/-- What a line makes of the reading of its segments. -/
def outcomeOf (line : Text) (ignores : Bool) :
    Except GlobFault (List Piece × Ending) → Except RuleFault (Option IgnoreRule)
  | .error .openSet => .ok none
  | .error .danglingEscape => .error (.invalid line)
  | .ok found =>
      match patternOf found.1 with
      | .error range => .error (.badRange range)
      | .ok body => .ok (some ⟨ignores, body, found.2⟩)

theorem outcomeOf_of_error {found : List Piece × Ending} {range : Glob.BadRange} (ignores : Bool)
    (h : patternOf found.1 = .error range) :
    outcomeOf line ignores (.ok found) = .error (.badRange range) := by
  simp only [outcomeOf, h]

theorem outcomeOf_of_ok {found : List Piece × Ending} {body : Pattern} (ignores : Bool)
    (h : patternOf found.1 = .ok body) :
    outcomeOf line ignores (.ok found) = .ok (some ⟨ignores, body, found.2⟩) := by
  simp only [outcomeOf, h]

theorem segmentsOf_ne_nil {pattern : Text} (h : pattern ≠ []) : segmentsOf pattern ≠ [] := by
  intro hnil
  unfold segmentsOf at hnil
  rw [collapse_eq_nil_iff, openEnd_eq_nil_iff] at hnil
  cases hcut : pattern.cutAt '/' with
  | nil =>
      exact Text.cutAt_ne_nil '/' pattern hcut
  | cons first rest =>
      rw [hcut] at hnil
      by_cases hfirst : first = []
      · rw [hfirst, anchor_nil_cons] at hnil
        rw [hfirst, hnil] at hcut
        exact cutAt_ne_of_ne_nil h hcut
      · by_cases hrest : rest = []
        · rw [hrest, anchor_singleton hfirst] at hnil
          by_cases hdepth : first = anyDepth
          · rw [if_pos hdepth] at hnil
            cases hnil
          · rw [if_neg hdepth] at hnil
            cases hnil
        · by_cases hslash : rest = [[]]
          · rw [hslash, anchor_folder hfirst] at hnil
            by_cases hdepth : first = anyDepth
            · rw [if_pos hdepth] at hnil
              cases hnil
            · rw [if_neg hdepth] at hnil
              cases hnil
          · rw [anchor_eq_self hfirst hrest hslash] at hnil
            cases hnil

theorem ofLine?_eq_outcomeOf (hvoid : isVoid (trimmed line) = false)
    (hpattern : (splitSign (trimmed line)).2 ≠ []) :
    ofLine? line =
      outcomeOf line (splitSign (trimmed line)).1
        (pieces (isForFolders (splitSign (trimmed line)).2)
          (segmentsOf (splitSign (trimmed line)).2)) := by
  have hsegments := segmentsOf_ne_nil hpattern
  unfold ofLine?
  rw [hvoid]
  rcases hsplit : splitSign (trimmed line) with ⟨ignores, pattern⟩
  rw [hsplit] at hsegments
  show (if (segmentsOf pattern).isEmpty = true then _ else _) = _
  rw [if_neg (by simpa using hsegments)]
  unfold outcomeOf
  rcases pieces (isForFolders pattern) (segmentsOf pattern) with (_ | _) | found
  · rfl
  · rfl
  · rfl

theorem trimmed_eq_self (hend : ∀ c ∈ line.getLast?, Text.isBlank c = false) :
    trimmed line = line := by
  unfold trimmed
  by_cases hescape : [' ', '\\'].isPrefixOf line.reverse = true
  · rw [if_pos hescape]
  · rw [if_neg hescape]
    exact Text.dropEndWhile_eq_self hend

theorem splitSign_eq (line : Text) :
    (∃ pattern, line = '!' :: pattern ∧ splitSign line = (false, pattern) ∧
      splitNegation line = (['!'], pattern)) ∨
    (line.head? ≠ some '!' ∧ splitSign line = (true, line) ∧ splitNegation line = ([], line)) := by
  cases line with
  | nil =>
      exact Or.inr ⟨by simp, rfl, rfl⟩
  | cons c rest =>
      by_cases hc : c = '!'
      · rw [hc]
        exact Or.inl ⟨rest, rfl, rfl, rfl⟩
      · right
        refine ⟨by simpa using hc, ?_, ?_⟩
        · unfold splitSign
          split
          · rename_i heq
            exact absurd (List.cons.inj heq).1 hc
          · rfl
        · unfold splitNegation
          split
          · rename_i heq
            exact absurd (List.cons.inj heq).1 hc
          · rfl

theorem isVoid_eq_false_iff (line : Text) :
    isVoid line = false ↔ line ≠ [] ∧ line.head? ≠ some '#' ∧ line ≠ ['/'] := by
  unfold isVoid
  cases line <;> simp

/-- Whether what a line becomes below a directory means there what the line itself means. -/
structure KeepsMeaning (names : List Text) (outer inner : Except RuleFault (Option IgnoreRule)) :
    Prop where
  void_iff : outer = .ok none ↔ inner = .ok none
  fault_iff : (∃ fault, outer = .error fault) ↔ ∃ fault, inner = .error fault
  ignores_eq : ∀ rule rule', outer = .ok (some rule) → inner = .ok (some rule') →
    rule.ignores = rule'.ignores
  hit_iff : ∀ rule rule', outer = .ok (some rule) → inner = .ok (some rule') →
    ∀ path, IsCleanPath path → path ≠ Path.joinNames names ++ ['/'] →
      ((rule.hit? path).isSome = true ↔
        ∃ below, below ≠ [] ∧ path = Path.joinNames names ++ '/' :: below ∧
          (rule'.hit? below).isSome = true)

theorem KeepsMeaning.of_void {outcome : Except RuleFault (Option IgnoreRule)}
    (h : outcome = .ok none) : KeepsMeaning names outcome outcome where
  void_iff := Iff.rfl
  fault_iff := Iff.rfl
  ignores_eq := by
    intro rule rule' hrule
    rw [h] at hrule
    cases hrule
  hit_iff := by
    intro rule rule' hrule
    rw [h] at hrule
    cases hrule

theorem KeepsMeaning.of_faults (fault fault' : RuleFault) :
    KeepsMeaning names (.error fault) (.error fault') where
  void_iff := by
    simp
  fault_iff := ⟨fun _ => ⟨fault', rfl⟩, fun _ => ⟨fault, rfl⟩⟩
  ignores_eq := by
    intro rule rule' hrule
    cases hrule
  hit_iff := by
    intro rule rule' hrule
    cases hrule

theorem KeepsMeaning.of_rules {rule rule' : IgnoreRule} (hignores : rule.ignores = rule'.ignores)
    (hhit : ∀ path, IsCleanPath path → path ≠ Path.joinNames names ++ ['/'] →
      ((rule.hit? path).isSome = true ↔
        ∃ below, below ≠ [] ∧ path = Path.joinNames names ++ '/' :: below ∧
          (rule'.hit? below).isSome = true)) :
    KeepsMeaning names (.ok (some rule)) (.ok (some rule')) where
  void_iff := by
    simp
  fault_iff := by
    simp
  ignores_eq := by
    intro found found' hfound hfound'
    cases hfound
    cases hfound'
    exact hignores
  hit_iff := by
    intro found found' hfound hfound'
    cases hfound
    cases hfound'
    exact hhit

theorem KeepsMeaning.of_rows {outer inner : List Piece × Ending} (h : Relocates names outer inner)
    (hfree : ∀ piece ∈ outer.1.tail, piece.isAnchor = false)
    (hfree' : ∀ piece ∈ inner.1.tail, piece.isAnchor = false) (line line' : Text)
    (ignores : Bool) :
    KeepsMeaning names (outcomeOf line ignores (.ok outer))
      (outcomeOf line' ignores (.ok inner)) := by
  have hsound := h.sound
  rw [← exists_patternOf_iff, ← exists_patternOf_iff] at hsound
  cases hbody : patternOf outer.1 with
  | error range =>
      cases hbody' : patternOf inner.1 with
      | error range' =>
          rw [outcomeOf_of_error ignores hbody, outcomeOf_of_error ignores hbody']
          exact KeepsMeaning.of_faults _ _
      | ok body' =>
          rcases hsound.mpr ⟨body', hbody'⟩ with ⟨body, hok⟩
          rw [hbody] at hok
          cases hok
  | ok body =>
      cases hbody' : patternOf inner.1 with
      | error range' =>
          rcases hsound.mp ⟨body, hbody⟩ with ⟨body', hok⟩
          rw [hbody'] at hok
          cases hok
      | ok body' =>
          rw [outcomeOf_of_ok ignores hbody, outcomeOf_of_ok ignores hbody']
          apply KeepsMeaning.of_rules
          · rfl
          · intro path hclean hpath
            rw [isSome_hit?_iff hbody hfree, h.hits path hclean hpath]
            simp only [isSome_hit?_iff hbody' hfree']

theorem KeepsMeaning.of_readings {forFolders forFolders' : Bool} {segments segments' : List Text}
    (h : RelocatesReading names (pieces forFolders segments) (pieces forFolders' segments'))
    (line line' : Text) (ignores : Bool) :
    KeepsMeaning names (outcomeOf line ignores (pieces forFolders segments))
      (outcomeOf line' ignores (pieces forFolders' segments')) := by
  cases houter : pieces forFolders segments with
  | error fault =>
      cases hinner : pieces forFolders' segments' with
      | ok inner =>
          rw [houter, hinner] at h
          cases h
      | error fault' =>
          rw [houter, hinner] at h
          have hfault : fault = fault' := h
          rw [hfault]
          cases fault' with
          | danglingEscape =>
              exact KeepsMeaning.of_faults _ _
          | openSet =>
              exact KeepsMeaning.of_void rfl
  | ok outer =>
      cases hinner : pieces forFolders' segments' with
      | error fault' =>
          rw [houter, hinner] at h
          cases h
      | ok inner =>
          rw [houter, hinner] at h
          exact KeepsMeaning.of_rows h (isAnchor_tail_of_pieces houter)
            (isAnchor_tail_of_pieces hinner) line line' ignores

/-- The segments of a pattern and of the pattern below a directory are read alike. -/
theorem relocatesReading_scopedPattern (hnames : IsPlainScope names) {pattern : Text}
    (hne : pattern ≠ []) (hslash : pattern ≠ ['/']) (hbare : ¬IsBareDepth pattern) :
    RelocatesReading names
      (pieces (isForFolders (scopedPattern (Path.joinNames names) pattern))
        (segmentsOf (scopedPattern (Path.joinNames names) pattern)))
      (pieces (isForFolders pattern) (segmentsOf pattern)) := by
  rw [isForFolders_scopedPattern hnames hne hslash]
  rcases segmentsOf_scopedPattern hnames hne hslash with
    hscoped | ⟨name, n, hname, hfolders, hown, hscoped⟩
  · rw [hscoped]
    apply relocatesReading_segments hnames (segmentsOf_ne_nil hne)
    · intro rest hrest
      exact head?_ne_anyDepth_of_collapse hrest
    · intro hdepth
      cases hfolders : isForFolders pattern with
      | false =>
          rfl
      | true =>
          exact absurd (isBareDepth_of_segmentsOf hslash hfolders hdepth) hbare
  · rw [hscoped, hown, hfolders]
    exact relocatesReading_empty_names hnames hname n

theorem scopedLine_eq_self {scope : Text}
    (h : scope = [] ∨ line.isAllBlank = true ∨ line.head? = some '#') :
    scopedLine scope line = line := by
  unfold scopedLine
  exact if_pos (by simpa [or_assoc] using h)

theorem scopedLine_eq {scope : Text} (hscope : scope ≠ []) (hblank : line.isAllBlank = false)
    (hcomment : line.head? ≠ some '#') :
    scopedLine scope line =
      (splitNegation line).1 ++ scopedPattern scope (splitNegation line).2 := by
  unfold scopedLine
  rw [if_neg (by simp [hscope, hblank, hcomment])]

theorem ofLine?_negated {pattern : Text} (hne : pattern ≠ [])
    (hend : ∀ c ∈ pattern.getLast?, Text.isBlank c = false) :
    ofLine? ('!' :: pattern) =
      outcomeOf ('!' :: pattern) false (pieces (isForFolders pattern) (segmentsOf pattern)) := by
  have htrimmed : trimmed ('!' :: pattern) = '!' :: pattern := by
    apply trimmed_eq_self
    rw [List.getLast?_cons_of_ne_nil hne]
    exact hend
  rw [ofLine?_eq_outcomeOf]
  · rw [htrimmed]
    rfl
  · rw [htrimmed, isVoid_eq_false_iff]
    simp
  · rw [htrimmed]
    exact hne

theorem ofLine?_plain {pattern : Text} (hne : pattern ≠ [])
    (hend : ∀ c ∈ pattern.getLast?, Text.isBlank c = false)
    (hhead : ∀ c ∈ pattern.head?, c ≠ '!' ∧ c ≠ '#') (hslash : pattern ≠ ['/']) :
    ofLine? pattern =
      outcomeOf pattern true (pieces (isForFolders pattern) (segmentsOf pattern)) := by
  have hsplit : splitSign pattern = (true, pattern) := by
    rcases splitSign_eq pattern with ⟨rest, rfl, _, _⟩ | ⟨_, hsplit, _⟩
    · exact absurd rfl (hhead '!' rfl).1
    · exact hsplit
  rw [ofLine?_eq_outcomeOf]
  · rw [trimmed_eq_self hend, hsplit]
  · rw [trimmed_eq_self hend, isVoid_eq_false_iff]
    refine ⟨hne, ?_, hslash⟩
    intro h
    exact (hhead '#' h).2 rfl
  · rw [trimmed_eq_self hend, hsplit]
    exact hne

theorem getLast?_scopedPattern (scope : Text) {pattern : Text} (hne : pattern ≠ []) :
    (scopedPattern scope pattern).getLast? = pattern.getLast? := by
  have hlast : ∀ front : Text, (front ++ pattern).getLast? = pattern.getLast? :=
    fun front => List.getLast?_append_of_ne_nil front hne
  unfold scopedPattern
  split
  · exact hlast _
  · split
    · exact hlast _
    · exact hlast _

theorem head?_scopedPattern {scope : Text} (hscope : scope ≠ []) (pattern : Text) :
    (scopedPattern scope pattern).head? = scope.head? := by
  rw [scopedPattern_eq_append, List.head?_append_of_ne_nil scope hscope]

theorem IsPlainScope.exists_head (hnames : IsPlainScope names) :
    ∃ c, (Path.joinNames names).head? = some c ∧ c ≠ '/' := by
  cases names with
  | nil =>
      exact absurd rfl hnames.ne_nil
  | cons name rest =>
      have hne := hnames.name_ne_nil name List.mem_cons_self
      have hslash := hnames.no_slash name List.mem_cons_self
      cases name with
      | nil =>
          exact absurd rfl hne
      | cons c more =>
          refine ⟨c, rfl, ?_⟩
          intro hc
          rw [hc] at hslash
          exact hslash List.mem_cons_self

theorem joinNames_ne_nil_of_isPlainScope (hnames : IsPlainScope names) :
    Path.joinNames names ≠ [] := by
  rcases IsPlainScope.exists_head hnames with ⟨first, hfirst, _⟩
  intro hnil
  rw [hnil] at hfirst
  cases hfirst

theorem head?_scopedPattern_joinNames (hnames : IsPlainScope names) (pattern : Text) :
    ∃ c, (scopedPattern (Path.joinNames names) pattern).head? = some c ∧
      c ≠ '/' ∧ c ≠ '!' ∧ c ≠ '#' := by
  rcases IsPlainScope.exists_head hnames with ⟨c, hc, hslash⟩
  refine ⟨c, ?_, hslash, hnames.first_ne c hc⟩
  rw [head?_scopedPattern (joinNames_ne_nil_of_isPlainScope hnames)]
  exact hc

theorem ofLine?_scopedPattern (hnames : IsPlainScope names) {pattern : Text} (hne : pattern ≠ [])
    (hend : ∀ c ∈ pattern.getLast?, Text.isBlank c = false) :
    ofLine? (scopedPattern (Path.joinNames names) pattern) =
      outcomeOf (scopedPattern (Path.joinNames names) pattern) true
        (pieces (isForFolders (scopedPattern (Path.joinNames names) pattern))
          (segmentsOf (scopedPattern (Path.joinNames names) pattern))) := by
  rcases head?_scopedPattern_joinNames hnames pattern with ⟨c, hc, hslash, hsign⟩
  apply ofLine?_plain
  · intro hnil
    rw [hnil] at hc
    cases hc
  · rw [getLast?_scopedPattern _ hne]
    exact hend
  · intro x hx
    rw [hc] at hx
    rw [← Option.some.inj hx]
    exact hsign
  · intro heq
    rw [heq] at hc
    exact hslash (Option.some.inj hc).symm

theorem ofLine?_negated_scopedPattern (hnames : IsPlainScope names) {pattern : Text}
    (hne : pattern ≠ []) (hend : ∀ c ∈ pattern.getLast?, Text.isBlank c = false) :
    ofLine? ('!' :: scopedPattern (Path.joinNames names) pattern) =
      outcomeOf ('!' :: scopedPattern (Path.joinNames names) pattern) false
        (pieces (isForFolders (scopedPattern (Path.joinNames names) pattern))
          (segmentsOf (scopedPattern (Path.joinNames names) pattern))) := by
  rcases head?_scopedPattern_joinNames hnames pattern with ⟨c, hc, _⟩
  apply ofLine?_negated
  · intro hnil
    rw [hnil] at hc
    cases hc
  · rw [getLast?_scopedPattern _ hne]
    exact hend

theorem isAllBlank_eq_false (hne : line ≠ [])
    (hend : ∀ c ∈ line.getLast?, Text.isBlank c = false) : line.isAllBlank = false := by
  apply List.all_eq_false.mpr
  refine ⟨line.getLast hne, List.getLast_mem hne, ?_⟩
  rw [hend _ (List.getLast?_eq_some_getLast hne)]
  exact Bool.false_ne_true

theorem exists_readings (hnames : IsPlainScope names)
    (hend : ∀ c ∈ line.getLast?, Text.isBlank c = false)
    (hne : (splitNegation line).2 ≠ []) (hslash : (splitNegation line).2 ≠ ['/'])
    (hcomment : line.head? ≠ some '#') :
    ∃ line' ignores,
      ofLine? (scopedLine (Path.joinNames names) line) =
        outcomeOf line' ignores
          (pieces (isForFolders (scopedPattern (Path.joinNames names) (splitNegation line).2))
            (segmentsOf (scopedPattern (Path.joinNames names) (splitNegation line).2))) ∧
      ofLine? line =
        outcomeOf line ignores
          (pieces (isForFolders (splitNegation line).2) (segmentsOf (splitNegation line).2)) := by
  have hline : line ≠ [] := by
    intro hnil
    rw [hnil] at hne
    exact hne rfl
  rw [scopedLine_eq (joinNames_ne_nil_of_isPlainScope hnames) (isAllBlank_eq_false hline hend)
    hcomment]
  rcases splitSign_eq line with ⟨pattern, rfl, _, hsplit⟩ | ⟨hhead, _, hsplit⟩
  · rw [hsplit] at hne ⊢
    have hlast : ∀ c ∈ pattern.getLast?, Text.isBlank c = false := by
      rw [← List.getLast?_cons_of_ne_nil hne]
      exact hend
    refine ⟨'!' :: scopedPattern (Path.joinNames names) pattern, false, ?_, ?_⟩
    · exact ofLine?_negated_scopedPattern hnames hne hlast
    · exact ofLine?_negated hne hlast
  · rw [hsplit] at hne hslash ⊢
    have hownHead : ∀ c ∈ line.head?, c ≠ '!' ∧ c ≠ '#' := by
      intro c hc
      constructor
      · intro heq
        exact hhead (by rw [hc, heq])
      · intro heq
        exact hcomment (by rw [hc, heq])
    refine ⟨scopedPattern (Path.joinNames names) line, true, ?_, ?_⟩
    · exact ofLine?_scopedPattern hnames hne hend
    · exact ofLine?_plain hne hend hownHead hslash

/-- A line of an ignore file means below its directory what it means in the directory itself.  The
line ends in no blank, and its pattern is more than a slash and more than `**` with a slash
behind. -/
theorem keepsMeaning_scopedLine (hnames : IsPlainScope names)
    (hend : ∀ c ∈ line.getLast?, Text.isBlank c = false)
    (hne : (splitNegation line).2 ≠ []) (hslash : (splitNegation line).2 ≠ ['/'])
    (hbare : ¬IsBareDepth (splitNegation line).2) :
    KeepsMeaning names (ofLine? (scopedLine (Path.joinNames names) line)) (ofLine? line) := by
  by_cases hcomment : line.head? = some '#'
  · have hsame : scopedLine (Path.joinNames names) line = line := by
      unfold scopedLine
      rw [if_pos (by simp [hcomment])]
    rw [hsame]
    apply KeepsMeaning.of_void
    unfold ofLine?
    rw [trimmed_eq_self hend, if_pos (by simp [isVoid, hcomment])]
  · rcases exists_readings hnames hend hne hslash hcomment with ⟨line', ignores, houter, hinner⟩
    rw [houter, hinner]
    apply KeepsMeaning.of_readings
    exact relocatesReading_scopedPattern hnames hne hslash hbare

/-- A line for the directories of a name, below another directory: both lines make a rule. -/
theorem keepsMeaning_scopedLine_folder :
    ∃ outer inner,
      ofLine? (scopedLine ['p', 'k', 'g'] ['!', 'b', 'i', 'n', '/']) = .ok (some outer) ∧
      ofLine? ['!', 'b', 'i', 'n', '/'] = .ok (some inner) ∧
      KeepsMeaning [['p', 'k', 'g']] (.ok (some outer)) (.ok (some inner)) := by
  have hnames : IsPlainScope [['p', 'k', 'g']] := by
    refine ⟨by simp, by simp, by simp, by simp, ?_⟩
    intro c hc
    cases hc
    decide
  have hbare : ¬IsBareDepth ['b', 'i', 'n', '/'] := by
    have hcut : Text.cutAt '/' ['b', 'i', 'n', '/'] = [['b', 'i', 'n'], []] := by
      decide
    intro h
    rcases h with ⟨n, h | h⟩
    · rw [hcut, List.replicate_succ, List.cons_append] at h
      exact absurd (List.cons.inj h).1 (by decide)
    · rw [hcut] at h
      exact absurd (List.cons.inj h).1 (by decide)
  refine ⟨_, _, rfl, rfl, ?_⟩
  have hend : ∀ c ∈ List.getLast? ['!', 'b', 'i', 'n', '/'], Text.isBlank c = false := by
    intro c hc
    cases hc
    decide
  exact keepsMeaning_scopedLine hnames hend (by decide) (by decide) hbare

theorem getLast?_line_of_isBareDepth (hbare : IsBareDepth (splitNegation line).2) :
    line.getLast? = some '/' := by
  have hlast := hbare.getLast?
  rcases splitSign_eq line with ⟨pattern, rfl, _, hsplit⟩ | ⟨_, _, hsplit⟩
  · rw [hsplit] at hlast
    rw [List.getLast?_cons, hlast]
    rfl
  · rw [hsplit] at hlast
    exact hlast

theorem head?_line_of_isBareDepth (hbare : IsBareDepth (splitNegation line).2) :
    line.head? ≠ some '#' := by
  rcases splitSign_eq line with ⟨pattern, rfl, _, _⟩ | ⟨_, _, hsplit⟩
  · simp
  · rw [hsplit] at hbare
    rcases hbare.head? with hhead | hhead
    · rw [hhead]
      decide
    · rw [hhead]
      decide

/-- A pattern of `**` only, with a slash behind, asks for a directory.  Below a directory that is
the directory itself, so the line does not keep its meaning. -/
theorem not_keepsMeaning_of_isBareDepth (hnames : IsPlainScope names)
    (hfeed : '\n' ∉ Path.joinNames names) (hbare : IsBareDepth (splitNegation line).2) :
    ¬KeepsMeaning names (ofLine? (scopedLine (Path.joinNames names) line)) (ofLine? line) := by
  have hlast := hbare.getLast?
  have hne : (splitNegation line).2 ≠ [] := by
    intro hnil
    rw [hnil] at hlast
    cases hlast
  have hend : ∀ c ∈ line.getLast?, Text.isBlank c = false := by
    rw [getLast?_line_of_isBareDepth hbare]
    intro c hc
    cases hc
    decide
  have hcomment := head?_line_of_isBareDepth hbare
  rcases exists_readings hnames hend hne hbare.ne_slash hcomment with
    ⟨line', ignores, houter, hinner⟩
  have hsegments : segmentsOf (scopedPattern (Path.joinNames names) (splitNegation line).2) =
      names ++ [anyDepth] := by
    rcases segmentsOf_scopedPattern hnames hne hbare.ne_slash with
      hscoped | ⟨name, n, hname, _, hown, _⟩
    · rw [hscoped, hbare.segmentsOf_eq]
    · rw [hbare.segmentsOf_eq] at hown
      exact absurd (List.cons.inj hown).1.symm hname
  have hscopedPieces : pieces true (names ++ [anyDepth]) = .ok (scopedRow names [], .slash) :=
    pieces_names_append hnames true (by simp)
  have hsound : ∃ body, patternOf (scopedRow names []) = .ok body := by
    rw [exists_patternOf_iff, isSound_scopedRow_iff]
    simp
  rcases hsound with ⟨body, hbody⟩
  rw [isForFolders_scopedPattern hnames hne hbare.ne_slash, hbare.isForFolders, hsegments,
    hscopedPieces, outcomeOf_of_ok ignores hbody] at houter
  rw [hbare.isForFolders, hbare.segmentsOf_eq] at hinner
  intro h
  have hclean : IsCleanPath (Path.joinNames names ++ ['/', 'a']) :=
    isCleanPath_joinNames_append hnames.ne_nil hnames.name_ne_nil hnames.no_slash hfeed
      (by decide) (by decide)
  have hother : Path.joinNames names ++ ['/', 'a'] ≠ Path.joinNames names ++ ['/'] := by
    simp
  have hscopedHit : Hits (scopedRow names []) .slash (Path.joinNames names ++ ['/', 'a']) :=
    (hits_scopedRow hnames.ne_nil).mpr ⟨[], ['/', 'a'], rfl, rfl, rfl⟩
  rw [← isSome_hit?_iff hbody (isAnchor_tail_of_pieces hscopedPieces) ignores] at hscopedHit
  rcases (h.hit_iff _ _ houter hinner _ hclean hother).mp hscopedHit with ⟨below, _, hbelow, hhit⟩
  have ha : ['a'] = below := (List.cons.inj (List.append_cancel_left hbelow)).2
  rw [← ha] at hhit
  have hfree : ∀ piece ∈ ([] : List Piece).tail, piece.isAnchor = false := by
    simp
  rcases (isSome_hit?_iff rfl hfree ignores .slash ['a']).mp hhit with
    ⟨before, t, after, hsplit, _, _, hadmits⟩
  have hmem : '/' ∈ before ++ (t ++ after) := by
    apply List.mem_append_right
    apply List.mem_append_right
    exact List.mem_of_mem_head? hadmits
  rw [← hsplit] at hmem
  simp at hmem

end Lines
end IgnoreRule
end SourceAudit
