import SourceAudit.Proofs.Files.Faults

/-!
# What is written is read back

## The place of a file

A look-up that ends at a file, or at a free name, ends in a folder that the tree really has at the
names of the place.  A file that is put there changes no other name on the way: folders stay folders
with the same names, and links hold the same paths.  So the same look-up in the changed tree follows
the same names and ends at the new file.
-/

namespace SourceAudit

/-- An entry without what a folder holds. -/
def Entry.outline : Entry → Entry
  | .file bytes => .file bytes
  | .folder _ => .folder .empty
  | .link target => .link target

theorem Entry.eq_some_file_of_outline {found : Option Entry} {bytes : List UInt8}
    (h : found.map Entry.outline = some (.file bytes)) : found = some (.file bytes) := by
  rcases Option.map_eq_some_iff.mp h with ⟨entry, rfl, houtline⟩
  cases entry with
  | file bytes' =>
      cases houtline
      rfl
  | folder inside =>
      cases houtline
  | link target =>
      cases houtline

namespace Folder

def folderAt? : List Text → Folder → Option Folder
  | [], f => some f
  | name :: later, f =>
      match f.find? name with
      | some (.folder inside) => inside.folderAt? later
      | _ => none

/-- Whether a file may be put at a name of a folder in a tree: the folder is there, and the name is
free or that of a file. -/
def HasRoomFor (root : Folder) (names : List Text) (name : Text) : Prop :=
  ∃ around, root.folderAt? names = some around ∧
    ∀ entry, around.find? name = some entry → ∃ bytes, entry = .file bytes

variable {f around : Folder} {name other : Text} {names path : List Text} {entry : Entry}
  {bytes : List UInt8}

theorem find?_put_of_ne (h : other ≠ name) (f : Folder) (entry : Entry) :
    (f.put name entry).find? other = f.find? other := by
  have hcons : ∀ later : Folder, (cons name entry later).find? other = later.find? other := by
    intro later
    cases entry <;> exact if_neg h.symm
  induction f with
  | empty =>
      exact hcons .empty
  | file first bytes later ih =>
      unfold put
      split
      · rename_i hfirst
        rw [hcons]
        exact (if_neg (hfirst ▸ h.symm)).symm
      · unfold find?
        rw [ih]
  | folder first inside later _ ih =>
      unfold put
      split
      · rename_i hfirst
        rw [hcons]
        exact (if_neg (hfirst ▸ h.symm)).symm
      · unfold find?
        rw [ih]
  | link first target later ih =>
      unfold put
      split
      · rename_i hfirst
        rw [hcons]
        exact (if_neg (hfirst ▸ h.symm)).symm
      · unfold find?
        rw [ih]

theorem exists_of_folderAt?_cons (h : f.folderAt? (name :: names) = some around) :
    ∃ inside, f.find? name = some (.folder inside) ∧ inside.folderAt? names = some around := by
  unfold folderAt? at h
  split at h
  · rename_i inside hfind
    exact ⟨inside, hfind, h⟩
  · cases h

theorem folderAt?_cons {inside : Folder} (h : f.find? name = some (.folder inside)) :
    f.folderAt? (name :: names) = inside.folderAt? names := by
  rw [folderAt?, h]

theorem folderAt?_append (h : f.folderAt? names = some around) :
    f.folderAt? (names ++ path) = around.folderAt? path := by
  induction names generalizing f with
  | nil =>
      cases h
      rfl
  | cons first rest ih =>
      rcases exists_of_folderAt?_cons h with ⟨inside, hfind, hrest⟩
      exact (folderAt?_cons hfind).trans (ih hrest)

/-- A file that is put into a tree is the only change that a look-up can meet. -/
theorem find?_putAt (bytes : List UInt8) (hroom : f.HasRoomFor names name) {before : Folder}
    (h : f.folderAt? path = some before) :
    ∃ after, (f.putAt name (.file bytes) names).folderAt? path = some after ∧
      ∀ other, (after.find? other).map Entry.outline =
        if path = names ∧ other = name then some (.file bytes)
        else (before.find? other).map Entry.outline := by
  -- The path and the names of the file go the same way up to the first name in which they differ.
  induction names generalizing f path with
  | nil =>
      rcases hroom with ⟨_, hroot, hfree⟩
      cases hroot
      cases path with
      | nil =>
          cases h
          refine ⟨_, rfl, ?_⟩
          intro other
          by_cases hother : other = name
          · rw [if_pos ⟨rfl, hother⟩, hother, putAt, find?_put_self]
            rfl
          · rw [if_neg fun hboth => hother hboth.2, putAt, find?_put_of_ne hother]
      | cons first rest =>
          rcases exists_of_folderAt?_cons h with ⟨inside, hfind, hrest⟩
          have hfirst : first ≠ name := by
            intro heq
            rcases hfree _ (heq ▸ hfind) with ⟨_, hfile⟩
            cases hfile
          refine ⟨before, ?_, ?_⟩
          · rw [putAt, folderAt?_cons ((find?_put_of_ne hfirst _ _).trans hfind)]
            exact hrest
          · intro other
            exact (if_neg (by simp)).symm
  | cons step steps ih =>
      rcases hroom with ⟨around, hroot, hfree⟩
      rcases exists_of_folderAt?_cons hroot with ⟨inside, hstep, hsteps⟩
      have hput : f.putAt name (.file bytes) (step :: steps) =
          f.put step (.folder (inside.putAt name (.file bytes) steps)) := by
        rw [putAt, hstep]
      rw [hput]
      cases path with
      | nil =>
          cases h
          refine ⟨_, rfl, ?_⟩
          intro other
          rw [if_neg (by simp)]
          by_cases hother : other = step
          · rw [hother, find?_put_self, hstep]
            rfl
          · rw [find?_put_of_ne hother]
      | cons first rest =>
          rcases exists_of_folderAt?_cons h with ⟨inside', hfind, hrest⟩
          by_cases hfirst : first = step
          · subst hfirst
            cases hstep.symm.trans hfind
            rcases ih ⟨around, hsteps, hfree⟩ hrest with ⟨after, hafter, hsame⟩
            refine ⟨after, (folderAt?_cons (find?_put_self _ _ _)).trans hafter, ?_⟩
            intro other
            rw [hsame other]
            simp
          · refine ⟨before, ?_, ?_⟩
            · exact (folderAt?_cons ((find?_put_of_ne hfirst _ _).trans hfind)).trans hrest
            · intro other
              exact (if_neg fun hboth => hfirst (List.cons.inj hboth.1).1).symm

end Folder

/-!
# Places that a tree has
-/

namespace Place

/-- Whether a trail gives the folders that its tree has at the names of the trail. -/
def IsTrailIn (root : Folder) : List (Text × Folder) → Prop
  | [] => True
  | (name, inside) :: around =>
      root.folderAt? ((around.map (·.1)).reverse ++ [name]) = some inside ∧ IsTrailIn root around

def IsIn (p : Place) (root : Folder) : Prop :=
  p.root = root ∧ IsTrailIn root p.trail

variable {p q : Place} {names : List Text} {name : Text} {root inside : Folder}

theorem IsIn.folderAt?_names (h : p.IsIn root) : root.folderAt? p.names = some p.current := by
  rcases p with ⟨_, _ | ⟨⟨name, inside⟩, around⟩⟩
  · cases h.1
    rfl
  · rw [Place.names, List.map_cons, List.reverse_cons]
    exact h.2.1

theorem names_enter (p : Place) (name : Text) (inside : Folder) :
    (p.enter name inside).names = p.names ++ [name] :=
  List.reverse_cons

theorem IsIn.enter (h : p.IsIn root) (hfind : p.current.find? name = some (.folder inside)) :
    (p.enter name inside).IsIn root := by
  refine ⟨h.1, ?_, h.2⟩
  show root.folderAt? (p.names ++ [name]) = some inside
  rw [Folder.folderAt?_append h.folderAt?_names, Folder.folderAt?_cons hfind]
  rfl

theorem IsIn.parent (h : p.IsIn root) : p.parent.IsIn root := by
  refine ⟨h.1, ?_⟩
  rcases p with ⟨_, _ | ⟨first, around⟩⟩
  · trivial
  · exact h.2.2

theorem IsIn.startOf (h : p.IsIn root) (target : Text) : (p.startOf target).IsIn root := by
  unfold Place.startOf
  split
  · exact ⟨h.1, trivial⟩
  · exact h

/-!
# Names that are followed
-/

def IsLookedUp (name : Text) : Prop :=
  ¬(name = [] ∨ name = ['.']) ∧ name ≠ ['.', '.'] ∧ ¬nameLimit < byteSize name

/-- Names that lead from a place to a stop. -/
inductive Leads : Place → List Text → Stop → Prop where
  | here (p : Place) : Leads p [] (.found (.folder p))
  | stay {p : Place} {name : Text} {later : List Text} {stop : Stop}
      (hname : name = [] ∨ name = ['.']) (h : Leads p later stop) : Leads p (name :: later) stop
  | up {p : Place} {later : List Text} {stop : Stop} (h : Leads p.parent later stop) :
      Leads p (['.', '.'] :: later) stop
  | enter {p : Place} {name : Text} {inside : Folder} {later : List Text} {stop : Stop}
      (hname : IsLookedUp name) (hfind : p.current.find? name = some (.folder inside))
      (h : Leads (p.enter name inside) later stop) : Leads p (name :: later) stop
  | file {p : Place} {name : Text} {bytes : List UInt8}
      (hname : IsLookedUp name) (hfind : p.current.find? name = some (.file bytes)) :
      Leads p [name] (.found (.file p name bytes))
  | link {p : Place} {name target : Text} (later : List Text)
      (hname : IsLookedUp name) (hfind : p.current.find? name = some (.link target)) :
      Leads p (name :: later) (.atLink p target later)
  | absent {p : Place} {name : Text}
      (hname : IsLookedUp name) (hfind : p.current.find? name = none) :
      Leads p [name] (.found (.absent p name))

theorem leads_of_follow {stop : Stop} (h : p.follow names = .ok stop) : Leads p names stop := by
  induction names generalizing p with
  | nil =>
      cases h
      exact .here p
  | cons name later ih =>
      rw [follow] at h
      by_cases hskip : name = [] ∨ name = ['.']
      · rw [if_pos hskip] at h
        exact .stay hskip (ih h)
      · rw [if_neg hskip] at h
        by_cases hup : name = ['.', '.']
        · rw [if_pos hup] at h
          subst hup
          exact .up (ih h)
        · rw [if_neg hup] at h
          by_cases hlong : nameLimit < byteSize name
          · rw [if_pos hlong] at h
            cases h
          · rw [if_neg hlong] at h
            have hname : IsLookedUp name := ⟨hskip, hup, hlong⟩
            split at h
            · rename_i hfind
              exact .enter hname hfind (ih h)
            · rename_i hfind
              split at h
              · rename_i hlater
                cases h
                rw [List.isEmpty_iff.mp hlater]
                exact .file hname hfind
              · cases h
            · rename_i hfind
              cases h
              exact .link later hname hfind
            · rename_i hfind
              split at h
              · rename_i hlater
                cases h
                rw [List.isEmpty_iff.mp hlater]
                exact .absent hname hfind
              · cases h

theorem follow_cons_of_isLookedUp (h : IsLookedUp name) (later : List Text) :
    p.follow (name :: later) =
      match p.current.find? name with
      | some (.folder inside) => (p.enter name inside).follow later
      | some (.file bytes) =>
          if later.isEmpty then .ok (.found (.file p name bytes)) else .error .notFolder
      | some (.link target) => .ok (.atLink p target later)
      | none => if later.isEmpty then .ok (.found (.absent p name)) else .error .missing := by
  rw [follow, if_neg h.1, if_neg h.2.1]
  exact if_neg h.2.2

theorem Leads.follow {stop : Stop} (h : Leads p names stop) : p.follow names = .ok stop := by
  induction h with
  | here p =>
      rfl
  | stay hname _ ih =>
      rw [Place.follow, if_pos hname]
      exact ih
  | up _ ih =>
      rw [Place.follow, if_neg (by decide), if_pos rfl]
      exact ih
  | enter hname hfind _ ih =>
      rw [follow_cons_of_isLookedUp hname, hfind]
      exact ih
  | file hname hfind =>
      rw [follow_cons_of_isLookedUp hname, hfind]
      rfl
  | link later hname hfind =>
      rw [follow_cons_of_isLookedUp hname, hfind]
  | absent hname hfind =>
      rw [follow_cons_of_isLookedUp hname, hfind]
      rfl

end Place

/-!
# Where a look-up ends
-/

def Found.IsIn (root : Folder) : Found → Prop
  | .folder place => place.IsIn root
  | .file place name bytes => place.IsIn root ∧ place.current.find? name = some (.file bytes)
  | .absent place name => place.IsIn root ∧ place.current.find? name = none

def Stop.IsIn (root : Folder) : Stop → Prop
  | .found what => what.IsIn root
  | .atLink place _ _ => place.IsIn root

def Found.EndsAt (names : List Text) (name : Text) : Found → Prop
  | .folder _ => False
  | .file place last _ => place.names = names ∧ last = name
  | .absent place last => place.names = names ∧ last = name

theorem Found.IsIn.hasRoomFor {root : Folder} {what : Found} {names : List Text} {name : Text}
    (h : what.IsIn root) (hends : what.EndsAt names name) : root.HasRoomFor names name := by
  cases what with
  | folder place =>
      exact hends.elim
  | file place last bytes =>
      rcases hends with ⟨rfl, rfl⟩
      refine ⟨_, h.1.folderAt?_names, ?_⟩
      intro entry hentry
      exact ⟨bytes, Option.some.inj (hentry.symm.trans h.2)⟩
  | absent place last =>
      rcases hends with ⟨rfl, rfl⟩
      refine ⟨_, h.1.folderAt?_names, ?_⟩
      intro entry hentry
      cases hentry.symm.trans h.2

namespace Place

variable {p q : Place} {names : List Text} {root : Folder}

theorem IsIn.of_leads {stop : Stop} (hp : p.IsIn root) (h : Leads p names stop) :
    stop.IsIn root := by
  induction h with
  | here p =>
      exact hp
  | stay _ _ ih =>
      exact ih hp
  | up _ ih =>
      exact ih hp.parent
  | enter _ hfind _ ih =>
      exact ih (hp.enter hfind)
  | file _ hfind =>
      exact ⟨hp, hfind⟩
  | link later _ hfind =>
      exact hp
  | absent _ hfind =>
      exact ⟨hp, hfind⟩

/-- Names that lead from a place to what is found, through links.  The number of links that may be
followed, and the number of those that are left, stand with them. -/
inductive Reaches : Nat → Place → List Text → Found → Nat → Prop where
  | here {p : Place} {names : List Text} {what : Found} (links : Nat)
      (h : Leads p names (.found what)) : Reaches links p names what links
  | link {p q : Place} {names later : List Text} {target : Text} {what : Found} {links left : Nat}
      (h : Leads p names (.atLink q target later))
      (hrest : Reaches links (q.startOf target) (target.cutAt '/' ++ later) what left) :
      Reaches (links + 1) p names what left

theorem reaches_of_resolve {links left : Nat} {what : Found}
    (h : p.resolve links names = .ok (what, left)) : Reaches links p names what left := by
  induction links generalizing p names with
  | zero =>
      unfold resolve at h
      cases hfollow : p.follow names with
      | error fault =>
          rw [hfollow] at h
          cases h
      | ok stop =>
          rw [hfollow] at h
          cases stop with
          | found what' =>
              cases h
              exact .here 0 (leads_of_follow hfollow)
          | atLink q target later =>
              cases h
  | succ links ih =>
      unfold resolve at h
      cases hfollow : p.follow names with
      | error fault =>
          rw [hfollow] at h
          cases h
      | ok stop =>
          rw [hfollow] at h
          cases stop with
          | found what' =>
              cases h
              exact .here _ (leads_of_follow hfollow)
          | atLink q target later =>
              exact .link (leads_of_follow hfollow) (ih h)

theorem Reaches.resolve {links left : Nat} {what : Found} (h : Reaches links p names what left) :
    p.resolve links names = .ok (what, left) := by
  induction h with
  | here links h =>
      rw [Place.resolve.eq_def]
      dsimp only
      rw [h.follow]
  | link h _ ih =>
      rw [Place.resolve, h.follow]
      exact ih

theorem IsIn.of_reaches {links left : Nat} {what : Found} (hp : p.IsIn root)
    (h : Reaches links p names what left) : what.IsIn root := by
  induction h with
  | here _ h =>
      exact hp.of_leads h
  | link h _ ih =>
      have hlink := hp.of_leads h
      exact ih (IsIn.startOf hlink _)

end Place

/-!
# The same look-up in the changed tree
-/

/-- Whether two places have the same names, one in each of two trees. -/
structure Place.AreTwins (root root' : Folder) (p q : Place) : Prop where
  isIn : p.IsIn root
  isIn' : q.IsIn root'
  names : q.names = p.names

namespace Place.AreTwins

variable {root root' inside inside' : Folder} {p q : Place} {name : Text}

theorem enter (h : AreTwins root root' p q) (hfind : p.current.find? name = some (.folder inside))
    (hfind' : q.current.find? name = some (.folder inside')) :
    AreTwins root root' (p.enter name inside) (q.enter name inside') := by
  refine ⟨h.isIn.enter hfind, h.isIn'.enter hfind', ?_⟩
  rw [names_enter, names_enter, h.names]

theorem parent (h : AreTwins root root' p q) : AreTwins root root' p.parent q.parent := by
  refine ⟨h.isIn.parent, h.isIn'.parent, ?_⟩
  have hdrop : ∀ place : Place, place.parent.names = place.names.dropLast := by
    intro place
    simp [Place.names, Place.parent, List.dropLast_reverse]
  rw [hdrop, hdrop, h.names]

theorem startOf (h : AreTwins root root' p q) (target : Text) :
    AreTwins root root' (p.startOf target) (q.startOf target) := by
  refine ⟨h.isIn.startOf target, h.isIn'.startOf target, ?_⟩
  unfold Place.startOf
  split
  · rfl
  · exact h.names

end Place.AreTwins

namespace Place

variable {root : Folder} {p q : Place} {names path : List Text} {name : Text}
  {bytes : List UInt8}

abbrev AreTwinsBut (root : Folder) (names : List Text) (name : Text) (bytes : List UInt8)
    (p q : Place) : Prop :=
  AreTwins root (root.putAt name (.file bytes) names) p q

/-- Whether a stop becomes another one where a file is put at a place: a look-up that ended there
ends at the file, and a link stays. -/
def Becomes (root : Folder) (names : List Text) (name : Text) (bytes : List UInt8) :
    Stop → Stop → Prop
  | .found what, stop' =>
      what.EndsAt names name → ∃ place, stop' = .found (.file place name bytes)
  | .atLink q target later, stop' =>
      ∃ q', AreTwinsBut root names name bytes q q' ∧ stop' = .atLink q' target later

theorem AreTwins.find? (hroom : root.HasRoomFor names name)
    (h : AreTwinsBut root names name bytes p q) (other : Text) :
    (q.current.find? other).map Entry.outline =
      if p.names = names ∧ other = name then some (.file bytes)
      else (p.current.find? other).map Entry.outline := by
  rcases Folder.find?_putAt bytes hroom h.isIn.folderAt?_names with
    ⟨after, hafter, hfind⟩
  have hcurrent := h.isIn'.folderAt?_names
  rw [h.names, hafter] at hcurrent
  cases hcurrent
  exact hfind other

theorem AreTwins.find?_of_ne_file (hroom : root.HasRoomFor names name)
    (h : AreTwinsBut root names name bytes p q) {other : Text} {entry : Entry}
    (hfind : p.current.find? other = some entry) (hentry : ∀ bytes, entry ≠ .file bytes) :
    (q.current.find? other).map Entry.outline = some entry.outline := by
  rw [h.find? hroom, if_neg, hfind]
  · rfl
  · rintro ⟨hnames, rfl⟩
    rcases hroom with ⟨around, haround, hfree⟩
    rw [← hnames, h.isIn.folderAt?_names] at haround
    cases haround
    rcases hfree _ hfind with ⟨bytes, heq⟩
    exact hentry bytes heq

theorem AreTwins.exists_leads (hroom : root.HasRoomFor names name)
    (h : AreTwinsBut root names name bytes p q) {stop : Stop} (hleads : Leads p path stop) :
    ∃ stop', Leads q path stop' ∧ Becomes root names name bytes stop stop' := by
  induction hleads generalizing q with
  | here p =>
      exact ⟨_, .here q, False.elim⟩
  | stay hname _ ih =>
      rcases ih h with ⟨stop', hleads', hbecomes⟩
      exact ⟨stop', .stay hname hleads', hbecomes⟩
  | up _ ih =>
      rcases ih h.parent with ⟨stop', hleads', hbecomes⟩
      exact ⟨stop', .up hleads', hbecomes⟩
  | enter hname hfind _ ih =>
      rcases Option.map_eq_some_iff.mp (h.find?_of_ne_file hroom hfind (by simp)) with
        ⟨entry, hfind', houtline⟩
      cases entry with
      | folder inside' =>
          rcases ih (h.enter hfind hfind') with ⟨stop', hleads', hbecomes⟩
          exact ⟨stop', .enter hname hfind' hleads', hbecomes⟩
      | file bytes' =>
          cases houtline
      | link target =>
          cases houtline
  -- A last name may be that of the file that is put; all other entries are as before.
  | @file p last before hname hfind =>
      have hput := h.find? hroom last
      by_cases hplace : p.names = names ∧ last = name
      · rw [if_pos hplace] at hput
        refine ⟨_, .file hname (Entry.eq_some_file_of_outline hput), ?_⟩
        intro _
        exact ⟨q, by rw [hplace.2]⟩
      · rw [if_neg hplace, hfind] at hput
        refine ⟨_, .file hname (Entry.eq_some_file_of_outline hput), ?_⟩
        intro hends
        exact absurd hends hplace
  | link later hname hfind =>
      rcases Option.map_eq_some_iff.mp (h.find?_of_ne_file hroom hfind (by simp)) with
        ⟨entry, hfind', houtline⟩
      cases entry with
      | folder inside' =>
          cases houtline
      | file bytes' =>
          cases houtline
      | link target =>
          cases houtline
          exact ⟨_, .link later hname hfind', _, h, rfl⟩
  | @absent p last hname hfind =>
      have hput := h.find? hroom last
      by_cases hplace : p.names = names ∧ last = name
      · rw [if_pos hplace] at hput
        refine ⟨_, .file hname (Entry.eq_some_file_of_outline hput), ?_⟩
        intro _
        exact ⟨q, by rw [hplace.2]⟩
      · rw [if_neg hplace, hfind] at hput
        refine ⟨_, .absent hname (Option.map_eq_none_iff.mp hput), ?_⟩
        intro hends
        exact absurd hends hplace

/-- A look-up that ends at a file, or at a free name, ends at the file that is put there. -/
theorem AreTwins.reaches (hroom : root.HasRoomFor names name)
    (h : AreTwinsBut root names name bytes p q) {links left : Nat} {what : Found}
    (hends : what.EndsAt names name) (hreaches : Reaches links p path what left) :
    ∃ place, Reaches links q path (.file place name bytes) left := by
  induction hreaches generalizing q with
  | here links hleads =>
      rcases h.exists_leads hroom hleads with ⟨stop', hleads', hbecomes⟩
      rcases hbecomes hends with ⟨place, rfl⟩
      exact ⟨place, .here links hleads'⟩
  | @link _ _ _ _ target _ _ _ hleads _ ih =>
      rcases h.exists_leads hroom hleads with ⟨stop', hleads', place', htwins, rfl⟩
      rcases ih (htwins.startOf target) hends with ⟨place, hrest⟩
      exact ⟨place, .link hleads' hrest⟩

end Place

/-!
# Writing and reading
-/

namespace Disk

variable {d written : Disk} {p : Path} {bytes : List UInt8}

/-- A file that is put where the look-up of a path ends is read at the path. -/
theorem read_putAt {what : Found} {links : Nat} {names : List Text} {name : Text}
    (h : d.resolve p = .ok (what, links)) (hends : what.EndsAt names name) :
    Disk.read { d with root := d.root.putAt name (.file bytes) names } p = .ok bytes := by
  have htop : d.top.IsIn d.root := ⟨rfl, trivial⟩
  have hlook : ∀ path, d.top.resolve linkLimit path = .ok (what, links) →
      ∃ place, (Disk.top { d with root := d.root.putAt name (.file bytes) names }).resolve
        linkLimit path = .ok (.file place name bytes, links) := by
    intro path hresolve
    have hreaches := Place.reaches_of_resolve hresolve
    have hroom := (htop.of_reaches hreaches).hasRoomFor hends
    have htwins : Place.AreTwinsBut d.root names name bytes d.top
        (Disk.top { d with root := d.root.putAt name (.file bytes) names }) :=
      ⟨htop, ⟨rfl, trivial⟩, rfl⟩
    rcases htwins.reaches hroom hends hreaches with ⟨place, hplace⟩
    exact ⟨place, hplace.resolve⟩
  have hfind := find_of_resolve h
  unfold Disk.read
  unfold Disk.find at hfind ⊢
  split at hfind
  · cases hfind
  · rename_i hnull
    rw [if_neg hnull]
    split at hfind
    · rename_i hrelative
      rw [if_pos hrelative]
      rcases hlook _ hfind with ⟨place, hplace⟩
      rw [hplace]
    · rename_i habsolute
      rw [if_neg habsolute]
      rcases hlook _ hfind with ⟨place, hplace⟩
      rw [hplace]

/-- A file that is written is read back. -/
theorem read_of_write (h : d.write p bytes = .ok written) : written.read p = .ok bytes := by
  unfold write at h
  split at h
  · rename_i hresolve
    cases h
    exact read_putAt hresolve ⟨rfl, rfl⟩
  · rename_i hresolve
    cases h
    exact read_putAt hresolve ⟨rfl, rfl⟩
  · cases h
  · cases h

theorem read_of_publish (h : d.publish p bytes = (written, none)) :
    written.read p = .ok bytes := by
  unfold publish at h
  split at h
  · cases h
  · split at h
    · cases h
    · rename_i hwrite
      cases h
      exact read_of_write hwrite

end Disk
end SourceAudit
