import SourceAudit.Pattern.Basic

/-!
# Searching a text

## Leftmost matches

A search looks for the first place of a text at which a match begins.  A scan collects matches from
left to right: it resumes where the last match ended, so that no two of them overlap.

A scan is given by a reader: what it reads at a place, together with the place where it stops, or
nothing.  The reader of a pattern stops at its preferred end.
-/

namespace SourceAudit

/-- What can be read at a place: a value and the place behind it. -/
abbrev Reader (α : Type) := Cursor → Option (Cursor × α)

/-- The values read from left to right at places not before `resume`, on top of `found`. -/
def Reader.scanOnto (read : Reader α) (resume : Nat) (found : List α) : List Cursor → List α
  | [] => found
  | c :: later =>
      if c.pos < resume then read.scanOnto resume found later
      else
        match read c with
        | none => read.scanOnto resume found later
        | some (d, value) => read.scanOnto d.pos (value :: found) later

def Reader.scan (read : Reader α) (t : Text) : List α :=
  (read.scanOnto 0 [] (Cursor.all t)).reverse

theorem Reader.scanOnto_eq_append (read : Reader α) (resume : Nat) (found : List α)
    (places : List Cursor) :
    read.scanOnto resume found places = read.scanOnto resume [] places ++ found := by
  induction places generalizing resume found with
  | nil =>
      rfl
  | cons c later ih =>
      unfold Reader.scanOnto
      by_cases hc : c.pos < resume
      · rw [if_pos hc, if_pos hc, ih]
      · rw [if_neg hc, if_neg hc]
        cases read c with
        | none =>
            exact ih resume found
        | some next =>
            simp only
            rw [ih _ (next.2 :: found), ih _ [next.2]]
            simp

/-- The text with what is read replaced, on top of the characters already passed. -/
def Reader.replaceOnto (read : Reader Text) (resume : Nat) (passed : Text) :
    List Cursor → Text
  | [] => passed.reverse
  | c :: later =>
      if c.pos < resume then read.replaceOnto resume passed later
      else
        match read c with
        | some (d, value) =>
            read.replaceOnto d.pos (value.reverse ++ passed) later
        | none =>
            match c.rest with
            | [] => passed.reverse
            | x :: _ => read.replaceOnto resume (x :: passed) later

def Reader.replace (read : Reader Text) (t : Text) : Text :=
  read.replaceOnto 0 [] (Cursor.all t)

namespace Pattern

def end? (p : Pattern) (c : Cursor) : Option Cursor :=
  p.run c some

def beginsAt (p : Pattern) (c : Cursor) : Bool :=
  (p.end? c).isSome

def beginsText (p : Pattern) (t : Text) : Bool :=
  p.beginsAt (Cursor.start t)

/-- Whether a match begins anywhere in a text. -/
def occursIn (p : Pattern) (t : Text) : Bool :=
  (Cursor.all t).any p.beginsAt

def reader (p : Pattern) : Reader Text :=
  fun c => (p.end? c).map fun d => (d, c.upTo d)

/-- The matches of a pattern from left to right without overlap. -/
def matchesIn (p : Pattern) (t : Text) : List Text :=
  p.reader.scan t

def countIn (p : Pattern) (t : Text) : Nat :=
  (p.matchesIn t).length

theorem end?_eq_head? (p : Pattern) (c : Cursor) : p.end? c = (p.ends c).head? := by
  unfold end?
  rw [run_eq_findSome?, findSome?_some_eq_head?]

theorem beginsAt_iff (p : Pattern) (c : Cursor) :
    p.beginsAt c = true ↔ ∃ d, d ∈ p.ends c := by
  unfold beginsAt
  rw [end?_eq_head?]
  cases h : p.ends c with
  | nil =>
      simp
  | cons d rest =>
      exact ⟨fun _ => ⟨d, List.mem_cons_self⟩, fun _ => rfl⟩

theorem occursIn_iff (p : Pattern) (t : Text) :
    p.occursIn t = true ↔ ∃ c ∈ Cursor.all t, ∃ d, d ∈ p.ends c := by
  unfold occursIn
  rw [List.any_eq_true]
  constructor
  · intro h
    rcases h with ⟨c, hc, hbegins⟩
    exact ⟨c, hc, (beginsAt_iff p c).mp hbegins⟩
  · intro h
    rcases h with ⟨c, hc, hend⟩
    exact ⟨c, hc, (beginsAt_iff p c).mpr hend⟩

end Pattern
end SourceAudit
