/-!
# Steps that may fail

A step behind another yields a value only if both do.  What takes some items one by one fails with
the fault of the first item that has one.
-/

namespace SourceAudit

variable {ε α β : Type} {outcome : Except ε α} {value : β}

theorem exists_of_bind_eq_ok {next : α → Except ε β} (h : outcome.bind next = .ok value) :
    ∃ found, outcome = .ok found ∧ next found = .ok value := by
  cases outcome with
  | error fault =>
      cases h
  | ok found =>
      exact ⟨found, rfl, h⟩

theorem exists_of_map_eq_ok {f : α → β} (h : outcome.map f = .ok value) :
    ∃ found, outcome = .ok found ∧ f found = value := by
  cases outcome with
  | error fault =>
      cases h
  | ok found =>
      exact ⟨found, rfl, Except.ok.inj h⟩

theorem map_eq_error_iff {f : α → β} {fault : ε} :
    outcome.map f = .error fault ↔ outcome = .error fault := by
  cases outcome with
  | error other =>
      simp [Except.map]
  | ok found =>
      simp [Except.map]

theorem bind_eq_error_iff {next : α → Except ε β} {fault : ε} :
    outcome.bind next = .error fault ↔
      outcome = .error fault ∨ ∃ found, outcome = .ok found ∧ next found = .error fault := by
  cases outcome with
  | error other =>
      simp [Except.bind]
  | ok found =>
      simp [Except.bind]

/-- Whether a fault is that of the first item for which a step fails. -/
def IsFirstFault (step : α → Except ε β) (items : List α) (fault : ε) : Prop :=
  ∃ front item back, items = front ++ item :: back ∧
    (∀ earlier ∈ front, ∃ value, step earlier = .ok value) ∧ step item = .error fault

theorem not_isFirstFault_nil {step : α → Except ε β} {fault : ε} :
    ¬IsFirstFault step [] fault := by
  intro h
  rcases h with ⟨front, item, back, hitems, _⟩
  cases front <;> cases hitems

theorem isFirstFault_cons_iff {step : α → Except ε β} {item : α} {rest : List α} {fault : ε} :
    IsFirstFault step (item :: rest) fault ↔
      step item = .error fault ∨
        (∃ value, step item = .ok value) ∧ IsFirstFault step rest fault := by
  constructor
  · intro h
    rcases h with ⟨front, first, back, hitems, hfront, hfault⟩
    cases front with
    | nil =>
        cases hitems
        exact Or.inl hfault
    | cons other front =>
        cases hitems
        refine Or.inr ⟨hfront _ List.mem_cons_self, front, first, back, rfl, ?_, hfault⟩
        intro earlier hearlier
        exact hfront earlier (List.mem_cons_of_mem _ hearlier)
  · intro h
    rcases h with hfault | ⟨hok, front, first, back, rfl, hfront, hfault⟩
    · exact ⟨[], item, rest, rfl, by simp, hfault⟩
    · refine ⟨item :: front, first, back, rfl, ?_, hfault⟩
      intro earlier hearlier
      rcases List.mem_cons.mp hearlier with rfl | hearlier
      · exact hok
      · exact hfront earlier hearlier

theorem exists_isFirstFault {step : α → Except ε β} {items : List α} {item : α} {fault : ε}
    (hitem : item ∈ items) (hfault : step item = .error fault) :
    ∃ first, IsFirstFault step items first := by
  induction items with
  | nil =>
      cases hitem
  | cons other rest ih =>
      cases hother : step other with
      | error first =>
          exact ⟨first, isFirstFault_cons_iff.mpr (Or.inl hother)⟩
      | ok value =>
          rcases List.mem_cons.mp hitem with rfl | hrest
          · rw [hother] at hfault
            cases hfault
          · rcases ih hrest with ⟨first, hfirst⟩
            exact ⟨first, isFirstFault_cons_iff.mpr (Or.inr ⟨⟨value, hother⟩, hfirst⟩)⟩

theorem eq_error_iff_isFirstFault {γ : Type} {step : α → Except ε β} {take : List α → Except ε γ}
    (hnil : ∀ fault, take [] ≠ .error fault)
    (hcons : ∀ item rest fault, take (item :: rest) = .error fault ↔
      step item = .error fault ∨ (∃ value, step item = .ok value) ∧ take rest = .error fault)
    {items : List α} {fault : ε} : take items = .error fault ↔ IsFirstFault step items fault := by
  induction items with
  | nil =>
      exact ⟨fun h => absurd h (hnil fault), fun h => absurd h not_isFirstFault_nil⟩
  | cons item rest ih =>
      rw [hcons, isFirstFault_cons_iff, ih]

end SourceAudit
