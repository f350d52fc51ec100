import Stencil.Outcome

/-!
# Steps that may fail

Inversion for steps that come to a value or a failure: which parts of a step have succeeded, or
which one has failed, is read off what the whole comes to. The steps of a compilation give warnings
on the way (`Outcome`), and their results are taken apart in the same manner.
-/

namespace Stencil

/-! ### Values and failures -/

section Except

variable {ε α β : Type}

/-- A step that may fail succeeds if its first part does and then its second. -/
theorem bind_eq_ok {x : Except ε α} {f : α → Except ε β} {b : β} :
    x >>= f = .ok b ↔ ∃ a, x = .ok a ∧ f a = .ok b := by
  cases x with
  | error e =>
    refine ⟨nofun, ?_⟩
    rintro ⟨_, h, -⟩
    cases h
  | ok a =>
    refine ⟨fun h => ⟨a, rfl, h⟩, ?_⟩
    rintro ⟨_, h, hf⟩
    cases h
    exact hf

/-- A step that may fail fails if its first part does, or else its second. -/
theorem bind_eq_error {x : Except ε α} {f : α → Except ε β} {e : ε} :
    x >>= f = .error e ↔ x = .error e ∨ ∃ a, x = .ok a ∧ f a = .error e := by
  cases x with
  | error e' =>
    constructor
    · intro h
      cases h
      exact .inl rfl
    · rintro (h | ⟨_, h, -⟩)
      · cases h
        rfl
      · cases h
  -- The first part has succeeded, so it is the second one that fails.
  | ok a =>
    refine ⟨fun h => .inr ⟨a, rfl, h⟩, ?_⟩
    rintro (h | ⟨_, h, hf⟩)
    · cases h
    · cases h
      exact hf

/-- What a value is turned into is there exactly if the value is. -/
theorem map_eq_ok {x : Except ε α} {f : α → β} {b : β} :
    x.map f = .ok b ↔ ∃ a, x = .ok a ∧ f a = b := by
  cases x with
  | error e =>
    refine ⟨nofun, ?_⟩
    rintro ⟨_, h, -⟩
    cases h
  | ok a =>
    refine ⟨fun h => ⟨a, rfl, Except.ok.inj h⟩, ?_⟩
    rintro ⟨_, h, rfl⟩
    cases h
    rfl

/-- Turning a value into another one adds no failure, and loses none. -/
theorem map_eq_error {x : Except ε α} {f : α → β} {e : ε} : x.map f = .error e ↔ x = .error e := by
  cases x with
  | error e' =>
    constructor
    · intro h
      cases h
      rfl
    · intro h
      cases h
      rfl
  | ok a => exact iff_of_false nofun nofun

/-- The value that is left of a step is what it came to. -/
theorem eq_ok_of_toOption {x : Except ε α} {a : α} (h : x.toOption = some a) : x = .ok a := by
  cases x with
  | error e => cases h
  | ok b => exact congrArg Except.ok (Option.some.inj h)

/-- A step that leaves a value succeeds. -/
theorem exists_ok_of_isSome {x : Except ε α} (h : x.toOption.isSome = true) :
    ∃ a, x = .ok a := by
  obtain ⟨a, ha⟩ := Option.isSome_iff_exists.1 h
  exact ⟨a, eq_ok_of_toOption ha⟩

/-- A step that passes a check of its result succeeds. -/
theorem exists_ok_of_any {x : Except ε α} {check : α → Bool}
    (h : x.toOption.any check = true) : ∃ a, x = .ok a ∧ check a = true := by
  cases x with
  | error e => cases h
  | ok a => exact ⟨a, rfl, h⟩

/-- What a step comes to passes a check that is made of its result. -/
theorem of_all_ok {x : Except ε α} {check : α → Bool} (h : x.toOption.all check = true) {a : α}
    (hx : x = .ok a) : check a = true := by
  subst hx
  exact h

/-- The failure that a step came to. -/
def refusal? : Except ε α → Option ε
  | .error e => some e
  | .ok _ => none

/-- A step fails with what it refused. -/
theorem eq_error_of_refusal? {x : Except ε α} {e : ε} (h : refusal? x = some e) :
    x = .error e := by
  cases x with
  | error e' => exact congrArg _ (Option.some.inj h)
  | ok a => cases h

end Except

/-! ### Values with warnings -/

namespace Outcome

variable {α β : Type}

/-- A result without warnings goes on as it is. -/
theorem ofExcept_ok_bind (a : α) (f : α → Outcome β) : (ofExcept (.ok a) >>= f) = f a := rfl

/-- Warnings that were noted come before those of what follows. -/
theorem noted_bind (a : α × List Warning) (f : α → Outcome β) :
    (noted a >>= f) = ⟨a.2 ++ (f a.1).warnings, (f a.1).result⟩ := rfl

/-- A value comes out at the end where one comes out at each step. -/
theorem result_bind_iff {x : Outcome α} {f : α → Outcome β} {b : β} :
    (x >>= f).result = .ok b ↔ ∃ a, x.result = .ok a ∧ (f a).result = .ok b := by
  change (Outcome.bind x f).result = .ok b ↔ _
  unfold Outcome.bind
  -- Warnings are collected either way; the result is that of the last part that was reached.
  cases x.result with
  | error e => exact ⟨nofun, fun ⟨_, h, _⟩ => nomatch h⟩
  | ok a =>
    constructor
    · intro h
      exact ⟨a, rfl, h⟩
    · rintro ⟨_, ⟨⟩, h⟩
      exact h

/-- A function of the result leaves the warnings aside. -/
theorem result_bind_pure (o : Outcome α) (f : α → β) :
    (o >>= fun a => pure (f a)).result = o.result.map f := by
  change (Outcome.bind o _).result = _
  unfold Outcome.bind
  cases o.result with
  | error e => rfl
  | ok a => rfl

end Outcome

end Stencil
