/-!
# Computations that succeed

A computation in steps succeeds if each of its steps does.

* `bind_eq_ok`, `bind_eq_error`, `toOption_bind`: two steps.
* `exists_eq_error_iff`: what fails has no value.
* `failure?`: the error of what fails.
* `mapError_eq_ok`: a failure that is told in another way.
* `foldlM_preserves`: a run of steps, each of which preserves a property.
* `exists_mapM_eq_ok`: items that are read one by one.
-/

namespace TableNotation

variable {ε α β : Type}

/-- Two steps succeed together if the first succeeds and the second does on its value. -/
theorem bind_eq_ok {x : Except ε α} {f : α → Except ε β} {b : β} :
    (x >>= f) = .ok b ↔ ∃ a, x = .ok a ∧ f a = .ok b := by
  cases x with
  | error e =>
    constructor
    · intro h
      cases h
    · rintro ⟨a, ha, _⟩
      cases ha
  | ok a =>
    constructor
    · exact fun h => ⟨a, rfl, h⟩
    · rintro ⟨b, hb, h⟩
      cases hb
      exact h

/-- Two steps fail together if the first fails, or if the second does on its value. -/
theorem bind_eq_error {x : Except ε α} {f : α → Except ε β} {e : ε} :
    (x >>= f) = .error e ↔ x = .error e ∨ ∃ a, x = .ok a ∧ f a = .error e := by
  cases x with
  | error e' =>
    constructor
    · exact fun h => .inl (congrArg Except.error (Except.error.inj h))
    · rintro (h | ⟨a, ha, _⟩)
      · exact congrArg Except.error (Except.error.inj h)
      · cases ha
  | ok a =>
    constructor
    · exact fun h => .inr ⟨a, rfl, h⟩
    · rintro (h | ⟨b, hb, h⟩)
      · cases h
      · cases hb
        exact h

/-- A computation fails if it has no value. -/
theorem exists_eq_error_iff {x : Except ε α} : (∃ e, x = .error e) ↔ ∀ a, x ≠ .ok a := by
  cases x with
  | error e => exact ⟨fun _ => nofun, fun _ => ⟨e, rfl⟩⟩
  | ok a =>
    constructor
    · rintro ⟨e, h⟩
      cases h
    · exact fun h => absurd rfl (h a)

/-- The error of a computation, if it fails. -/
def failure? : Except ε α → Option ε
  | .ok _ => none
  | .error e => some e

theorem failure?_eq_some_iff {x : Except ε α} {e : ε} : failure? x = some e ↔ x = .error e := by
  cases x <;> simp [failure?]

theorem failure?_eq_none_iff {x : Except ε α} : failure? x = none ↔ ∃ a, x = .ok a := by
  cases x <;> simp [failure?]

/-- If the second step cannot fail, two steps fail as the first one does. -/
theorem failure?_bind {x : Except ε α} {f : α → Except ε β}
    (h : ∀ a, x = .ok a → ∃ b, f a = .ok b) : failure? (x >>= f) = failure? x := by
  cases x with
  | error e => rfl
  | ok a => exact failure?_eq_none_iff.2 (h a rfl)

/-- What two steps come to, all failures being alike. -/
theorem toOption_bind (x : Except ε α) (f : α → Except ε β) :
    (x >>= f).toOption = x.toOption.bind fun a => (f a).toOption := by
  cases x <;> rfl

/-- Telling a failure in another way changes no success. -/
theorem mapError_eq_ok {ε' : Type} {x : Except ε α} {f : ε → ε'} {a : α} :
    x.mapError f = .ok a ↔ x = .ok a := by
  cases x with
  | error e => exact ⟨nofun, nofun⟩
  | ok b =>
    exact ⟨fun h => congrArg Except.ok (Except.ok.inj h),
      fun h => congrArg Except.ok (Except.ok.inj h)⟩

/-- What each step preserves holds after a run that succeeds. -/
theorem foldlM_preserves {f : β → α → Except ε β} {P : β → Prop} {steps : List α}
    (hstep : ∀ a ∈ steps, ∀ b next, f b a = .ok next → P b → P next) {first last : β}
    (h : steps.foldlM f first = .ok last) (hfirst : P first) : P last := by
  induction steps generalizing first with
  | nil =>
    obtain rfl := Except.ok.inj h
    exact hfirst
  | cons a rest ih =>
    rw [List.foldlM_cons] at h
    obtain ⟨next, hnext, hrest⟩ := bind_eq_ok.1 h
    obtain ⟨hhead, htail⟩ := List.forall_mem_cons.1 hstep
    exact ih htail hrest (hhead first next hnext hfirst)

/-- A list is read if each of its items is. -/
theorem exists_mapM_eq_ok {f : α → Except ε β} {xs : List α} :
    (∃ ys, xs.mapM f = .ok ys) ↔ ∀ x ∈ xs, ∃ y, f x = .ok y := by
  induction xs with
  | nil => exact ⟨fun _ _ hx => absurd hx List.not_mem_nil, fun _ => ⟨[], rfl⟩⟩
  | cons x rest ih =>
    rw [List.forall_mem_cons, ← ih]
    constructor
    · rintro ⟨ys, h⟩
      rw [List.mapM_cons] at h
      obtain ⟨y, hy, h⟩ := bind_eq_ok.1 h
      obtain ⟨more, hmore, _⟩ := bind_eq_ok.1 h
      exact ⟨⟨y, hy⟩, more, hmore⟩
    · rintro ⟨⟨y, hy⟩, more, hmore⟩
      exact ⟨y :: more, by rw [List.mapM_cons, hy, hmore]; rfl⟩

/-- A list is read in the same way by another reader who reads all items so. -/
theorem mapM_eq_ok_of_imp {f g : α → Except ε β} (himp : ∀ x y, f x = .ok y → g x = .ok y)
    {xs : List α} {ys : List β} (h : xs.mapM f = .ok ys) : xs.mapM g = .ok ys := by
  induction xs generalizing ys with
  | nil => exact h
  | cons x rest ih =>
    rw [List.mapM_cons] at h
    obtain ⟨y, hy, h⟩ := bind_eq_ok.1 h
    obtain ⟨more, hmore, h⟩ := bind_eq_ok.1 h
    rw [List.mapM_cons, himp x y hy, ih hmore]
    exact h

end TableNotation
