import Mathlib.Tactic.Common

/-!
# Mutations that may be refused

An operation on a mutable state: it answers or is refused, and in both cases
leaves the state as far as it had assigned it by then.  This is what a method on
a mutable reference with a fallible result does, where an early return undoes
nothing.

Main results:

- Theorem {lit}`Mutation.bind_apply`: how two operations compose.
- Theorem {lit}`Mutation.bind_eq_ok`: a sequence is accepted exactly when each of
  its operations is.
-/

namespace JobManager

/-- An operation on a state {lit}`σ` that answers with {lit}`α` or is refused with
{lit}`ε`. -/
def Mutation (σ ε α : Type) : Type := σ → Except ε α × σ

namespace Mutation

variable {σ ε α β : Type}

instance : Monad (Mutation σ ε) where
  pure a := fun s => (.ok a, s)
  bind x f := fun s =>
    match x s with
    | (.ok a, s') => f a s'
    | (.error e, s') => (.error e, s')

/-- Refuse the operation. -/
def refuse (e : ε) : Mutation σ ε α := fun s => (.error e, s)

/-- Lift a check that reads no state. -/
def ofExcept (x : Except ε α) : Mutation σ ε α := fun s => (x, s)

/-- The state as it stands. -/
def current : Mutation σ ε σ := fun s => (.ok s, s)

/-- Read from the state. -/
def read (f : σ → α) : Mutation σ ε α := fun s => (.ok (f s), s)

/-- Assign the state. -/
def write (f : σ → σ) : Mutation σ ε Unit := fun s => (.ok (), f s)

@[simp] theorem pure_apply (a : α) (s : σ) : (pure a : Mutation σ ε α) s = (.ok a, s) := rfl

@[simp] theorem ofExcept_apply (x : Except ε α) (s : σ) :
    (ofExcept x : Mutation σ ε α) s = (x, s) := rfl

@[simp] theorem read_apply (f : σ → α) (s : σ) :
    (read f : Mutation σ ε α) s = (.ok (f s), s) := rfl

@[simp] theorem write_apply (f : σ → σ) (s : σ) :
    (write f : Mutation σ ε Unit) s = (.ok (), f s) := rfl

/-- Two operations in sequence: the second runs on the state the first left, and a
refusal of the first ends both. -/
theorem bind_apply (x : Mutation σ ε α) (f : α → Mutation σ ε β) (s : σ) :
    (x >>= f) s =
      match x s with
      | (.ok a, s') => f a s'
      | (.error e, s') => (.error e, s') := rfl

/-- A sequence is accepted exactly when both of its operations are. -/
theorem bind_eq_ok {x : Mutation σ ε α} {f : α → Mutation σ ε β} {s s' : σ} {b : β} :
    (x >>= f) s = (.ok b, s') ↔ ∃ a s₁, x s = (.ok a, s₁) ∧ f a s₁ = (.ok b, s') := by
  rw [bind_apply]
  rcases x s with ⟨r, s₁⟩
  cases r with
  | error e =>
      constructor
      · intro h
        cases h
      · rintro ⟨a, s₂, h, -⟩
        cases h
  | ok a =>
      constructor
      · intro h
        exact ⟨a, s₁, rfl, h⟩
      · rintro ⟨a', s₂, h, hf⟩
        cases h
        exact hf

/-- A sequence is refused by its first operation, or by its second on the state the
first left. -/
theorem bind_eq_error {x : Mutation σ ε α} {f : α → Mutation σ ε β} {s s' : σ} {e : ε} :
    (x >>= f) s = (.error e, s') ↔
      x s = (.error e, s') ∨ ∃ a s₁, x s = (.ok a, s₁) ∧ f a s₁ = (.error e, s') := by
  rw [bind_apply]
  rcases x s with ⟨r, s₁⟩
  cases r with
  | error e' =>
      constructor
      · intro h
        exact Or.inl (by simpa using h)
      · rintro (h | ⟨a, s₂, h, -⟩)
        · simpa using h
        · cases h
  | ok a =>
      constructor
      · intro h
        exact Or.inr ⟨a, s₁, rfl, h⟩
      · rintro (h | ⟨a', s₂, h, hf⟩)
        · cases h
        · cases h
          exact hf

/-- Reading the state first hands it to what follows. -/
@[simp] theorem current_bind_apply (f : σ → Mutation σ ε β) (s : σ) :
    ((current : Mutation σ ε σ) >>= f) s = f s s := rfl

@[simp] theorem write_bind_apply (g : σ → σ) (f : Unit → Mutation σ ε β) (s : σ) :
    (write g >>= f) s = f () (g s) := rfl

/-- What follows a check runs where the check passes. -/
theorem ofExcept_bind_eq_ok {x : Except ε α} {f : α → Mutation σ ε β} {s s' : σ} {b : β} :
    ((ofExcept x : Mutation σ ε α) >>= f) s = (.ok b, s') ↔
      ∃ a, x = .ok a ∧ f a s = (.ok b, s') := by
  rw [bind_eq_ok]
  constructor
  · rintro ⟨a, s₁, h, hf⟩
    rw [ofExcept_apply, Prod.mk.injEq] at h
    obtain ⟨rfl, rfl⟩ := h
    exact ⟨a, rfl, hf⟩
  · rintro ⟨a, rfl, hf⟩
    exact ⟨a, s, rfl, hf⟩

/-! ## What a refusal leaves -/

/-- An operation that changes nothing. -/
def ReadOnly (x : Mutation σ ε α) : Prop := ∀ s, (x s).2 = s

/-- An operation that is never refused. -/
def Total (x : Mutation σ ε α) : Prop := ∀ s e s', x s ≠ (.error e, s')

/-- An operation that leaves the state as it was whenever it is refused. -/
def RefusesCleanly (x : Mutation σ ε α) : Prop :=
  ∀ s e s', x s = (.error e, s') → s' = s

/-- A check changes nothing. -/
theorem readOnly_ofExcept (x : Except ε α) : ReadOnly (ofExcept x : Mutation σ ε α) :=
  fun _ => rfl

/-- Nor does a refusal. -/
theorem readOnly_refuse (e : ε) : ReadOnly (refuse e : Mutation σ ε α) := fun _ => rfl

/-- Nor does reading the state. -/
theorem readOnly_current : ReadOnly (current : Mutation σ ε σ) := fun _ => rfl

/-- A value is never refused. -/
theorem total_pure (a : α) : Total (pure a : Mutation σ ε α) := by
  intro s e s' h
  cases h

/-- Nor is a write. -/
theorem total_write (f : σ → σ) : Total (write f : Mutation σ ε Unit) := by
  intro s e s' h
  cases h

/-- Nor is a read. -/
theorem total_read (f : σ → α) : Total (read f : Mutation σ ε α) := by
  intro s e s' h
  cases h

/-- Two operations that are never refused make one that is not. -/
theorem Total.bind {x : Mutation σ ε α} {f : α → Mutation σ ε β} (hx : Total x)
    (hf : ∀ a, Total (f a)) : Total (x >>= f) := by
  intro s e s' h
  rcases bind_eq_error.mp h with h | ⟨a, s₁, -, h⟩
  · exact hx s e s' h
  · exact hf a s₁ e s' h

/-- What changes nothing refuses cleanly. -/
theorem ReadOnly.refusesCleanly {x : Mutation σ ε α} (hx : ReadOnly x) : RefusesCleanly x := by
  intro s e s' h
  have := hx s
  rwa [h] at this

/-- And so does what is never refused. -/
theorem Total.refusesCleanly {x : Mutation σ ε α} (hx : Total x) : RefusesCleanly x :=
  fun s e s' h => absurd h (hx s e s')

/-- Checks ahead of an operation keep its refusals clean. -/
theorem RefusesCleanly.after_readOnly {x : Mutation σ ε α} {f : α → Mutation σ ε β}
    (hx : ReadOnly x) (hf : ∀ a, RefusesCleanly (f a)) : RefusesCleanly (x >>= f) := by
  intro s e s' h
  rcases bind_eq_error.mp h with h | ⟨a, s₁, hok, h⟩
  · exact hx.refusesCleanly s e s' h
  · have hs : s₁ = s := by
      have := hx s
      rwa [hok] at this
    rw [← hs]
    exact hf a s₁ e s' h

/-- What is never refused keeps the refusals of the operation ahead of it clean. -/
theorem RefusesCleanly.then_total {x : Mutation σ ε α} {f : α → Mutation σ ε β}
    (hx : RefusesCleanly x) (hf : ∀ a, Total (f a)) : RefusesCleanly (x >>= f) := by
  intro s e s' h
  rcases bind_eq_error.mp h with h | ⟨a, s₁, -, h⟩
  · exact hx s e s' h
  · exact absurd h (hf a s₁ e s')

end Mutation

end JobManager
