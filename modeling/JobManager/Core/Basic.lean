import Mathlib.Algebra.Ring.Nat
import Mathlib.Data.List.Forall2
import Mathlib.Order.Defs.Unbundled
import Mathlib.Tactic.Common

/-!
# Identifiers, moments and errors

The vocabulary every later module shares.  Identifiers are opaque, so they are
natural numbers with decidable equality.  A moment counts nanoseconds from the
earliest date the source's calendar can express and a duration counts
nanoseconds; additions that may leave the range of dates stay checked, as they
are in the source.  The clock is never read inside a definition: every function
that reads it in the source takes the moment as an argument.

Main results:

- Theorem {lit}`checkedAdd_eq_some`: a checked addition that succeeds is the sum.
- Theorem {lit}`JobStatus.transitionTo_eq_ok`: the status machine assigns the
  status it was asked for or refuses.
-/

namespace JobManager

/-- Identifier of a job, a task or a worker. -/
abbrev Uuid := Nat

/-- Payload of a task. -/
abbrev Bytes := List UInt8

/-- A sequence of fallible steps succeeds exactly when each of them does. -/
theorem bind_eq_ok {ε α β : Type} {x : Except ε α} {f : α → Except ε β} {b : β} :
    (x >>= f) = .ok b ↔ ∃ a, x = .ok a ∧ f a = .ok b := by
  cases x with
  | error e =>
      constructor
      · intro h
        cases h
      · rintro ⟨a, h, -⟩
        cases h
  | ok a =>
      constructor
      · intro h
        exact ⟨a, rfl, h⟩
      · rintro ⟨a', h, hf⟩
        cases h
        exact hf

/-- A list of fallible steps succeeds exactly when each of them does. -/
theorem mapM_eq_ok {ε α β : Type} {f : α → Except ε β} :
    ∀ {xs : List α} {ys : List β},
      xs.mapM f = .ok ys ↔ List.Forall₂ (fun x y => f x = .ok y) xs ys := by
  intro xs
  induction xs with
  | nil =>
      intro ys
      rw [List.mapM_nil, List.forall₂_nil_left_iff]
      constructor
      · intro h
        cases h
        rfl
      · rintro rfl
        rfl
  | cons x xs ih =>
      intro ys
      simp only [List.mapM_cons, bind_eq_ok, ih, List.forall₂_cons_left_iff]
      constructor
      · rintro ⟨y, hy, rest, hrest, h⟩
        cases h
        exact ⟨y, rest, hy, hrest, rfl⟩
      · rintro ⟨y, rest, hy, hrest, rfl⟩
        exact ⟨y, hy, rest, hrest, rfl⟩

/-- A success is all that is left of a result. -/
theorem toOption_eq_some {ε α : Type} {x : Except ε α} {a : α} :
    x.toOption = some a ↔ x = .ok a := by
  cases x <;> simp [Except.toOption]

/-! ## Moments -/

/-- The latest moment the calendar can express, counted from the earliest one. -/
def maxMoment : Nat := 16544868105599999999999

/-- The longest duration the domain's duration type holds: `i64::MAX` milliseconds. -/
def maxDuration : Nat := (2 ^ 63 - 1) * 1000000

/-- How the readings of the workers' clocks relate: all read one clock that never runs
back, or each reads a clock of its own. -/
inductive Clocks where
  | shared
  | own
deriving DecidableEq

/-- What is known of two readings taken one after the other. -/
def Clocks.Before : Clocks → Nat → Nat → Prop
  | .shared, a, b => a ≤ b
  | .own, _, _ => True

instance (κ : Clocks) (a b : Nat) : Decidable (κ.Before a b) :=
  match κ with
  | .shared => inferInstanceAs (Decidable (a ≤ b))
  | .own => inferInstanceAs (Decidable True)

/-- What is no later comes before, whatever the clocks. -/
theorem Clocks.before_of_le {κ : Clocks} {a b : Nat} (h : a ≤ b) : κ.Before a b := by
  cases κ with
  | shared => exact h
  | own => trivial

instance (κ : Clocks) : IsPreorder Nat κ.Before where
  refl a := Clocks.before_of_le (Nat.le_refl a)
  trans a b d hab hbd := by
    cases κ with
    | shared => exact Nat.le_trans hab hbd
    | own => trivial

/-- Moment lying {lit}`d` after {lit}`t`, unless it leaves the range of dates. -/
def checkedAdd (t d : Nat) : Option Nat :=
  if t + d ≤ maxMoment then some (t + d) else none

/-- Convert a duration of the standard library, which counts in a wider range. -/
def durationFromStd (d : Nat) : Option Nat :=
  if d ≤ maxDuration then some d else none

/-- Whole milliseconds of a duration. -/
def numMilliseconds (d : Nat) : Nat := d / 1000000

/-- Duration of the given number of milliseconds. -/
def milliseconds (ms : Nat) : Nat := ms * 1000000

/-- A sum of moments is checked against the last one. -/
theorem checkedAdd_eq_some {t d r : Nat} :
    checkedAdd t d = some r ↔ t + d = r ∧ r ≤ maxMoment := by
  unfold checkedAdd
  split
  · simp only [Option.some.injEq]
    omega
  · simp only [reduceCtorEq, false_iff]
    omega

/-- Debug text of an optional moment. -/
def debugMoment : Option Nat → String
  | none => "None"
  | some t => s!"Some({t})"

/-! ## Job lifecycle state -/

/-- Job lifecycle state. -/
inductive JobStatus where
  | started
  | running
  | completed
  | failed
deriving DecidableEq

/-- Label a job status is displayed under. -/
def JobStatus.toText : JobStatus → String
  | .started => "started"
  | .running => "running"
  | .completed => "completed"
  | .failed => "failed"

/-- Errors of the job domain. -/
inductive JobError where
  | taskNotFound
  | taskWorkerMismatch
  | invalidStatusTransition (source target : JobStatus)
  | iterationDeadlock (jobCode tasks : String)
  | iterationAlreadySettled (jobCode : String)
  | other (message : String)
deriving DecidableEq

/-- Display text of a domain error. -/
def JobError.toText : JobError → String
  | .taskNotFound => "task not found"
  | .taskWorkerMismatch => "task worker mismatch"
  | .invalidStatusTransition source target =>
      s!"invalid job status transition from {source.toText} to {target.toText}"
  | .iterationDeadlock jobCode tasks =>
      s!"job '{jobCode}' iteration cannot progress: blocked tasks with unmet dependencies ({tasks})"
  | .iterationAlreadySettled jobCode => s!"job '{jobCode}' iteration is already settled"
  | .other message => message

/-- Which status may follow which. -/
def JobStatus.allows : JobStatus → JobStatus → Bool
  | .started, .running | .started, .failed => true
  | .running, .running | .running, .completed | .running, .failed => true
  | .completed, .started | .failed, .started => true
  | _, _ => false

/-- Check that the transition is allowed. -/
def JobStatus.canTransitionTo (status new : JobStatus) : Except JobError Unit :=
  if status.allows new then .ok () else .error (.invalidStatusTransition status new)

/-- Assign the new status, where the transition is allowed. -/
def JobStatus.transitionTo (status new : JobStatus) : Except JobError JobStatus := do
  status.canTransitionTo new
  return new

/-- A transition goes through where it is allowed. -/
theorem JobStatus.transitionTo_eq_ok {status new r : JobStatus} :
    status.transitionTo new = .ok r ↔ status.allows new = true ∧ r = new := by
  unfold transitionTo canTransitionTo
  split <;> rename_i h
  · constructor
    · intro hr
      cases hr
      exact ⟨h, rfl⟩
    · rintro ⟨-, rfl⟩
      rfl
  · constructor
    · intro hr
      cases hr
    · rintro ⟨hallows, -⟩
      exact absurd hallows h

/-- How a job iteration ended. -/
inductive IterationVerdict where
  | completed
  | failed
deriving DecidableEq

/-- The job status a verdict closes the iteration with. -/
def IterationVerdict.toStatus : IterationVerdict → JobStatus
  | .completed => .completed
  | .failed => .failed

/-- An iteration in work may be closed under either verdict. -/
theorem JobStatus.running_allows_verdict (verdict : IterationVerdict) :
    JobStatus.running.allows verdict.toStatus = true := by
  cases verdict <;> rfl

/-- Payload size caps applied to every task of a job. -/
structure TaskLimits where
  maxInputBytes : Nat
  maxOutputBytes : Nat
deriving DecidableEq

/-- The caps a job runs under unless its description names others: 10 MiB each. -/
def TaskLimits.default : TaskLimits where
  maxInputBytes := 10 * 1024 * 1024
  maxOutputBytes := 10 * 1024 * 1024

end JobManager
