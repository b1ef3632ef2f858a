import JobManager.Library.Mutation

/-!
# Bounded retries

An operation on a state is attempted until it ends, fails, or has spent its attempts; the
first attempt is always made.  Between two attempts the loop pauses, and a cancellation may
cut the pause short.  What the attempts do to the state is carried by an invariant over the
number of attempts made.

Main results:

- Theorem {lit}`retry_rule`: what a retried operation leaves, from what one attempt does.
-/

namespace JobManager.Retry

variable {σ ε α : Type}

/-- Outcome of one attempt of a retried operation. -/
inductive Step (ε α : Type) where
  | done (value : α)
  | retry (cause : ε)

/-- How a retry loop reports that it was cancelled and that its attempts are spent. -/
structure Reports (ε : Type) where
  fromCancellation : ε
  fromSpentAttempts : ε → ε

/-- Attempts from the given one on, with so many left after it. -/
def retryFrom (reports : Reports ε) (isPauseCancelled : Nat → Bool)
    (handler : Nat → Mutation σ ε (Step ε α)) : Nat → Nat → Mutation σ ε α
  | attempt, left => fun s =>
      match handler attempt s with
      | (.error e, s') => (.error e, s')
      | (.ok (.done value), s') => (.ok value, s')
      | (.ok (.retry cause), s') =>
          match left with
          | 0 => (.error (reports.fromSpentAttempts cause), s')
          | left + 1 =>
              if isPauseCancelled attempt then (.error reports.fromCancellation, s')
              else retryFrom reports isPauseCancelled handler (attempt + 1) left s'

/-- Repeat an operation until it ends or the attempts are spent; the first is always made. -/
def retry (reports : Reports ε) (maxAttempts : Nat) (isPauseCancelled : Nat → Bool)
    (handler : Nat → Mutation σ ε (Step ε α)) : Mutation σ ε α :=
  retryFrom reports isPauseCancelled handler 0 (maxAttempts - 1)

/-- Every attempt within the budget keeps the invariant if it is to be repeated, and answers
for the result however the loop ends after it. -/
structure Keeps (reports : Reports ε) (budget : Nat) (isPauseCancelled : Nat → Bool)
    (handler : Nat → Mutation σ ε (Step ε α)) (I : Nat → σ → Prop) (Q : Except ε α → σ → Prop) :
    Prop where
  error : ∀ {attempt s e s'}, attempt < budget → I attempt s →
    handler attempt s = (.error e, s') → Q (.error e) s'
  done : ∀ {attempt s value s'}, attempt < budget → I attempt s →
    handler attempt s = (.ok (.done value), s') → Q (.ok value) s'
  retry : ∀ {attempt s cause s'}, attempt < budget → I attempt s →
    handler attempt s = (.ok (.retry cause), s') →
      I (attempt + 1) s' ∧ Q (.error (reports.fromSpentAttempts cause)) s' ∧
        (isPauseCancelled attempt = true → Q (.error reports.fromCancellation) s')

variable {reports : Reports ε} {isPauseCancelled : Nat → Bool}
  {handler : Nat → Mutation σ ε (Step ε α)} {I : Nat → σ → Prop} {Q : Except ε α → σ → Prop}
  {budget : Nat}

/-- What every attempt keeps, the loop keeps from any attempt on. -/
theorem Keeps.retryFrom (hkeeps : Keeps reports budget isPauseCancelled handler I Q)
    {attempt left : Nat} (hbudget : attempt + left < budget) {s : σ} (hs : I attempt s) :
    Q (retryFrom reports isPauseCancelled handler attempt left s).1
      (retryFrom reports isPauseCancelled handler attempt left s).2 := by
  have hin : attempt < budget := by omega
  rw [Retry.retryFrom]
  beta_reduce
  rcases hattempt : handler attempt s with ⟨e | step, s'⟩
  · exact hkeeps.error hin hs hattempt
  · cases step with
    | done value => exact hkeeps.done hin hs hattempt
    | retry cause =>
        obtain ⟨hnext, hspent, hcancelled⟩ := hkeeps.retry hin hs hattempt
        cases left with
        | zero => exact hspent
        | succ left =>
            by_cases hpause : isPauseCancelled attempt = true
            · simp only [if_pos hpause]
              exact hcancelled hpause
            · simp only [if_neg hpause]
              exact hkeeps.retryFrom (by omega) hnext

/-- The rule of the loop: an invariant that holds at the start and survives every attempt that
is repeated decides what holds at the end. -/
theorem retry_rule {maxAttempts : Nat}
    (hkeeps : Keeps reports (max 1 maxAttempts) isPauseCancelled handler I Q) {s : σ} (hs : I 0 s) :
    Q (retry reports maxAttempts isPauseCancelled handler s).1
      (retry reports maxAttempts isPauseCancelled handler s).2 :=
  hkeeps.retryFrom (by omega) hs

end JobManager.Retry
