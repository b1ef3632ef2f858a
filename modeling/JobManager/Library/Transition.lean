import Mathlib.Order.Defs.Unbundled
import Mathlib.Tactic.Common

/-!
# Transition systems and timed runs

Two notions of execution.  A partial step function over actions reaches states
from an initial one, along steps that all meet a condition; a family of step
relations indexed by the moment a step is taken runs along moments each of which
is not before the last.  Both come with the rule that turns what one step
preserves into what a whole run preserves.

Main results:

- Theorem {lit}`ReachableUnder.invariant`: an invariant of the steps that meet the
  condition holds in every state such steps reach.
- Theorem {lit}`TimedRun.preserves`: a property that survives the passing of time
  and every step survives a timed run.
-/

namespace JobManager

/-! ## Reachability along admitted steps -/

section Reachability

variable {σ α : Type} (step : σ → α → Option σ) (admits : σ → α → Prop) (init : σ)

/-- States reached from {lit}`init` by steps that all meet the condition. -/
inductive ReachableUnder : σ → Prop
  | init : ReachableUnder init
  | step {s s' : σ} {a : α} :
      ReachableUnder s → admits s a → step s a = some s' → ReachableUnder s'

/-- States reached from {lit}`init` by any steps. -/
abbrev Reachable : σ → Prop := ReachableUnder step (fun _ _ => True) init

variable {step admits init}

/-- The invariant rule: what holds initially and survives every admitted step holds
in every state such steps reach. -/
theorem ReachableUnder.invariant {P : σ → Prop} (hinit : P init)
    (hstep : ∀ s a s', P s → admits s a → step s a = some s' → P s') {s : σ}
    (h : ReachableUnder step admits init s) : P s := by
  induction h with
  | init => exact hinit
  | step _ hadmits hs ih => exact hstep _ _ _ ih hadmits hs

/-- What is reached under one condition is reached under any weaker one. -/
theorem ReachableUnder.weaken {admits' : σ → α → Prop} (hsub : ∀ s a, admits s a → admits' s a)
    {s : σ} (h : ReachableUnder step admits init s) : ReachableUnder step admits' init s := by
  induction h with
  | init => exact .init
  | step _ hadmits hs ih => exact .step ih (hsub _ _ hadmits) hs

/-- A state reached along admitted steps is reachable. -/
theorem ReachableUnder.reachable {s : σ} (h : ReachableUnder step admits init s) :
    Reachable step init s :=
  h.weaken fun _ _ _ => trivial

/-- Run a list of actions, each of which has to meet the condition. -/
def runAdmitted (step : σ → α → Option σ) (admits : σ → α → Bool) : σ → List α → Option σ
  | s, [] => some s
  | s, a :: as => if admits s a then (step s a).bind (runAdmitted step admits · as) else none

theorem reachableUnder_of_runAdmitted {admits : σ → α → Bool} {as : List α} {s s' : σ}
    (hs : ReachableUnder step (fun s a => admits s a = true) init s)
    (h : runAdmitted step admits s as = some s') :
    ReachableUnder step (fun s a => admits s a = true) init s' := by
  induction as generalizing s with
  | nil =>
      cases h
      exact hs
  | cons a as ih =>
      rw [runAdmitted] at h
      split at h <;> rename_i hadmits
      · rw [Option.bind_eq_some_iff] at h
        obtain ⟨s₁, hs₁, h⟩ := h
        exact ih (.step hs hadmits hs₁) h
      · cases h

/-- Run a list of actions. -/
def runActions (step : σ → α → Option σ) : σ → List α → Option σ :=
  runAdmitted step fun _ _ => true

theorem reachable_of_runActions {as : List α} {s s' : σ} (hs : Reachable step init s)
    (h : runActions step s as = some s') : Reachable step init s' :=
  (reachableUnder_of_runAdmitted (hs.weaken fun _ _ _ => rfl) h).reachable

end Reachability

/-! ## Runs along moments -/

/-- A run of steps taken at moments each of which is not before the one preceding it,
from {lit}`lo` to {lit}`hi`. -/
inductive TimedRun {τ σ : Type} (before : τ → τ → Prop) (step : τ → σ → σ → Prop) :
    τ → τ → σ → σ → Prop
  | refl {lo hi : τ} {s : σ} : before lo hi → TimedRun before step lo hi s s
  | tail {lo now hi : τ} {s s' s'' : σ} :
      TimedRun before step lo now s s' → before now hi → step now s' s'' →
      TimedRun before step lo hi s s''

namespace TimedRun

variable {τ σ : Type} {before : τ → τ → Prop} {step : τ → σ → σ → Prop} {lo mid hi : τ}
  {s s' s'' : σ}

section Preorder

variable [IsPreorder τ before]

theorem le (h : TimedRun before step lo hi s s') : before lo hi := by
  induction h with
  | refl h => exact h
  | tail _ hle _ ih => exact trans_of before ih hle

theorem single {now : τ} (hstep : step now s s') : TimedRun before step now now s s' :=
  .tail (.refl (refl_of before now)) (refl_of before now) hstep

/-- A run still ends by any later moment. -/
theorem widen (h : TimedRun before step lo mid s s') (hle : before mid hi) :
    TimedRun before step lo hi s s' := by
  cases h with
  | refl h => exact .refl (trans_of before h hle)
  | tail hrun hnow hstep => exact .tail hrun (trans_of before hnow hle) hstep

/-- A run may be taken to have begun earlier. -/
theorem earlier {lo' : τ} (hle : before lo' lo) (h : TimedRun before step lo hi s s') :
    TimedRun before step lo' hi s s' := by
  induction h with
  | refl h => exact .refl (trans_of before hle h)
  | tail _ hnow hstep ih => exact .tail ih hnow hstep

theorem trans (h₁ : TimedRun before step lo mid s s') (h₂ : TimedRun before step mid hi s' s'') :
    TimedRun before step lo hi s s'' := by
  induction h₂ with
  | refl h => exact h₁.widen h
  | tail _ hnow hstep ih => exact .tail (ih h₁) hnow hstep

end Preorder

/-- A run of one family of steps is a run of any family that includes it. -/
theorem weaken {step' : τ → σ → σ → Prop}
    (hsub : ∀ now s s', step now s s' → step' now s s') (h : TimedRun before step lo hi s s') :
    TimedRun before step' lo hi s s' := by
  induction h with
  | refl h => exact .refl h
  | tail _ hnow hstep ih => exact .tail ih hnow (hsub _ _ _ hstep)

/-- A run stays one when less is known of its moments. -/
theorem relax {before' : τ → τ → Prop} (hsub : ∀ a b, before a b → before' a b)
    (h : TimedRun before step lo hi s s') : TimedRun before' step lo hi s s' := by
  induction h with
  | refl h => exact .refl (hsub _ _ h)
  | tail _ hnow hstep ih => exact .tail ih (hsub _ _ hnow) hstep

/-- The invariant rule: what survives the passing of time and every step survives a
run. -/
theorem preserves {P : τ → σ → Prop}
    (hmono : ∀ a b s, before a b → P a s → P b s)
    (hstep : ∀ now s s', step now s s' → P now s → P now s')
    (h : TimedRun before step lo hi s s') (hP : P lo s) : P hi s' := by
  induction h with
  | refl hle => exact hmono _ _ _ hle hP
  | tail _ hnow hs ih => exact hmono _ _ _ hnow (hstep _ _ _ hs (ih hP))

/-- The invariant rule for a property that does not read the clock. -/
theorem preserves_untimed {P : σ → Prop}
    (hstep : ∀ now s s', step now s s' → P s → P s')
    (h : TimedRun before step lo hi s s') (hP : P s) : P s' :=
  preserves (P := fun _ => P) (fun _ _ _ _ hp => hp) hstep h hP

/-- A run along which a property holds is a run of whatever the steps are where it does. -/
theorem strengthen {P : σ → Prop} {step' : τ → σ → σ → Prop}
    (hstep : ∀ now s s', P s → step now s s' → P s' ∧ step' now s s')
    (h : TimedRun before step lo hi s s') (hP : P s) :
    P s' ∧ TimedRun before step' lo hi s s' := by
  induction h with
  | refl h => exact ⟨hP, .refl h⟩
  | tail _ hnow hs ih =>
      obtain ⟨hmid, hrun⟩ := ih hP
      obtain ⟨hend, hs'⟩ := hstep _ _ _ hmid hs
      exact ⟨hend, .tail hrun hnow hs'⟩

end TimedRun

end JobManager
