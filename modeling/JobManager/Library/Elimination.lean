import Mathlib.Data.Finset.Card
import Mathlib.Data.Finset.Max
import Mathlib.Tactic.Common

/-!
# Orders of execution in which tasks put others out

A task waits for its dependencies.  A dependency either lets it run once it has settled,
or puts it out; a task that was put out has settled as well and may put out others.  The
tasks that run are executed in any order that respects what they wait for.  A task some
dependency puts out is put out by whichever of them settles first, and what that one was
may matter: here, whether it strikes.

Main results:

- Theorem {lit}`Precedence.mayStrike_iff`: when some order has a striking task put another
  one out.
- Theorem {lit}`Precedence.calm_iff`: when some complete order has none do so.
- Theorem {lit}`Precedence.harmful_agree_iff`: when all complete orders agree on it.
-/

namespace JobManager

/-- Tasks with what they wait for, and which dependency puts which of them out; the
dependencies rank below. -/
structure Precedence (ι : Type) where
  tasks : Finset ι
  deps : ι → List ι
  kills : ι → ι → Prop
  rank : ι → Nat
  closed : ∀ id ∈ tasks, ∀ d ∈ deps id, d ∈ tasks
  ranked : ∀ id ∈ tasks, ∀ d ∈ deps id, rank d < rank id

namespace Precedence

variable {ι : Type} (p : Precedence ι)

/-- No dependency puts the task out. -/
def Runs (id : ι) : Prop := ∀ d ∈ p.deps id, ¬ p.kills d id

/-- The task has settled once the given ones were executed: it is one of them, or a
dependency that has settled puts it out. -/
inductive SettledBy (executed : ι → Prop) : ι → Prop
  | run {id : ι} : executed id → SettledBy executed id
  | out {id d : ι} : d ∈ p.deps id → p.kills d id → SettledBy executed d →
      SettledBy executed id

/-- Everything the task waits for has settled. -/
def Enabled (order : List ι) (id : ι) : Prop :=
  ∀ d ∈ p.deps id, p.SettledBy (· ∈ order) d

/-- Orders of execution, the latest first. -/
inductive Feasible : List ι → Prop
  | nil : Feasible []
  | cons {r : ι} {order : List ι} : Feasible order → r ∈ p.tasks → p.Runs r → r ∉ order →
      p.Enabled order r → Feasible (r :: order)

/-- Every task that runs was executed. -/
def Complete (order : List ι) : Prop := ∀ r ∈ p.tasks, p.Runs r → r ∈ order

variable (strikes : ι → Prop)

/-- Executing the task puts another one out that nothing executed before has, and the task
is a striking one. -/
def Harms (order : List ι) (r : ι) : Prop :=
  strikes r ∧ ∃ x ∈ p.tasks, x ≠ r ∧ p.SettledBy (· = r) x ∧ ¬ p.SettledBy (· ∈ order) x

/-- Some task of the order harms. -/
def Harmful : List ι → Prop
  | [] => False
  | r :: order => Harmful order ∨ p.Harms strikes order r

/-- The task settles in some order that leaves {lit}`x` unsettled. -/
inductive Free (x : ι) : ι → Prop
  | run {id : ι} : id ∈ p.tasks → p.Runs id → ¬ p.SettledBy (· = id) x →
      (∀ d ∈ p.deps id, Free x d) → Free x id
  | out {id d : ι} : d ∈ p.deps id → p.kills d id → Free x d → Free x id

/-- The task settles in some order that harms nothing. -/
inductive Calm : ι → Prop
  | run {id : ι} : id ∈ p.tasks → p.Runs id → (∀ d ∈ p.deps id, Calm d) →
      (strikes id → ∀ x ∈ p.tasks, x ≠ id → p.SettledBy (· = id) x → Calm x) → Calm id
  | out {id d : ι} : d ∈ p.deps id → p.kills d id → Calm d → Calm id

/-- A striking task can be executed before anything else that puts some task out. -/
def MayStrike : Prop :=
  ∃ r ∈ p.tasks, p.Runs r ∧ strikes r ∧
    ∃ x ∈ p.tasks, x ≠ r ∧ p.SettledBy (· = r) x ∧ ∀ d ∈ p.deps r, p.Free x d

variable {p strikes}

/-! ## What has settled -/

/-- More that is executed settles more. -/
theorem SettledBy.mono {executed executed' : ι → Prop} (hsub : ∀ id, executed id → executed' id)
    {id : ι} (h : p.SettledBy executed id) : p.SettledBy executed' id := by
  induction h with
  | run h => exact .run (hsub _ h)
  | out hd hkills _ ih => exact .out hd hkills ih

/-- What has settled did so on account of one executed task. -/
theorem SettledBy.exists_single {executed : ι → Prop} {id : ι} (h : p.SettledBy executed id) :
    ∃ e, executed e ∧ p.SettledBy (· = e) id := by
  induction h with
  | @run id h => exact ⟨id, h, .run rfl⟩
  | out hd hkills _ ih =>
      obtain ⟨e, he, hsettled⟩ := ih
      exact ⟨e, he, .out hd hkills hsettled⟩

theorem SettledBy.of_single {executed : ι → Prop} {e id : ι} (he : executed e)
    (h : p.SettledBy (· = e) id) : p.SettledBy executed id :=
  h.mono fun _ heq => heq ▸ he

/-- A task that runs settles by being executed. -/
theorem SettledBy.executed_of_runs {executed : ι → Prop} {id : ι} (h : p.SettledBy executed id)
    (hruns : p.Runs id) : executed id := by
  cases h with
  | run h => exact h
  | out hd hkills _ => exact absurd hkills (hruns _ hd)

theorem settledBy_cons {order : List ι} {r id : ι} :
    p.SettledBy (· ∈ r :: order) id ↔ p.SettledBy (· = r) id ∨ p.SettledBy (· ∈ order) id := by
  constructor
  · intro h
    obtain ⟨e, he, hsettled⟩ := h.exists_single
    rcases List.mem_cons.mp he with rfl | he
    · exact Or.inl hsettled
    · exact Or.inr (hsettled.of_single he)
  · rintro (h | h)
    · exact h.of_single (List.mem_cons_self ..)
    · exact h.mono fun _ he => List.mem_cons_of_mem _ he

/-! ## Orders -/

namespace Feasible

variable {order : List ι}

theorem mem_tasks (h : p.Feasible order) : ∀ r ∈ order, r ∈ p.tasks := by
  induction h with
  | nil => simp
  | cons _ hr _ _ _ ih =>
      intro r' hr'
      rcases List.mem_cons.mp hr' with rfl | hr'
      · exact hr
      · exact ih r' hr'

theorem nodup (h : p.Feasible order) : order.Nodup := by
  induction h with
  | nil => exact List.nodup_nil
  | cons _ _ _ hnew _ ih => exact List.nodup_cons.mpr ⟨hnew, ih⟩

theorem length_le (h : p.Feasible order) : order.length ≤ p.tasks.card := by
  classical
  rw [← List.toFinset_card_of_nodup h.nodup]
  apply Finset.card_le_card
  intro r hr
  exact h.mem_tasks r (List.mem_toFinset.mp hr)

/-- An order with a property can be continued until no task keeps the property. -/
theorem exists_maximal {Q : List ι → Prop} (h : p.Feasible order) (hQ : Q order) :
    ∃ order', p.Feasible order' ∧ Q order' ∧
      ∀ r, p.Feasible (r :: order') → ¬ Q (r :: order') := by
  -- by induction on how many tasks are left
  induction hn : p.tasks.card - order.length generalizing order with
  | zero =>
      refine ⟨order, h, hQ, ?_⟩
      intro r hr _
      have hle := hr.length_le
      rw [List.length_cons] at hle
      omega
  | succ n ih =>
      by_cases hmore : ∃ r, p.Feasible (r :: order) ∧ Q (r :: order)
      · obtain ⟨r, hr, hQr⟩ := hmore
        refine ih hr hQr ?_
        rw [List.length_cons]
        omega
      · exact ⟨order, h, hQ, fun r hr hQr => hmore ⟨r, hr, hQr⟩⟩

end Feasible

/-- Where everything that runs up to a rank was executed, everything up to it has
settled. -/
theorem settledBy_of_rank_lt {order : List ι} {n : Nat}
    (hall : ∀ e ∈ p.tasks, p.Runs e → p.rank e < n → e ∈ order) :
    ∀ id ∈ p.tasks, p.rank id < n → p.SettledBy (· ∈ order) id := by
  suffices h : ∀ k id, p.rank id = k → id ∈ p.tasks → p.rank id < n →
      p.SettledBy (· ∈ order) id from fun id hid hlt => h _ id rfl hid hlt
  intro k
  induction k using Nat.strong_induction_on with
  | _ k ih =>
      intro id hk hid hlt
      by_cases hruns : p.Runs id
      · exact .run (hall id hid hruns hlt)
      · have hkilled : ∃ d ∈ p.deps id, p.kills d id := by
          by_contra hnone
          exact hruns fun d hd hkills => hnone ⟨d, hd, hkills⟩
        obtain ⟨d, hd, hkills⟩ := hkilled
        have hrank := p.ranked id hid d hd
        exact .out hd hkills
          (ih _ (hk ▸ hrank) d rfl (p.closed id hid d hd) (Nat.lt_trans hrank hlt))

/-- An order that leaves something to execute can be continued. -/
theorem Feasible.exists_next {order : List ι} (h : p.Feasible order) (hnot : ¬ p.Complete order) :
    ∃ r, p.Feasible (r :: order) := by
  classical
  obtain ⟨r₀, hr₀⟩ : ∃ r, r ∈ p.tasks.filter fun r => p.Runs r ∧ r ∉ order := by
    by_contra hnone
    refine hnot fun r hr hruns => ?_
    by_contra hmissing
    exact hnone ⟨r, Finset.mem_filter.mpr ⟨hr, hruns, hmissing⟩⟩
  -- the missing task of least rank waits for nothing that is missing
  obtain ⟨r, hr, hleast⟩ := Finset.exists_min_image _ p.rank ⟨r₀, hr₀⟩
  obtain ⟨htask, hruns, hmissing⟩ := Finset.mem_filter.mp hr
  refine ⟨r, .cons h htask hruns hmissing ?_⟩
  intro d hd
  refine settledBy_of_rank_lt (n := p.rank r) ?_ d (p.closed r htask d hd)
    (p.ranked r htask d hd)
  intro e he heruns hlt
  by_contra hemissing
  have hle := hleast e (Finset.mem_filter.mpr ⟨he, heruns, hemissing⟩)
  omega

/-! ## Striking first -/

/-- What holds of the executed tasks and is handed on with every task put out holds of
everything settled. -/
theorem SettledBy.elim {executed P : ι → Prop} (hrun : ∀ id, executed id → P id)
    (hout : ∀ {id d : ι}, d ∈ p.deps id → p.kills d id → P d → P id) {id : ι}
    (h : p.SettledBy executed id) : P id := by
  induction h with
  | run h => exact hrun _ h
  | out hd hkills _ ih => exact hout hd hkills ih

/-- In an order that leaves a task unsettled, everything executed is free of it. -/
theorem Feasible.free {order : List ι} {x : ι} (h : p.Feasible order)
    (hx : ¬ p.SettledBy (· ∈ order) x) : ∀ e ∈ order, p.Free x e := by
  induction h with
  | nil => simp
  | cons _ htask hruns _ henabled ih =>
      rw [settledBy_cons, not_or] at hx
      intro e he
      rcases List.mem_cons.mp he with rfl | he
      · exact .run htask hruns hx.1 fun d hd => (henabled d hd).elim (ih hx.2) .out
      · exact ih hx.2 e he

/-- Some order settles everything that is free of a task, and leaves that one
unsettled. -/
theorem exists_feasible_free (x : ι) :
    ∃ order, p.Feasible order ∧ ¬ p.SettledBy (· ∈ order) x ∧
      ∀ id, p.Free x id → p.SettledBy (· ∈ order) id := by
  have hnone : ¬ p.SettledBy (· ∈ ([] : List ι)) x := by
    intro h
    obtain ⟨e, he, -⟩ := h.exists_single
    cases he
  obtain ⟨order, hfeasible, hx, hmaximal⟩ := Feasible.exists_maximal
    (Q := fun order => ¬ p.SettledBy (· ∈ order) x) .nil hnone
  refine ⟨order, hfeasible, hx, ?_⟩
  intro id hfree
  induction hfree with
  | @run id htask hruns hnot _ ih =>
      by_cases hmem : id ∈ order
      · exact .run hmem
      · refine absurd ?_ (hmaximal id (.cons hfeasible htask hruns hmem ih))
        rw [settledBy_cons, not_or]
        exact ⟨hnot, hx⟩
  | out hd hkills _ ih => exact .out hd hkills ih

theorem Harmful.exists_harms {order : List ι} (h : p.Harmful strikes order)
    (hfeasible : p.Feasible order) :
    ∃ r order', p.Feasible (r :: order') ∧ p.Harms strikes order' r := by
  induction hfeasible with
  | nil => exact absurd h id
  | @cons r order hbefore htask hruns hnew henabled ih =>
      rcases h with h | hharms
      · exact ih h
      · exact ⟨r, order, .cons hbefore htask hruns hnew henabled, hharms⟩

/-- Some order has a striking task put another one out, if and only if such a task can come
first. -/
theorem mayStrike_iff :
    p.MayStrike strikes ↔ ∃ order, p.Feasible order ∧ p.Complete order ∧
      p.Harmful strikes order := by
  constructor
  · rintro ⟨r, htask, hruns, hstrikes, x, hx, hne, hsettled, hfree⟩
    obtain ⟨order, hfeasible, hnot, hall⟩ := exists_feasible_free (p := p) x
    have hnew : r ∉ order := fun hmem => hnot (hsettled.of_single hmem)
    have hstruck : p.Feasible (r :: order) :=
      .cons hfeasible htask hruns hnew fun d hd => hall d (hfree d hd)
    obtain ⟨order', hfeasible', hharmful, hmaximal⟩ := hstruck.exists_maximal
      (Q := p.Harmful strikes) (Or.inr ⟨hstrikes, x, hx, hne, hsettled, hnot⟩)
    refine ⟨order', hfeasible', ?_, hharmful⟩
    by_contra hincomplete
    obtain ⟨r', hr'⟩ := hfeasible'.exists_next hincomplete
    exact hmaximal r' hr' (Or.inl hharmful)
  · rintro ⟨order, hfeasible, -, hharmful⟩
    obtain ⟨r, order', hr, hstrikes, x, hx, hne, hsettled, hnot⟩ := hharmful.exists_harms hfeasible
    cases hr with
    | cons hbefore htask hruns _ henabled =>
        exact ⟨r, htask, hruns, hstrikes, x, hx, hne, hsettled, fun d hd =>
          (henabled d hd).elim (hbefore.free hnot) .out⟩

/-! ## Harming nothing -/

/-- In an order that harms nothing everything executed is calm. -/
theorem Feasible.calm {order : List ι} (h : p.Feasible order)
    (hharmless : ¬ p.Harmful strikes order) : ∀ e ∈ order, p.Calm strikes e := by
  induction h with
  | nil => simp
  | cons _ htask hruns _ henabled ih =>
      rw [Harmful, not_or] at hharmless
      have hbefore := ih hharmless.1
      intro e he
      rcases List.mem_cons.mp he with rfl | he
      · refine .run htask hruns (fun d hd => (henabled d hd).elim hbefore .out) ?_
        intro hstrikes x hx hne hsettled
        by_contra hnot
        refine hharmless.2 ⟨hstrikes, x, hx, hne, hsettled, ?_⟩
        exact fun hby => hnot (hby.elim hbefore .out)
      · exact hbefore e he

/-- Some complete order harms nothing, if and only if everything that runs is calm. -/
theorem calm_iff :
    (∀ e ∈ p.tasks, p.Runs e → p.Calm strikes e) ↔
      ∃ order, p.Feasible order ∧ p.Complete order ∧ ¬ p.Harmful strikes order := by
  constructor
  · intro hcalm
    obtain ⟨order, hfeasible, hharmless, hmaximal⟩ := Feasible.exists_maximal (p := p)
      (Q := fun order => ¬ p.Harmful strikes order) .nil id
    refine ⟨order, hfeasible, ?_, hharmless⟩
    have hsettled : ∀ id, p.Calm strikes id → p.SettledBy (· ∈ order) id := by
      intro id h
      induction h with
      | @run id htask hruns _ _ ih ihstruck =>
          by_cases hmem : id ∈ order
          · exact .run hmem
          · refine absurd ?_ (hmaximal id (.cons hfeasible htask hruns hmem ih))
            rintro (hharmful | ⟨hstrikes, x, hx, hne, hby, hnot⟩)
            · exact hharmless hharmful
            · exact hnot (ihstruck hstrikes x hx hne hby)
      | out hd hkills _ ih => exact .out hd hkills ih
    intro r htask hruns
    exact (hsettled r (hcalm r htask hruns)).executed_of_runs hruns
  · rintro ⟨order, hfeasible, hcomplete, hharmless⟩ e he hruns
    exact hfeasible.calm hharmless e (hcomplete e he hruns)

/-- All complete orders agree on whether they harm, if and only if no striking task can
come first or not everything that runs is calm. -/
theorem harmful_agree_iff :
    (∀ order₁ order₂, p.Feasible order₁ → p.Complete order₁ → p.Feasible order₂ →
      p.Complete order₂ → (p.Harmful strikes order₁ ↔ p.Harmful strikes order₂)) ↔
      ¬ p.MayStrike strikes ∨ ∃ e ∈ p.tasks, p.Runs e ∧ ¬ p.Calm strikes e := by
  constructor
  · intro hagree
    by_contra hnot
    rw [not_or, not_not] at hnot
    obtain ⟨hstrike, hall⟩ := hnot
    have hcalm : ∀ e ∈ p.tasks, p.Runs e → p.Calm strikes e := by
      intro e he hruns
      by_contra hrough
      exact hall ⟨e, he, hruns, hrough⟩
    obtain ⟨order₁, hfeasible₁, hcomplete₁, hharmful⟩ := mayStrike_iff.mp hstrike
    obtain ⟨order₂, hfeasible₂, hcomplete₂, hharmless⟩ := calm_iff.mp hcalm
    exact hharmless ((hagree _ _ hfeasible₁ hcomplete₁ hfeasible₂ hcomplete₂).mp hharmful)
  · rintro (hnever | ⟨e, he, hruns, hrough⟩) order₁ order₂ hfeasible₁ hcomplete₁ hfeasible₂
      hcomplete₂
    · have hharmless : ∀ order, p.Feasible order → p.Complete order →
          ¬ p.Harmful strikes order := fun order hfeasible hcomplete hharmful =>
        hnever (mayStrike_iff.mpr ⟨order, hfeasible, hcomplete, hharmful⟩)
      exact iff_of_false (hharmless _ hfeasible₁ hcomplete₁) (hharmless _ hfeasible₂ hcomplete₂)
    · have hharmful : ∀ order, p.Feasible order → p.Complete order →
          p.Harmful strikes order := by
        intro order hfeasible hcomplete
        by_contra hharmless
        exact hrough (hfeasible.calm hharmless e (hcomplete e he hruns))
      exact iff_of_true (hharmful _ hfeasible₁ hcomplete₁) (hharmful _ hfeasible₂ hcomplete₂)

end Precedence

end JobManager
