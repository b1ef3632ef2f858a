import JobManager.Scheduling.Fates

/-!
# The verdict of an iteration

An iteration fails where a failure was left for nobody to handle, or where a task was put
out on account of one.  Whether the first is so does not depend on the schedule; the second
does where a task waits for a failure and for a decision, since it is put out for whichever
of them came first.

Main results:

- Theorem {lit}`VerdictInv.failed_iff`: when a closed iteration failed.
- Theorem {lit}`exists_reachable_of_feasible`: every order of execution is that of some
  schedule.
- Theorem {lit}`verdict_agree`: exactly when all schedules agree on the verdict.
-/

namespace JobManager

/-! ## Failures nobody handles -/

/-- The task fails when it is executed. -/
def FailsIfRun (outcome : Uuid → FinalOutcome) (id : Uuid) : Prop :=
  (outcome id).resolution = .failed

namespace Job.Unstarted

variable {rank : Uuid → Nat} {job₀ : Job}

/-- Some executed task fails, and whatever waits for it and tolerates failures is put out
or fails itself. -/
def LeavesFailure (hfresh : job₀.Unstarted rank) (outcome : Uuid → FinalOutcome) : Prop :=
  ∃ id ∈ (hfresh.precedence outcome).tasks, (hfresh.precedence outcome).Runs id ∧
    FailsIfRun outcome id ∧
    ∀ id' t, job₀.task? id' = some t → t.tolerance.allowsFailed = true → id ∈ t.dependsOn →
      (hfresh.precedence outcome).Runs id' → FailsIfRun outcome id'

end Job.Unstarted

/-! ## The order of the results -/

/-- What holds of a schedule whose results came in the given order: tasks were put out on
account of a failure if and only if a failure harmed. -/
structure VerdictInv {rank : Uuid → Nat} {job₀ : Job} (hfresh : job₀.Unstarted rank)
    (outcome : Uuid → FinalOutcome) (order : List Uuid) (job : Job) : Prop where
  schedule : ScheduleInv job₀ outcome order job
  feasible : (hfresh.precedence outcome).Feasible order
  harmful : (∃ id t, job.task? id = some t ∧ t.status = .skipped .failedDependency) ↔
    (hfresh.precedence outcome).Harmful (FailsIfRun outcome) order

theorem FinalOutcome.cascadeCause_eq_failedDependency {outcome : Uuid → FinalOutcome}
    {id : Uuid} : (outcome id).cascadeCause = .failedDependency ↔ FailsIfRun outcome id := by
  unfold FailsIfRun
  cases outcome id <;> simp [cascadeCause, resolution]

/-- A step that leaves alone what is not blocked, but for a task still open, leaves alone
what has ended. -/
theorem kept_of_resolved {job job' : Job} {t u : Task} {id : Uuid} (hopen : t.resolution = none)
    (ht : job.task? t.id = some t)
    (hkeep : ∀ id u, id ≠ t.id → job.task? id = some u → u.status ≠ .blocked →
      job'.task? id = some u)
    (hu : job.task? id = some u) (hresolved : u.resolution ≠ none) : job'.task? id = some u := by
  apply hkeep id u _ hu
  · intro hblocked
    simp [Task.resolution, hblocked] at hresolved
  · rintro rfl
    rw [ht] at hu
    cases hu
    exact hresolved hopen

namespace VerdictInv

variable {rank : Uuid → Nat} {job₀ job job' : Job} {outcome : Uuid → FinalOutcome}
  {order : List Uuid} {hfresh : job₀.Unstarted rank}

theorem init (hfresh : job₀.Unstarted rank) (outcome : Uuid → FinalOutcome) :
    VerdictInv hfresh outcome [] job₀ := by
  refine ⟨hfresh.scheduleInv outcome, .nil, iff_of_false ?_ id⟩
  rintro ⟨id, t, ht, hs⟩
  have hfirst := (hfresh.fresh t (Job.mem_tasks_of_task? ht)).1
  rw [hs] at hfirst
  split at hfirst <;> cases hfirst

/-- Every step keeps the invariant; a result extends the order. -/
theorem step (hinv : VerdictInv hfresh outcome order job) {a : ScheduleAction}
    (h : scheduleStep outcome job a = some job') :
    ∃ w t now, job.task? t.id = some t ∧ t.resolution = none ∧
      (∀ id u, id ≠ t.id → job.task? id = some u → u.status ≠ .blocked →
        job'.task? id = some u) ∧
      ((a = .start w t.id now ∧ VerdictInv hfresh outcome order job' ∧
          ∃ t', t.start w now = .ok t' ∧ job'.task? t.id = some t') ∨
        a = .result w t.id now ∧ VerdictInv hfresh outcome (t.id :: order) job') := by
  obtain ⟨w, t, now, ht, hopen, hkeep, hcase⟩ := hinv.schedule.step hfresh h
  refine ⟨w, t, now, ht, hopen, hkeep, ?_⟩
  have hskipped : ∀ {u : Task}, u.status = .skipped .failedDependency → u.resolution ≠ none := by
    intro u hs
    simp [Task.resolution, hs]
  -- what was put out before stays put out
  have hbefore : (∃ id u, job.task? id = some u ∧ u.status = .skipped .failedDependency) →
      ∃ id u, job'.task? id = some u ∧ u.status = .skipped .failedDependency := by
    rintro ⟨id, u, hu, hs⟩
    exact ⟨id, u, kept_of_resolved hopen ht hkeep hu (hskipped hs), hs⟩
  -- and what has ended before is as it was
  have hafter : ∀ {id : Uuid} {u : Task}, job'.task? id = some u →
      (hfresh.precedence outcome).SettledBy (· ∈ order) id →
      (∃ u₀, job₀.task? id = some u₀) → job.task? id = some u := by
    rintro id u hu hsettled ⟨u₀, hu₀⟩
    obtain ⟨v, hv, -⟩ := hinv.schedule.tasks.image hu₀
    have hended := (hinv.schedule.resolved_iff_settledBy hfresh hv).mpr hsettled
    rw [kept_of_resolved hopen ht hkeep hv hended] at hu
    cases hu
    exact hv
  rcases hcase with ⟨rfl, -, hinv', hstart⟩ | ⟨rfl, hs, hinv', hcause⟩
  · refine Or.inl ⟨rfl, ⟨hinv', hinv.feasible, ?_⟩, hstart⟩
    rw [← hinv.harmful]
    refine ⟨?_, hbefore⟩
    rintro ⟨id, u, hu, hs⟩
    obtain ⟨u₀, hu₀, -⟩ := hinv'.tasks.origin hu
    have hsettled := (hinv'.resolved_iff_settledBy hfresh hu).mp (hskipped hs)
    exact ⟨id, u, hafter hu hsettled ⟨u₀, hu₀⟩, hs⟩
  · refine Or.inr ⟨rfl, hinv', hinv.schedule.feasible_cons hfresh hinv.feasible ht hs, ?_⟩
    rw [Precedence.Harmful, ← hinv.harmful]
    constructor
    · rintro ⟨id, u, hu, hfailed⟩
      obtain ⟨u₀, hu₀, -⟩ := hinv'.tasks.origin hu
      by_cases hsettled : (hfresh.precedence outcome).SettledBy (· ∈ order) id
      · exact Or.inl ⟨id, u, hafter hu hsettled ⟨u₀, hu₀⟩, hfailed⟩
      · right
        have hby := (hinv'.resolved_iff_settledBy hfresh hu).mp (hskipped hfailed)
        have hne : id ≠ t.id := by
          rintro rfl
          have hran := (hinv'.tasks.ran t.id u hu (List.mem_cons_self ..)).1
          rw [hfailed] at hran
          cases hout : outcome t.id <;> simp [FinalOutcome.status, hout] at hran
        have hstrikes : FailsIfRun outcome t.id := by
          rcases hcause id u hu ⟨_, hfailed, by simp⟩ with hold | hnew
          · refine absurd ?_ hsettled
            exact (hinv.schedule.resolved_iff_settledBy hfresh hold).mp (hskipped hfailed)
          · rw [hfailed, TaskStatus.skipped.injEq] at hnew
            exact FinalOutcome.cascadeCause_eq_failedDependency.mp hnew.symm
        exact ⟨hstrikes, id, hfresh.mem_precedence_tasks.mpr ⟨u₀, hu₀⟩, hne,
          (Precedence.settledBy_cons.mp hby).resolve_right hsettled, hsettled⟩
    · rintro (hold | ⟨hstrikes, x, hx, hne, hby, hnot⟩)
      · exact hbefore hold
      · obtain ⟨u₀, hu₀⟩ := hfresh.mem_precedence_tasks.mp hx
        obtain ⟨u, hu, -⟩ := hinv'.tasks.image hu₀
        have hended := (hinv'.resolved_iff_settledBy hfresh hu).mpr
          (Precedence.settledBy_cons.mpr (Or.inl hby))
        have hmem : x ∉ t.id :: order := by
          rw [List.mem_cons, not_or]
          exact ⟨hne, fun hin => hnot (.run hin)⟩
        have hcascaded := hinv'.tasks.isCascaded_of_resolved hu hended hmem
        rcases hcause x u hu hcascaded with hold | hnew
        · exact absurd ((hinv.schedule.resolved_iff_settledBy hfresh hold).mp hended) hnot
        · rw [FinalOutcome.cascadeCause_eq_failedDependency.mpr hstrikes] at hnew
          exact ⟨x, u, hu, hnew⟩

/-- A closed iteration failed where a failure harmed, or was left for nobody to handle. -/
theorem failed_iff (hinv : VerdictInv hfresh outcome order job)
    (hprocessed : job.isProcessed = true) :
    job.iterationVerdict = some .failed ↔
      (hfresh.precedence outcome).Harmful (FailsIfRun outcome) order ∨
        hfresh.LeavesFailure outcome := by
  have hended : ∀ {id : Uuid} {t : Task}, job.task? id = some t → t.resolution ≠ none :=
    fun ht => hinv.schedule.resolved_of_isProcessed hprocessed ht
  obtain ⟨now, hstatus⟩ : ∃ now, job.status = (job.deriveIterationVerdict now).toStatus := by
    rcases hinv.schedule.state with ⟨hrunning, -⟩ | ⟨hstatus, -⟩
    · simp [Job.isProcessed, Job.iterationVerdict, hrunning] at hprocessed
    · exact hstatus
  have hverdict : job.iterationVerdict = some (job.deriveIterationVerdict now) := by
    rw [Job.iterationVerdict, hstatus]
    cases job.deriveIterationVerdict now <;> rfl
  rw [hverdict, Option.some.injEq, Job.deriveIterationVerdict_eq_failed, hinv.harmful]
  refine or_congr_right ?_
  constructor
  · rintro ⟨id, t, ht, hfailed, hnone⟩
    obtain ⟨t₀, ht₀, -⟩ := hinv.schedule.tasks.origin ht
    have hs := (Task.isTerminallyFailedAt_eq_true.mp hfailed).1
    have hmem : id ∈ order := by
      by_contra hout
      obtain ⟨cause, hs', -⟩ := hinv.schedule.tasks.isCascaded_of_resolved ht (hended ht) hout
      simp [hs] at hs'
    refine ⟨id, hfresh.mem_precedence_tasks.mpr ⟨t₀, ht₀⟩,
      (hinv.schedule.executed_iff_runs hfresh ht (hended ht)).mp hmem, ?_, ?_⟩
    · have hr := hinv.schedule.tasks.resolution_of_mem ht hmem
      rw [Task.resolution, hs, Option.some.injEq] at hr
      exact hr.symm
    · intro id' u₀ hu₀ htolerates hwaits hruns
      obtain ⟨u, hu, hwiring⟩ := hinv.schedule.tasks.image hu₀
      simp only [Task.wiring, Prod.mk.injEq] at hwiring
      have hmem' := (hinv.schedule.executed_iff_runs hfresh hu (hended hu)).mpr hruns
      have hran := (hinv.schedule.tasks.ran id' u hu hmem').1
      by_contra hsurvives
      refine hnone id' u hu ?_ (hwiring.1.symm ▸ hwaits)
      unfold FailsIfRun at hsurvives
      rw [Job.handlesFailures, hwiring.2.1, htolerates, Task.isCompleted, Task.skipCause, hran]
      cases hout : outcome id' with
      | terminallyFailed reason => simp [hout, FinalOutcome.resolution] at hsurvives
      | _ => rfl
  · rintro ⟨id, hid, hruns, hfails, hnone⟩
    obtain ⟨t₀, ht₀⟩ := hfresh.mem_precedence_tasks.mp hid
    obtain ⟨t, ht, -⟩ := hinv.schedule.tasks.image ht₀
    have hmem := (hinv.schedule.executed_iff_runs hfresh ht (hended ht)).mpr hruns
    have hs : t.status = .failed := by
      rw [(hinv.schedule.tasks.ran id t ht hmem).1]
      unfold FailsIfRun at hfails
      cases hout : outcome id <;> simp_all [FinalOutcome.resolution, FinalOutcome.status]
    refine ⟨id, t, ht, Task.isTerminallyFailedAt_eq_true.mpr
      ⟨hs, Or.inl (hinv.schedule.tasks.failsForGood id t ht hs)⟩, ?_⟩
    intro id' u hu hhandles hwaits
    obtain ⟨u₀, hu₀, hwiring⟩ := hinv.schedule.tasks.origin hu
    simp only [Task.wiring, Prod.mk.injEq] at hwiring
    simp only [Job.handlesFailures, Bool.and_eq_true, Bool.or_eq_true, decide_eq_true_eq,
      Task.isCompleted, Task.skipCause_eq_some] at hhandles
    obtain ⟨htolerates, hanswers⟩ := hhandles
    -- it answered for itself, so it was executed and did not fail
    have hmem' : id' ∈ order := by
      by_contra hout
      obtain ⟨cause, hs', hne⟩ := hinv.schedule.tasks.isCascaded_of_resolved hu (hended hu) hout
      rcases hanswers with hc | hc
      · simp [hs'] at hc
      · rw [hs', TaskStatus.skipped.injEq] at hc
        exact hne hc
    have hfails' := hnone id' u₀ hu₀ (hwiring.2.1 ▸ htolerates) (hwiring.1 ▸ hwaits)
      ((hinv.schedule.executed_iff_runs hfresh hu (hended hu)).mp hmem')
    have hran := (hinv.schedule.tasks.ran id' u hu hmem').1
    unfold FailsIfRun at hfails'
    cases hout : outcome id' <;> simp_all [FinalOutcome.resolution, FinalOutcome.status]

/-- A closed iteration has executed everything that runs. -/
theorem complete (hinv : VerdictInv hfresh outcome order job)
    (hprocessed : job.isProcessed = true) : (hfresh.precedence outcome).Complete order := by
  intro id hid hruns
  obtain ⟨t₀, ht₀⟩ := hfresh.mem_precedence_tasks.mp hid
  obtain ⟨t, ht, -⟩ := hinv.schedule.tasks.image ht₀
  exact (hinv.schedule.executed_iff_runs hfresh ht
    (hinv.schedule.resolved_of_isProcessed hprocessed ht)).mpr hruns

end VerdictInv

/-! ## Every order is that of a schedule -/

/-- The deadlines of every task can be told, and its output is not too long to be kept. -/
def Job.Startable (job : Job) (outcome : Uuid → FinalOutcome) : Prop :=
  ∀ t ∈ job.tasks, t.timeout ≤ maxMoment ∧ t.maxLifetime ≤ maxMoment ∧
    ∀ output, outcome t.id = .completed output → output.length ≤ job.taskLimits.maxOutputBytes

section Schedules

variable {rank : Uuid → Nat} {job₀ job : Job} {outcome : Uuid → FinalOutcome}
  {hfresh : job₀.Unstarted rank}

theorem verdictInv_of_reachable (hfresh : job₀.Unstarted rank)
    (h : Reachable (scheduleStep outcome) job₀ job) :
    ∃ order, VerdictInv hfresh outcome order job := by
  induction h with
  | init => exact ⟨[], .init hfresh outcome⟩
  | step _ _ hstep ih =>
      obtain ⟨order, hinv⟩ := ih
      obtain ⟨w, t, now, -, -, -, ⟨-, hinv', -⟩ | ⟨-, hinv'⟩⟩ := hinv.step hstep
      · exact ⟨order, hinv'⟩
      · exact ⟨t.id :: order, hinv'⟩

/-- Where everything that runs was executed, the iteration is closed. -/
theorem isProcessed_of_complete {order : List Uuid} (hinv : VerdictInv hfresh outcome order job)
    (hcomplete : (hfresh.precedence outcome).Complete order) : job.isProcessed = true := by
  rcases hinv.schedule.state with ⟨-, id, t, ht, hpending⟩ | ⟨⟨now, hstatus⟩, -⟩
  · have hopen : t.resolution = none := by
      rcases hpending with hs | hs <;> simp [Task.resolution, hs]
    obtain ⟨t₀, ht₀, -⟩ := hinv.schedule.tasks.origin ht
    obtain rfl := Job.id_of_task? ht
    have haccepts : AcceptsAll job.tasksById t := by
      refine hinv.schedule.tasks.ordered t.id t ht ?_ ?_
      · rcases hpending with hs | hs <;> simp [hs]
      · intro hcascaded
        rw [Scheduled.resolution_of_isCascaded hcascaded] at hopen
        cases hopen
    have hruns := (hinv.schedule.runs_of_acceptsAll hfresh ht haccepts).1
    exact absurd (hcomplete t.id (hfresh.mem_precedence_tasks.mpr ⟨t₀, ht₀⟩) hruns)
      (hinv.schedule.running_of_open ht hopen).2
  · rw [Job.isProcessed, Job.iterationVerdict, hstatus]
    cases job.deriveIterationVerdict now <;> rfl

/-- The result of a task in work can be applied. -/
theorem exists_result {order : List Uuid} {id : Uuid} {t : Task}
    (hstartable : job₀.Startable outcome) (hreachable : Reachable (scheduleStep outcome) job₀ job)
    (hinv : VerdictInv hfresh outcome order job) (ht : job.task? id = some t)
    (hs : t.status = .started) :
    ∃ job', Reachable (scheduleStep outcome) job₀ job' ∧
      VerdictInv hfresh outcome (id :: order) job' := by
  obtain ⟨t₀, ht₀, -⟩ := hinv.schedule.tasks.origin ht
  obtain ⟨-, -, hlimit⟩ := hstartable t₀ (Job.mem_tasks_of_task? ht₀)
  rw [Job.id_of_task? ht₀, ← hinv.schedule.limits] at hlimit
  obtain ⟨w, hw⟩ : ∃ w, t.processingByWorker = none ∨ t.processingByWorker = some w := by
    cases t.processingByWorker with
    | none => exact ⟨0, Or.inl rfl⟩
    | some w => exact ⟨w, Or.inr rfl⟩
  have hl : t.isLifetimeExpiredAt 0 = false := by
    unfold Task.isLifetimeExpiredAt
    split <;> simp
  obtain ⟨job', hresult⟩ := scheduleStep_of_started ht hs hw hl hlimit
  obtain ⟨_, u, _, -, -, -, ⟨hsame, -⟩ | ⟨hsame, hinv'⟩⟩ := hinv.step hresult
  · cases hsame
  · cases hsame
    exact ⟨job', hreachable.step trivial hresult, hinv'⟩

/-- Every order of execution is that of some schedule. -/
theorem exists_reachable_of_feasible (hstartable : job₀.Startable outcome) {order : List Uuid}
    (hfeasible : (hfresh.precedence outcome).Feasible order) :
    ∃ job, Reachable (scheduleStep outcome) job₀ job ∧ VerdictInv hfresh outcome order job := by
  induction hfeasible with
  | nil => exact ⟨job₀, .init, .init hfresh outcome⟩
  | @cons r order _ hr hruns hnew henabled ih =>
      obtain ⟨job, hreachable, hinv⟩ := ih
      obtain ⟨t₀, ht₀⟩ := hfresh.mem_precedence_tasks.mp hr
      obtain ⟨t, ht, hwiring⟩ := hinv.schedule.tasks.image ht₀
      obtain ⟨htimeout, hlifetime, -⟩ := hstartable t₀ (Job.mem_tasks_of_task? ht₀)
      simp only [Task.wiring, Prod.mk.injEq] at hwiring
      obtain ⟨hdeps, htolerance, -, hsametimeout, hsamelifetime⟩ := hwiring
      have hopen : t.resolution = none := by
        by_contra hended
        have hsettled := (hinv.schedule.resolved_iff_settledBy hfresh ht).mp hended
        exact hnew (hsettled.executed_of_runs hruns)
      -- all it waits for has ended, and none of it puts the task out
      have haccepts : AcceptsAll job.tasksById t := by
        intro d hd
        have hd₀ : d ∈ t₀.dependsOn := hdeps ▸ hd
        have hdep : d ∈ (hfresh.precedence outcome).deps r :=
          hfresh.mem_precedence_deps.mpr ⟨t₀, ht₀, hd₀⟩
        obtain ⟨dep₀, hdep₀⟩ := hfresh.dependenciesClosed r t₀ ht₀ d hd₀
        obtain ⟨dep, hget, -⟩ := hinv.schedule.tasks.image hdep₀
        obtain ⟨e, he⟩ := Option.ne_none_iff_exists'.mp
          ((hinv.schedule.resolved_iff_settledBy hfresh hget).mpr (henabled d hdep))
        refine ⟨dep, e, hget, he, ?_⟩
        by_contra hrejects
        refine hruns d hdep ⟨t₀, e, ht₀,
          hinv.schedule.tasks.endsAs hfresh.dependenciesRanked hget he, ?_⟩
        rw [← htolerance]
        simpa using hrejects
      rcases hinv.schedule.tasks.pending r t ht hnew with hs | hs | hs | hcascaded
      · obtain ⟨job₁, hstart⟩ := scheduleStep_of_todo outcome ht hs 0 0 (by omega)
          (by omega)
        obtain ⟨w, u, now, -, -, -, ⟨hsame, hinv₁, t₁, hstarted, ht₁⟩ | ⟨hsame, -⟩⟩ :=
          hinv.step hstart
        · cases hsame
          obtain ⟨-, _, _, -, -, rfl⟩ := Task.start_eq_ok hstarted
          exact exists_result hstartable (hreachable.step trivial hstart) hinv₁ ht₁ rfl
        · cases hsame
      · exact absurd haccepts (hinv.schedule.quiet r t ht hs).1
      · exact exists_result hstartable hreachable hinv ht hs
      · rw [Scheduled.resolution_of_isCascaded hcascaded] at hopen
        cases hopen

/-- All schedules that close the iteration close it under one verdict. -/
def VerdictAgrees (job₀ : Job) (outcome : Uuid → FinalOutcome) : Prop :=
  ∀ job₁ job₂, Reachable (scheduleStep outcome) job₀ job₁ →
    Reachable (scheduleStep outcome) job₀ job₂ → job₁.isProcessed = true →
    job₂.isProcessed = true → job₁.iterationVerdict = job₂.iterationVerdict

/-- A failure is left for nobody to handle; or no failing task can be executed before
anything else that puts one of its victims out; or some task that runs cannot settle
without a failing one putting out a task nothing else has. -/
def Job.Unstarted.VerdictFixed (hfresh : job₀.Unstarted rank) (outcome : Uuid → FinalOutcome) :
    Prop :=
  hfresh.LeavesFailure outcome ∨ ¬ (hfresh.precedence outcome).MayStrike (FailsIfRun outcome) ∨
    ∃ e ∈ (hfresh.precedence outcome).tasks, (hfresh.precedence outcome).Runs e ∧
      ¬ (hfresh.precedence outcome).Calm (FailsIfRun outcome) e

theorem iterationVerdict_eq_of_failed_iff {job₁ job₂ : Job} (h₁ : job₁.isProcessed = true)
    (h₂ : job₂.isProcessed = true)
    (h : job₁.iterationVerdict = some .failed ↔ job₂.iterationVerdict = some .failed) :
    job₁.iterationVerdict = job₂.iterationVerdict := by
  obtain ⟨v₁, hv₁⟩ := Option.isSome_iff_exists.mp h₁
  obtain ⟨v₂, hv₂⟩ := Option.isSome_iff_exists.mp h₂
  rw [hv₁, hv₂] at h ⊢
  cases v₁ <;> cases v₂ <;> simp at h ⊢

/-- All schedules agree on the verdict if the tasks and their outcomes fix it, and only
then where every task can be started and every result kept. -/
theorem verdict_agree (hfresh : job₀.Unstarted rank) (outcome : Uuid → FinalOutcome) :
    (hfresh.VerdictFixed outcome → VerdictAgrees job₀ outcome) ∧
      (job₀.Startable outcome →
        (VerdictAgrees job₀ outcome ↔ hfresh.VerdictFixed outcome)) := by
  have henough : hfresh.VerdictFixed outcome → VerdictAgrees job₀ outcome := by
    intro hfixed job₁ job₂ h₁ h₂ hprocessed₁ hprocessed₂
    obtain ⟨order₁, hinv₁⟩ := verdictInv_of_reachable hfresh h₁
    obtain ⟨order₂, hinv₂⟩ := verdictInv_of_reachable hfresh h₂
    apply iterationVerdict_eq_of_failed_iff hprocessed₁ hprocessed₂
    rw [hinv₁.failed_iff hprocessed₁, hinv₂.failed_iff hprocessed₂]
    rcases hfixed with hleaves | hagree
    · exact iff_of_true (Or.inr hleaves) (Or.inr hleaves)
    · refine or_congr_left ?_
      exact Precedence.harmful_agree_iff.mpr hagree order₁ order₂ hinv₁.feasible
        (hinv₁.complete hprocessed₁) hinv₂.feasible (hinv₂.complete hprocessed₂)
  refine ⟨henough, fun hstartable => ⟨?_, henough⟩⟩
  intro hagrees
  by_cases hleaves : hfresh.LeavesFailure outcome
  · exact Or.inl hleaves
  · refine Or.inr (Precedence.harmful_agree_iff.mp ?_)
    intro order₁ order₂ hfeasible₁ hcomplete₁ hfeasible₂ hcomplete₂
    obtain ⟨job₁, h₁, hinv₁⟩ := exists_reachable_of_feasible hstartable hfeasible₁
    obtain ⟨job₂, h₂, hinv₂⟩ := exists_reachable_of_feasible hstartable hfeasible₂
    have hprocessed₁ := isProcessed_of_complete hinv₁ hcomplete₁
    have hprocessed₂ := isProcessed_of_complete hinv₂ hcomplete₂
    have hfailed₁ := hinv₁.failed_iff hprocessed₁
    have hfailed₂ := hinv₂.failed_iff hprocessed₂
    rw [or_iff_left hleaves] at hfailed₁ hfailed₂
    rw [← hfailed₁, ← hfailed₂, hagrees job₁ job₂ h₁ h₂ hprocessed₁ hprocessed₂]

end Schedules

/-- The decision skips its branch, the attempt fails, and so does its repair. -/
def brokenForkOutcome : Uuid → FinalOutcome
  | 1 => .skippedBranch "not today"
  | _ => .terminallyFailed "out of reach"

/-- Where the repair fails as well, the failure is left for nobody to handle, and the two
schedules of the fork agree although they put the join out for different reasons. -/
theorem forkJob_verdicts :
    ∃ job₁ job₂,
      runActions (scheduleStep brokenForkOutcome) forkJob (inTurn [1, 2, 4]) = some job₁ ∧
      runActions (scheduleStep brokenForkOutcome) forkJob (inTurn [2, 1, 4]) = some job₂ ∧
      job₁.isProcessed = true ∧ job₁.iterationVerdict = job₂.iterationVerdict := by
  have hfirst : (runActions (scheduleStep brokenForkOutcome) forkJob
      (inTurn [1, 2, 4])).map Job.isProcessed = some true := by
    decide +kernel
  have hsecond : (runActions (scheduleStep brokenForkOutcome) forkJob
      (inTurn [2, 1, 4])).map Job.isProcessed = some true := by
    decide +kernel
  obtain ⟨job₁, h₁, hprocessed₁⟩ := Option.map_eq_some_iff.mp hfirst
  obtain ⟨job₂, h₂, hprocessed₂⟩ := Option.map_eq_some_iff.mp hsecond
  refine ⟨job₁, job₂, h₁, h₂, hprocessed₁, (verdict_agree forkJob_unstarted _).1 (Or.inl ?_) job₁
    job₂ (reachable_of_runActions .init h₁) (reachable_of_runActions .init h₂) hprocessed₁
    hprocessed₂⟩
  have htolerant : ∀ t ∈ forkJob.tasks, t.tolerance.allowsFailed = true → t.id = 4 := by decide
  refine ⟨2, forkJob_unstarted.mem_precedence_tasks.mpr ⟨_, rfl⟩, ?_, rfl, ?_⟩
  · intro d hd
    cases hd
  · intro id t ht hallows _ _
    rw [← Job.id_of_task? ht, htolerant t (Job.mem_tasks_of_task? ht) hallows]
    rfl

/-- The decision puts the join out first in one schedule and the failure does in the other:
the iteration completes in the first and fails in the second. -/
theorem verdict_depends :
    forkJob.Unstarted id ∧ forkJob.Startable forkOutcome ∧
      ∃ job₁ job₂, runActions (scheduleStep forkOutcome) forkJob (inTurn [1, 2, 4]) = some job₁ ∧
        runActions (scheduleStep forkOutcome) forkJob (inTurn [2, 1, 4]) = some job₂ ∧
        job₁.iterationVerdict = some .completed ∧ job₂.iterationVerdict = some .failed := by
  refine ⟨forkJob_unstarted, ?_, ?_⟩
  · have hdurations : ∀ t ∈ forkJob.tasks, t.timeout ≤ maxMoment ∧ t.maxLifetime ≤ maxMoment := by
      decide
    intro t ht
    refine ⟨(hdurations t ht).1, (hdurations t ht).2, ?_⟩
    intro output hout
    unfold forkOutcome at hout
    split at hout
    · cases hout
    · cases hout
    · cases hout
      exact Nat.zero_le _
  · have hfirst : (runActions (scheduleStep forkOutcome) forkJob (inTurn [1, 2, 4])).bind
        Job.iterationVerdict = some .completed := by
      decide +kernel
    have hsecond : (runActions (scheduleStep forkOutcome) forkJob (inTurn [2, 1, 4])).bind
        Job.iterationVerdict = some .failed := by
      decide +kernel
    obtain ⟨job₁, h₁, hverdict₁⟩ := Option.bind_eq_some_iff.mp hfirst
    obtain ⟨job₂, h₂, hverdict₂⟩ := Option.bind_eq_some_iff.mp hsecond
    exact ⟨job₁, job₂, h₁, h₂, hverdict₁, hverdict₂⟩

end JobManager
