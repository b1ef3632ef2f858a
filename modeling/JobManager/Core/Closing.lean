import JobManager.Core.Cascade
import JobManager.Core.Derived

/-!
# When an iteration closes

A settlement closes a running iteration exactly when the cascade and the unblocking leave
nothing that could still run, and its verdict says whether a failure was left unanswered.
Three scans decide this, of which the first asks what can move, the second what has been
resolved and the third what has failed; they agree as they read one state at one moment.

Main results:

- Theorem {lit}`isMoving_eq_false_iff_over`: over a settled, closed and acyclic graph,
  nothing moves exactly when every task is over.
- Theorem {lit}`trySettleIteration_closes_iff`: settlement is sound and complete, and its
  verdict is a failure exactly when one is unanswered.
-/

namespace JobManager

/-- The task is never to run again. -/
def Task.IsOver (t : Task) (now : Nat) : Prop :=
  t.status = .completed ∨ (∃ cause, t.status = .skipped cause) ∨
    t.isTerminallyFailedAt now = true

/-- The task runs, may be started, awaits a retry, or is blocked behind such a task. -/
inductive StillComing (m : TaskMap) (now : Nat) : Uuid → Prop
  | started {id : Uuid} {t : Task} :
      m.get id = some t → t.status = .started → StillComing m now id
  | startable {id : Uuid} {t : Task} :
      m.get id = some t → t.checkAvailabilityAt now = .pickable → StillComing m now id
  | awaitingRetry {id : Uuid} {t : Task} {retryAt : Nat} :
      m.get id = some t → t.checkAvailabilityAt now = .awaitingRetry retryAt →
      StillComing m now id
  | behind {id d : Uuid} {t : Task} :
      m.get id = some t → t.status = .blocked → d ∈ t.dependsOn → StillComing m now d →
      StillComing m now id

/-- A task was put out for a failure, or failed with no direct dependent that tolerates
failures and completed or was skipped by its executor's decision. -/
def UnansweredFailure (m : TaskMap) : Prop :=
  (∃ id t, m.get id = some t ∧ t.status = .skipped .failedDependency) ∨
    ∃ id t, m.get id = some t ∧ t.status = .failed ∧
      ¬ ∃ id' t', m.get id' = some t' ∧ id ∈ t'.dependsOn ∧
        t'.tolerance.allowsFailed = true ∧
        (t'.status = .completed ∨ t'.status = .skipped .executorDecision)

theorem isStillComing_eq_true {t : Task} {now : Nat} :
    Job.isStillComing t now = true ↔ t.checkAvailabilityAt now = .pickable ∨
      ∃ retryAt, t.checkAvailabilityAt now = .awaitingRetry retryAt := by
  unfold Job.isStillComing
  cases t.checkAvailabilityAt now <;> simp

/-- A task that is over does not keep its iteration open. -/
theorem Task.IsOver.not_coming {t : Task} {now : Nat} (h : t.IsOver now) :
    t.status ≠ .started ∧ Job.isStillComing t now = false ∧ t.isResolved = true := by
  unfold Job.isStillComing Task.checkAvailabilityAt
  rcases h with hs | ⟨cause, hs⟩ | hterminal
  · simp [hs, Task.isResolved_eq_true]
  · simp [hs, Task.isResolved_eq_true]
  · have hs := (Task.isTerminallyFailedAt_eq_true.mp hterminal).1
    simp [hs, hterminal, Task.isResolved_eq_true]

theorem handlesFailures_eq_true {t : Task} :
    Job.handlesFailures t = true ↔ t.tolerance.allowsFailed = true ∧
      (t.status = .completed ∨ t.status = .skipped .executorDecision) := by
  unfold Job.handlesFailures
  rw [Bool.and_eq_true, Bool.or_eq_true, Task.isCompleted, decide_eq_true_eq,
    decide_eq_true_eq, Task.skipCause_eq_some]

section

variable {m : TaskMap} {now : Nat}

/-- Nothing of a closed iteration is still coming. -/
theorem not_stillComing (h : ∀ id t, m.get id = some t →
      t.status ≠ .started ∧ Job.isStillComing t now = false) (id : Uuid) :
    ¬ StillComing m now id := by
  intro hcoming
  induction hcoming with
  | started ht hs => exact (h _ _ ht).1 hs
  | startable ht havailable =>
      have hyes := isStillComing_eq_true.mpr (Or.inl havailable)
      rw [(h _ _ ht).2] at hyes
      cases hyes
  | awaitingRetry ht havailable =>
      have hyes := isStillComing_eq_true.mpr (Or.inr ⟨_, havailable⟩)
      rw [(h _ _ ht).2] at hyes
      cases hyes
  | behind _ _ _ _ ih => exact ih

/-- What is still coming before the state is derived is so after. -/
theorem stillComing_of_derives {m' : TaskMap} (hderives : Derives now m m') {id : Uuid}
    (h : StillComing m now id) : ∃ id', StillComing m' now id' := by
  induction h with
  | started ht hs => exact ⟨_, .started (hderives.keep ht (by simp [hs])) hs⟩
  | startable ht havailable =>
      refine ⟨_, .startable (hderives.keep ht ?_) havailable⟩
      intro hblocked
      simp [Task.checkAvailabilityAt, hblocked] at havailable
  | awaitingRetry ht havailable =>
      refine ⟨_, .awaitingRetry (hderives.keep ht ?_) havailable⟩
      intro hblocked
      simp [Task.checkAvailabilityAt, hblocked] at havailable
  | behind _ _ _ _ ih => exact ih

/-- Where every failed task failed for good, the verdict is a failure exactly when one is
unanswered. -/
theorem deriveIterationVerdict_eq_failed_iff {job : Job}
    (h : ∀ id t, job.task? id = some t → t.status = .failed →
      t.isTerminallyFailedAt now = true) :
    job.deriveIterationVerdict now = .failed ↔ UnansweredFailure job.tasksById := by
  rw [Job.deriveIterationVerdict_eq_failed]
  refine or_congr Iff.rfl ⟨?_, ?_⟩
  · rintro ⟨id, t, ht, hterminal, hnone⟩
    refine ⟨id, t, ht, (Task.isTerminallyFailedAt_eq_true.mp hterminal).1, ?_⟩
    rintro ⟨id', t', ht', hmem, htolerance, hresolved⟩
    exact hnone id' t' ht' (handlesFailures_eq_true.mpr ⟨htolerance, hresolved⟩) hmem
  · rintro ⟨id, t, ht, hfailed, hnone⟩
    refine ⟨id, t, ht, h id t ht hfailed, ?_⟩
    intro id' t' ht' hhandles hmem
    obtain ⟨htolerance, hresolved⟩ := handlesFailures_eq_true.mp hhandles
    exact hnone ⟨id', t', ht', hmem, htolerance, hresolved⟩

/-- Over a settled, closed and acyclic graph, nothing moves exactly when every task is
over. -/
theorem isMoving_eq_false_iff_over {job : Job} (hsettled : Settled job.tasksById now)
    (hclosed : DependenciesClosed job.tasksById) {rank : Uuid → Nat}
    (hranked : DependenciesRanked rank job.tasksById) :
    job.isMoving now = false ↔ ∀ id t, job.task? id = some t → t.IsOver now := by
  rw [Job.isMoving_eq_false]
  constructor
  · intro hstill id t ht
    have hresolved := resolved_of_settled hsettled hclosed hranked hstill id t ht
    rcases Task.isResolved_eq_true.mp hresolved with hs | hs | hs
    · exact Or.inl hs
    · exact Or.inr (Or.inr (isTerminallyFailedAt_of_not_coming hs (hstill id t ht).2))
    · exact Or.inr (Or.inl hs)
  · intro hover id t ht
    exact ⟨(hover id t ht).not_coming.1, (hover id t ht).not_coming.2.1⟩

end

namespace Job

/-- Settlement is sound and complete over a running job with a task whose dependency graph
is closed and acyclic.  It closes the iteration exactly when every task is over once the
state is derived, never while something is still coming; otherwise nothing but blocked
tasks changes.  The verdict is a failure exactly when one is unanswered. -/
theorem trySettleIteration_closes_iff (job : Job) (w : Uuid) (now : Nat)
    (hrunning : job.status = .running) (hnonempty : ∃ id t, job.task? id = some t)
    (hclosed : DependenciesClosed job.tasksById) (hacyclic : Acyclic job.tasksById) :
    ∃ m closes job', DerivesState now job m ∧
      trySettleIteration w now job = (.ok closes, job') ∧ job'.tasksById = m ∧
      (closes = true ↔ ∀ id t, m.get id = some t → t.IsOver now) ∧
      (closes = true → ∀ id, ¬ StillComing job.tasksById now id ∧ ¬ StillComing m now id) ∧
      (closes = false → job' = job.withTasks m ∧
        ∀ id t, job.task? id = some t → t.status ≠ .blocked → job'.task? id = some t) ∧
      (closes = true → job'.status = .completed ∨ job'.status = .failed) ∧
      (closes = true → (job'.status = .failed ↔ UnansweredFailure m)) := by
  obtain ⟨rank, hranked⟩ := exists_ranked_of_acyclic hclosed hacyclic
  obtain ⟨m, hstate, hrun, hderives, hsettled⟩ := exists_derivesState w now job
  have hclosed' : DependenciesClosed m := DerivedRun.dependenciesClosed hrun hclosed
  have hranked' : DependenciesRanked rank m := by
    intro id t ht d hd
    obtain ⟨t₀, ht₀, hkin⟩ := DerivedRun.backward hrun id t ht
    exact hranked id t₀ ht₀ d (hkin.dependsOn ▸ hd)
  have hover : (job.withTasks m).isMoving now = false ↔
      ∀ id t, m.get id = some t → t.IsOver now :=
    isMoving_eq_false_iff_over hsettled hclosed' hranked'
  have hend := hstate.settleEnd w
  generalize hresult : trySettleIteration w now job = result at hend
  cases hend with
  | moving hmoving =>
      refine ⟨m, false, job.withTasks m, hstate, rfl, rfl, ?_, by simp, ?_, by simp, by simp⟩
      · rw [← hover, hmoving]
        simp
      · intro _
        exact ⟨rfl, fun id t ht hs => hderives.keep ht hs⟩
  | deadlock _ _ =>
      exact absurd hresult
        (trySettleIteration_ne_deadlock rank hclosed hranked hnonempty)
  | refused _ _ hallows _ =>
      rw [hrunning, JobStatus.running_allows_verdict] at hallows
      cases hallows
  | closed hmoving hresolved hallows =>
      have hall := hover.mp hmoving
      have hstill := isMoving_eq_false.mp hmoving
      refine ⟨m, true, _, hstate, rfl, rfl, by simpa using hall, ?_, by simp, ?_, ?_⟩
      · intro _ id
        refine ⟨fun hcoming => ?_, not_stillComing hstill id⟩
        obtain ⟨id', hcoming'⟩ := stillComing_of_derives hderives hcoming
        exact not_stillComing hstill id' hcoming'
      · intro _
        cases (job.withTasks m).deriveIterationVerdict now <;> simp [IterationVerdict.toStatus]
      · intro _
        have hverdict : (job.withTasks m).deriveIterationVerdict now = .failed ↔
            UnansweredFailure m :=
          deriveIterationVerdict_eq_failed_iff fun id t ht hs =>
            isTerminallyFailedAt_of_not_coming hs (hstill id t ht).2
        rw [← hverdict]
        cases (job.withTasks m).deriveIterationVerdict now <;> simp [IterationVerdict.toStatus]

/-- The iteration in which a decision outran a failure closes, and fails for it. -/
theorem detourJob_closes :
    ∃ m job', DerivesState 5 detourJob m ∧
      trySettleIteration 0 5 detourJob = (.ok true, job') ∧
      (job'.status = .failed ↔ UnansweredFailure m) := by
  obtain ⟨m, closes, job', hstate, hresult, -, -, -, -, -, hverdict⟩ :=
    trySettleIteration_closes_iff detourJob 0 5 rfl ⟨1, _, rfl⟩ detourJob_closed
      (acyclic_of_ranked detourJob_ranked)
  have htrue : (trySettleIteration 0 5 detourJob).1.toOption = some true := by decide
  rw [hresult] at htrue
  obtain rfl : closes = true := by simpa [Except.toOption] using htrue
  exact ⟨m, job', hstate, hresult, hverdict rfl⟩

end Job

end JobManager
