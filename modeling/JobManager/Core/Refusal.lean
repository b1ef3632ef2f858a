import JobManager.Core.Cascade
import JobManager.Core.Merging

/-!
# Refused operations leave the job untouched

Most operations check everything before they assign anything.  The merges do not: they
assign the status or the carried tasks first, and go on to derive lifetime failures, a
cascade and a verdict.  What keeps them whole is that nothing after the first assignment
can be refused on the states the earlier checks let through, the deadlock of a merged
result apart.

Main results:

- Theorem {lit}`mergeWithPickedTask_refusesCleanly`: after the status moved, nothing in
  the merge of a start is refused.
- Theorem {lit}`mergeWithProcessedTask_refused`: a merged result is refused as it was, or
  with a deadlock.
- Theorem {lit}`refused_leaves_job`: every refused operation leaves the job as it was.
-/

namespace JobManager

namespace Job

/-! ## Checks ahead of assignments -/

/-- A refused start leaves the job as it was. -/
theorem startTask_refusesCleanly (taskId workerId : Uuid) (now : Nat) :
    Mutation.RefusesCleanly (startTask taskId workerId now) :=
  .then_total (updateTask_refusesCleanly _ _) fun _ => Mutation.total_write _

/-- And so does a failure that cannot be recorded. -/
theorem recordTaskExecutionFailure_refusesCleanly (taskId : Uuid) (errorMsg : String)
    (retry : TaskRetry) (workerId : Uuid) (now : Nat) :
    Mutation.RefusesCleanly
      (recordTaskExecutionFailure taskId errorMsg retry workerId now) := by
  refine .after_readOnly Mutation.readOnly_current fun job =>
    .after_readOnly (Mutation.readOnly_ofExcept _) fun task => ?_
  split
  · exact (Mutation.total_pure _).refusesCleanly
  · exact failTask_refusesCleanly _ _ _ _ _

/-- And so does an iteration that cannot be planned. -/
theorem nextIteration_refusesCleanly (jobDef : JobDefinition) (workerId mintedJobId : Uuid)
    (idsByPosition : List Uuid) (now : Nat) :
    Mutation.RefusesCleanly
      (nextIteration jobDef workerId mintedJobId idsByPosition now) := by
  refine .after_readOnly Mutation.readOnly_current fun job => ?_
  split
  · exact (Mutation.readOnly_refuse _).refusesCleanly
  · exact .after_readOnly (Mutation.readOnly_ofExcept _) fun _ =>
      .after_readOnly (Mutation.readOnly_ofExcept _) fun _ =>
        (Mutation.total_write _).refusesCleanly

/-! ## Merges -/

theorem failTasksByLifetime_total (now : Nat) : Mutation.Total (failTasksByLifetime now) := by
  intro job e job' h
  obtain ⟨m, hok, -⟩ := failTasksByLifetime_spec job.id now job
  rw [hok] at h
  cases h

theorem skipUnreachableTasks_total (now : Nat) :
    Mutation.Total (skipUnreachableTasks now) := by
  intro job e job' h
  obtain ⟨n, m, hok, -⟩ := skipUnreachableTasks_spec job.id now job
  rw [hok] at h
  cases h

/-- Everything a merged start derives and assigns follows its last check. -/
theorem mergeWithPickedTask_refusesCleanly (workerJob : Job) (workerId taskId : Uuid)
    (lifetime cascade : Nat) :
    Mutation.RefusesCleanly
      (mergeWithPickedTask workerJob workerId taskId lifetime cascade) := by
  refine .after_readOnly Mutation.readOnly_current fun job => ?_
  split
  · exact (Mutation.readOnly_refuse _).refusesCleanly
  · refine .after_readOnly (Mutation.readOnly_ofExcept _) fun _ =>
      .after_readOnly (Mutation.readOnly_ofExcept _) fun workerTask => ?_
    split
    · exact (Mutation.readOnly_refuse _).refusesCleanly
    · split
      · exact (Mutation.readOnly_refuse _).refusesCleanly
      · exact ((Mutation.total_write _).bind fun _ =>
          (failTasksByLifetime_total lifetime).bind fun _ =>
            (skipUnreachableTasks_total cascade).bind fun _ =>
              Mutation.total_write _).refusesCleanly

/-- An iteration in work is settled, left moving, or found deadlocked: every verdict is
one its status allows. -/
theorem trySettleIteration_error_of_running {w : Uuid} {now : Nat} {job job' : Job}
    {e : JobError} (hrunning : job.status = .running)
    (h : trySettleIteration w now job = (.error e, job')) :
    ∃ jobCode tasks, e = .iterationDeadlock jobCode tasks := by
  obtain ⟨m, -, -, -, hend⟩ := trySettleIteration_end w now job
  rw [h] at hend
  cases hend with
  | deadlock _ _ => exact ⟨_, _, rfl⟩
  | refused _ _ hallows _ =>
      rw [hrunning, JobStatus.running_allows_verdict] at hallows
      cases hallows

/-- A refused merge of a result found nothing to carry, or ended in a deadlock: once the
checks are passed the iteration is open, so it is put into work and settled under a
verdict that work allows. -/
theorem mergeWithProcessedTask_refused {workerJob job job' : Job} {w taskId : Uuid}
    {now : Nat} {e : JobError}
    (h : mergeWithProcessedTask workerJob w taskId now job = (.error e, job')) :
    job' = job ∨ ∃ jobCode tasks, e = .iterationDeadlock jobCode tasks := by
  unfold mergeWithProcessedTask at h
  rw [Mutation.current_bind_apply] at h
  split at h
  · cases h
    exact Or.inl rfl
  · rcases Mutation.bind_eq_error.mp h with h | ⟨_, job₀, hstolen, h⟩
    · rw [Mutation.ofExcept_apply, Prod.mk.injEq] at h
      exact Or.inl h.2.symm
    · rw [Mutation.ofExcept_apply, Prod.mk.injEq] at hstolen
      obtain ⟨-, rfl⟩ := hstolen
      split at h <;> rename_i hprocessed
      · cases h
        exact Or.inl rfl
      · rw [Bool.not_eq_true] at hprocessed
        rw [Mutation.write_bind_apply, Mutation.bind_apply] at h
        have hopen : Job.isProcessed { job.carryTasks workerJob w with
            updatedByWorkerId := w } = false := hprocessed
        obtain ⟨job₁, hensure⟩ := ensureRunning_of_open w now hopen
        obtain ⟨-, hrunning, -⟩ := ensureRunning_eq_ok hensure
        rw [hensure] at h
        dsimp only at h
        rw [Mutation.write_bind_apply] at h
        rcases Mutation.bind_eq_error.mp h with h | ⟨settled, job₂, -, h⟩
        · refine Or.inr (trySettleIteration_error_of_running ?_ h)
          exact hrunning
        · cases h

/-! ## Every mutator -/

/-- A call of one of the operations that change a job, with the identifiers and the
clock readings it takes. -/
inductive Mutator where
  | addTask (taskDef : TaskDefinition) (workerId : Uuid) (createdByTask : Option Uuid)
      (taskId : Uuid)
  | startTask (taskId workerId : Uuid) (now : Nat)
  | completeTask (taskId : Uuid) (output : Bytes) (workerId : Uuid) (now : Nat)
  | failTask (taskId : Uuid) (errorMsg : String) (retry : TaskRetry) (workerId : Uuid)
      (now : Nat)
  | skipTaskByExecutor (taskId : Uuid) (reason : String) (workerId : Uuid) (now : Nat)
  | recordTaskExecutionFailure (taskId : Uuid) (errorMsg : String) (retry : TaskRetry)
      (workerId : Uuid) (now : Nat)
  | nextIteration (jobDef : JobDefinition) (workerId mintedJobId : Uuid)
      (idsByPosition : List Uuid) (now : Nat)
  | mergeWithPickedTask (workerJob : Job) (workerId taskId : Uuid) (lifetime cascade : Nat)
  | mergeWithProcessedTask (workerJob : Job) (workerId taskId : Uuid) (now : Nat)

/-- Call an operation on a job, leaving out what it answers with. -/
def Mutator.call : Mutator → JobM Unit
  | .addTask taskDef workerId createdByTask taskId => do
      let _ ← Job.addTask taskDef workerId createdByTask taskId
  | .startTask taskId workerId now => Job.startTask taskId workerId now
  | .completeTask taskId output workerId now => Job.completeTask taskId output workerId now
  | .failTask taskId errorMsg retry workerId now => do
      let _ ← Job.failTask taskId errorMsg retry workerId now
  | .skipTaskByExecutor taskId reason workerId now =>
      Job.skipTaskByExecutor taskId reason workerId now
  | .recordTaskExecutionFailure taskId errorMsg retry workerId now => do
      let _ ← Job.recordTaskExecutionFailure taskId errorMsg retry workerId now
  | .nextIteration jobDef workerId mintedJobId idsByPosition now =>
      Job.nextIteration jobDef workerId mintedJobId idsByPosition now
  | .mergeWithPickedTask workerJob workerId taskId lifetime cascade =>
      Job.mergeWithPickedTask workerJob workerId taskId lifetime cascade
  | .mergeWithProcessedTask workerJob workerId taskId now =>
      Job.mergeWithProcessedTask workerJob workerId taskId now

/-- A deadlock found while a result is merged, the one refusal that is reported after the
result was carried over. -/
def Mutator.Deadlocks : Mutator → JobError → Prop
  | .mergeWithProcessedTask _ _ _ _, .iterationDeadlock _ _ => True
  | _, _ => False

/-- What a refused operation leaves: the job as it was, or what a merge carried before it
ended in a deadlock. -/
theorem Mutator.call_refused (mutator : Mutator) {job job' : Job} {e : JobError}
    (h : mutator.call job = (.error e, job')) : job' = job ∨ mutator.Deadlocks e := by
  cases mutator with
  | addTask taskDef workerId createdByTask taskId =>
      exact Or.inl ((addTask_refusesCleanly taskDef workerId createdByTask taskId).then_total
        (fun _ => Mutation.total_pure ()) job e job' h)
  | startTask taskId workerId now =>
      exact Or.inl (startTask_refusesCleanly taskId workerId now job e job' h)
  | completeTask taskId output workerId now =>
      exact Or.inl (completeTask_refusesCleanly taskId output workerId now job e job' h)
  | failTask taskId errorMsg retry workerId now =>
      exact Or.inl ((failTask_refusesCleanly taskId errorMsg retry workerId now).then_total
        (fun _ => Mutation.total_pure ()) job e job' h)
  | skipTaskByExecutor taskId reason workerId now =>
      exact Or.inl (skipTaskByExecutor_refusesCleanly taskId reason workerId now job e job' h)
  | recordTaskExecutionFailure taskId errorMsg retry workerId now =>
      exact Or.inl ((recordTaskExecutionFailure_refusesCleanly taskId errorMsg retry workerId
        now).then_total (fun _ => Mutation.total_pure ()) job e job' h)
  | nextIteration jobDef workerId mintedJobId idsByPosition now =>
      exact Or.inl (nextIteration_refusesCleanly jobDef workerId mintedJobId idsByPosition now job
        e job' h)
  | mergeWithPickedTask workerJob workerId taskId lifetime cascade =>
      exact Or.inl (mergeWithPickedTask_refusesCleanly workerJob workerId taskId lifetime cascade
        job e job' h)
  | mergeWithProcessedTask workerJob workerId taskId now =>
      rcases mergeWithProcessedTask_refused h with hsame | ⟨jobCode, tasks, rfl⟩
      · exact Or.inl hsame
      · exact Or.inr trivial

/-- A refused operation leaves the job and every one of its tasks as they were; only a
merge that ends in a deadlock keeps what it carried. -/
theorem refused_leaves_job (mutator : Mutator) {job job' : Job} {e : JobError}
    (h : mutator.call job = (.error e, job')) (hdeadlock : ¬ mutator.Deadlocks e) :
    job' = job :=
  (mutator.call_refused h).resolve_right hdeadlock

/-- A result that comes after its iteration was closed. -/
theorem closed_iteration_refuses_result :
    ∃ job', Mutator.call (.mergeWithProcessedTask detourJob 0 2 9)
        { detourJob with status := .failed } =
          (.error (.iterationAlreadySettled "job"), job') ∧
      job' = { detourJob with status := .failed } := by
  refine ⟨_, rfl, ?_⟩
  exact refused_leaves_job (.mergeWithProcessedTask detourJob 0 2 9) (e :=
    .iterationAlreadySettled "job") rfl (fun h => h)

end Job

end JobManager
