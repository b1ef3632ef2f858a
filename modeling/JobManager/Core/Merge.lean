import JobManager.Core.Settle

/-!
# Merging concurrent copies

A conditional write that lost its race is repeated on top of the state that won.
What is carried over differs by what the worker was saving: the start of a task
it picked, or the result of one it processed.
-/

namespace JobManager

namespace Job

/-- Carry the task this worker started onto the state that won the race.  The
lifetime failures and the cascade are derived again here, at the two moments the
merge reads the clock. -/
def mergeWithPickedTask (workerJob : Job) (workerId taskId : Uuid)
    (lifetime cascade : Nat) : JobM Unit := do
  let job ← Mutation.current
  if job.id ≠ workerJob.id then
    .refuse (.other s!"merge picked task for job '{job.code}' failed - IDs are different")
  else
    Mutation.ofExcept (job.checkTaskStolen taskId workerId)
    let workerTask ← Mutation.ofExcept (workerJob.findTask taskId)
    if !workerTask.isStarted then
      .refuse (.other
        s!"merge picked task for job '{job.code}' failed - worker task is not started by worker '{workerId}'")
    else
      match job.status.transitionTo workerJob.status with
      | .error e =>
          .refuse (.other
            s!"merge picked task for job '{job.code}' status failed: {e.toText}")
      | .ok status =>
          Mutation.write ({ · with status := status })
          failTasksByLifetime lifetime
          let _ ← skipUnreachableTasks cascade
          Mutation.write fun job =>
            { job.setTask workerTask with
              updatedByWorkerId := workerId
              runningAt := job.runningAt.or workerJob.runningAt }

/-- Whether the worker's copy of a task is one this execution created: absent from
the stored state, so nothing there can be newer. -/
def isCreatedNow (stored : TaskMap) (workerId : Uuid) (workerTask : Task) : Bool :=
  workerTask.createdByWorker = workerId && workerTask.processingByWorker.isNone &&
    (stored.get workerTask.id).isNone

/-- Whether the worker's copy names this worker as the one processing the task. -/
def isProcessedNow (workerId : Uuid) (workerTask : Task) : Bool :=
  workerTask.processingByWorker = some workerId

/-- Carry one task of the worker's copy over, where the filter lets it through. -/
def carryTask (workerId : Uuid) (stored : TaskMap) (workerTask : Task) : TaskMap :=
  if isCreatedNow stored workerId workerTask || isProcessedNow workerId workerTask then
    stored.insert workerTask
  else stored

/-- Carry what this worker changed since it read the job onto the stored state. -/
def carryTasks (job workerJob : Job) (workerId : Uuid) : Job :=
  { job with tasksById := workerJob.tasks.foldl (carryTask workerId) job.tasksById }

/-- Carry the result this worker holds onto the state that was stored, and derive
the iteration's verdict again on what the two make together. -/
def mergeWithProcessedTask (workerJob : Job) (workerId taskId : Uuid) (now : Nat) :
    JobM Unit := do
  let job ← Mutation.current
  if job.id ≠ workerJob.id then
    .refuse (.other s!"merge job '{job.code}' failed - IDs are different")
  else
    Mutation.ofExcept (job.checkTaskStolen taskId workerId)
    if job.isProcessed then .refuse (.iterationAlreadySettled job.code)
    else
      Mutation.write fun job =>
        { job.carryTasks workerJob workerId with updatedByWorkerId := workerId }
      ensureRunning workerId now
      Mutation.write fun job =>
        { job with
          runningAt := workerJob.runningAt.or job.runningAt
          nextStartAt := workerJob.nextStartAt.or job.nextStartAt }
      let _ ← trySettleIteration workerId now
      return ()

end Job

end JobManager
