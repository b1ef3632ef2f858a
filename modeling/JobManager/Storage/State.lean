import JobManager.Core.Merging

/-!
# Persisted state

What of a job reaches storage and what a reader gets back.  Durations are kept in
whole milliseconds, the execution that created a task is not kept at all, and the
settings of the job are read from its description on every load.

Main results:

- Theorem {lit}`get_taskMap_fromJob`: a stored and restored job holds the stored and
  restored tasks.
- Theorem {lit}`Task.persisted_persisted`: storing what was restored changes nothing.
- Theorem {lit}`fromJob_intoJob_fromJob`: what a reader stores again is what it read.
-/

namespace JobManager

/-- A task as it is stored. -/
structure StoredTask where
  id : Uuid
  code : String
  status : TaskStatus
  createdByWorker : Uuid
  timeoutMs : Nat
  maxLifetimeMs : Nat
  processingBy : Option Uuid
  startedAt : Option Nat
  completedAt : Option Nat
  deadlineAt : Option Nat
  lifetimeDeadlineAt : Option Nat
  attempt : Nat
  maxAttempts : Nat
  input : Bytes
  output : Bytes
  resolutionReason : String
  retry : TaskRetry
  tolerance : DependencyTolerance
  dependsOn : List Uuid
deriving DecidableEq

namespace StoredTask

def fromTask (t : Task) : StoredTask where
  id := t.id
  code := t.code
  status := t.status
  createdByWorker := t.createdByWorker
  timeoutMs := numMilliseconds t.timeout
  maxLifetimeMs := numMilliseconds t.maxLifetime
  processingBy := t.processingByWorker
  startedAt := t.startedAt
  completedAt := t.completedAt
  deadlineAt := t.deadlineAt
  lifetimeDeadlineAt := t.lifetimeDeadlineAt
  attempt := t.attempt
  maxAttempts := t.maxAttempts
  input := t.input
  output := t.output
  resolutionReason := t.resolutionReason
  retry := t.retry
  tolerance := t.tolerance
  dependsOn := t.dependsOn

/-- Restore a stored task; it belongs to no execution. -/
def intoTask (s : StoredTask) : Task where
  id := s.id
  code := s.code
  status := s.status
  processingByWorker := s.processingBy
  createdByWorker := s.createdByWorker
  createdByTask := none
  timeout := milliseconds s.timeoutMs
  maxLifetime := milliseconds s.maxLifetimeMs
  startedAt := s.startedAt
  completedAt := s.completedAt
  deadlineAt := s.deadlineAt
  lifetimeDeadlineAt := s.lifetimeDeadlineAt
  attempt := s.attempt
  maxAttempts := s.maxAttempts
  input := s.input
  output := s.output
  resolutionReason := s.resolutionReason
  retry := s.retry
  tolerance := s.tolerance
  dependsOn := s.dependsOn

end StoredTask

/-- A task as a reader of the stored state gets it. -/
def Task.persisted (t : Task) : Task := (StoredTask.fromTask t).intoTask

/-- A job as it is stored. -/
structure StoredJob where
  id : Uuid
  code : String
  iterNum : Nat
  status : JobStatus
  tasks : List StoredTask
  updatedBy : Uuid
  startedAt : Nat
  runningAt : Option Nat
  completedAt : Option Nat
  nextStartAt : Option Nat
  metadata : Option Metadata
deriving DecidableEq

namespace StoredJob

def fromJob (job : Job) : StoredJob where
  id := job.id
  code := job.code
  iterNum := job.iterNum
  status := job.status
  tasks := job.tasks.map StoredTask.fromTask
  updatedBy := job.updatedByWorkerId
  startedAt := job.startedAt
  runningAt := job.runningAt
  completedAt := job.completedAt
  nextStartAt := job.nextStartAt
  metadata := if job.metadata.isEmpty then none else some job.metadata

/-- Restore a stored job under the settings of its description. -/
def intoJob (s : StoredJob) (maxIterations iterationInterval : Option Nat)
    (taskLimits : TaskLimits) (version : String) : Job where
  id := s.id
  code := s.code
  iterNum := s.iterNum
  status := s.status
  tasksById := KeyedMap.empty.insertAll (s.tasks.map StoredTask.intoTask)
  updatedByWorkerId := s.updatedBy
  startedAt := s.startedAt
  runningAt := s.runningAt
  completedAt := s.completedAt
  nextStartAt := s.nextStartAt
  metadata := s.metadata.getD []
  version := version
  maxIterations := maxIterations
  iterationInterval := iterationInterval
  taskLimits := taskLimits

end StoredJob

/-- What a reader of the stored job gets, under the settings the job carries. -/
def copyPersistedState (job : Job) : Job :=
  (StoredJob.fromJob job).intoJob job.maxIterations job.iterationInterval job.taskLimits
    job.version

/-! ## What storage keeps of a task -/

namespace Task

variable (t : Task)

@[simp] theorem persisted_id : t.persisted.id = t.id := rfl
@[simp] theorem persisted_status : t.persisted.status = t.status := rfl
@[simp] theorem persisted_processingByWorker :
    t.persisted.processingByWorker = t.processingByWorker := rfl
@[simp] theorem persisted_createdByWorker :
    t.persisted.createdByWorker = t.createdByWorker := rfl
@[simp] theorem persisted_createdByTask : t.persisted.createdByTask = none := rfl
@[simp] theorem persisted_deadlineAt : t.persisted.deadlineAt = t.deadlineAt := rfl
@[simp] theorem persisted_lifetimeDeadlineAt :
    t.persisted.lifetimeDeadlineAt = t.lifetimeDeadlineAt := rfl
@[simp] theorem persisted_output : t.persisted.output = t.output := rfl
@[simp] theorem persisted_tolerance : t.persisted.tolerance = t.tolerance := rfl
@[simp] theorem persisted_dependsOn : t.persisted.dependsOn = t.dependsOn := rfl

/-- Storing what was restored changes nothing. -/
@[simp] theorem persisted_persisted : t.persisted.persisted = t.persisted := by
  have hms : ∀ d : Nat, milliseconds (numMilliseconds (milliseconds (numMilliseconds d))) =
      milliseconds (numMilliseconds d) := by
    intro d
    unfold milliseconds numMilliseconds
    rw [Nat.mul_div_cancel _ (by decide)]
  unfold persisted StoredTask.intoTask StoredTask.fromTask
  simp only [hms]

end Task

/-! ## What storage keeps of a job -/

/-- The tasks of a stored job, restored. -/
def StoredJob.taskMap (s : StoredJob) : TaskMap :=
  KeyedMap.empty.insertAll (s.tasks.map StoredTask.intoTask)

/-- A stored and restored job holds the stored and restored tasks. -/
theorem get_taskMap_fromJob (job : Job) (id : Uuid) :
    (StoredJob.fromJob job).taskMap.get id = (job.task? id).map Task.persisted := by
  have hids : ((job.tasks.map Task.persisted).map Task.id) = job.tasks.map Task.id := by
    rw [List.map_map]
    rfl
  have hlist : (StoredJob.fromJob job).tasks.map StoredTask.intoTask =
      job.tasks.map Task.persisted := by
    rw [StoredJob.fromJob, List.map_map]
    rfl
  unfold StoredJob.taskMap
  rw [hlist, KeyedMap.get_insertAll (by rw [hids]; exact job.tasksById.nodup),
    KeyedMap.get_empty, Option.or_none, List.find?_map]
  rfl

/-- What was stored of a job is stored again of the job its reader gets. -/
theorem fromJob_intoJob_fromJob (job : Job) (maxIterations iterationInterval : Option Nat)
    (taskLimits : TaskLimits) (version : String) :
    StoredJob.fromJob ((StoredJob.fromJob job).intoJob maxIterations iterationInterval taskLimits
      version) = StoredJob.fromJob job := by
  have htask : ∀ s : StoredTask, StoredTask.fromTask s.intoTask = s := by
    intro s
    unfold StoredTask.intoTask StoredTask.fromTask numMilliseconds milliseconds
    simp
  have hids : (((StoredJob.fromJob job).tasks.map StoredTask.intoTask).map Task.id).Nodup := by
    have heq : ((StoredJob.fromJob job).tasks.map StoredTask.intoTask).map Task.id =
        job.tasks.map Task.id := by
      rw [StoredJob.fromJob, List.map_map, List.map_map]
      rfl
    rw [heq]
    exact job.tasksById.nodup
  have htasks : (((StoredJob.fromJob job).intoJob maxIterations iterationInterval taskLimits
      version).tasks.map StoredTask.fromTask) = (StoredJob.fromJob job).tasks := by
    have hvalues : ((StoredJob.fromJob job).intoJob maxIterations iterationInterval taskLimits
        version).tasks = (StoredJob.fromJob job).tasks.map StoredTask.intoTask :=
      KeyedMap.values_insertAll_empty hids
    rw [hvalues, List.map_map]
    exact List.map_id'' htask _
  have hmetadata : (if ((StoredJob.fromJob job).metadata.getD []).isEmpty then none
      else some ((StoredJob.fromJob job).metadata.getD [])) = (StoredJob.fromJob job).metadata := by
    unfold StoredJob.fromJob
    cases job.metadata <;> rfl
  rw [StoredJob.fromJob, htasks]
  unfold StoredJob.intoJob
  rw [hmetadata]

end JobManager
