import JobManager.Core.Definition
import JobManager.Library.KeyedMap
import JobManager.Library.Mutation

/-!
# Jobs

One iteration of a job as a worker holds it, with the operations that change it.
An operation takes the job it mutates as state and may be refused; what it has
already assigned by then stays assigned, exactly as a method on a mutable
reference leaves it.  Fresh identifiers and clock readings are arguments.

Main results:

- Theorems {lit}`startTask_eq_ok`, {lit}`completeTask_eq_ok`, {lit}`failTask_eq_ok`,
  {lit}`skipTaskByExecutor_eq_ok` and {lit}`addTask_eq_ok`: what an accepted
  operation required and the job it leaves.
-/

namespace JobManager

/-- The tasks of an iteration by identifier. -/
abbrev TaskMap := KeyedMap Task.id

/-- Free-form entries attached to a job; a value is kept as its JSON text. -/
abbrev Metadata := List (String × String)

/-- One iteration of a job. -/
structure Job where
  id : Uuid
  code : String
  iterNum : Nat
  status : JobStatus
  tasksById : TaskMap
  updatedByWorkerId : Uuid
  startedAt : Nat
  runningAt : Option Nat
  completedAt : Option Nat
  nextStartAt : Option Nat
  metadata : Metadata
  version : String
  maxIterations : Option Nat
  iterationInterval : Option Nat
  taskLimits : TaskLimits

/-- What a closed iteration allows to be done about the next one. -/
inductive NextIterationStatus where
  | ready
  | dueAt (moment : Nat)
  | budgetSpent
  | unscheduled
deriving DecidableEq

/-- Whether a job's current iteration is open, and what a closed one allows. -/
inductive IterationStatus where
  | inProgress
  | closed (next : NextIterationStatus)
deriving DecidableEq

/-! ## Operations on a job -/

/-- An operation on a mutable job that may be refused. -/
abbrev JobM (α : Type) := Mutation Job JobError α

namespace Job

/-! ## State checks -/

/-- The verdict this iteration ended with, or nothing while it is still open. -/
def iterationVerdict (job : Job) : Option IterationVerdict :=
  match job.status with
  | .completed => some .completed
  | .failed => some .failed
  | .started | .running => none

def isProcessed (job : Job) : Bool := job.iterationVerdict.isSome

def isReadyForProcessing (job : Job) : Bool :=
  job.status = .started || job.status = .running

def isIterationLimitReached (job : Job) : Bool :=
  match job.maxIterations with
  | some maxIterations => maxIterations ≤ job.iterNum
  | none => false

/-- Earliest moment the domain allows the next iteration to begin. -/
def nextIterationStartAt (job : Job) : Option Nat :=
  if !job.isProcessed || job.isIterationLimitReached then none
  else
    match job.nextStartAt with
    | some nextStartAt => some nextStartAt
    | none =>
        match job.iterationInterval with
        | none => some job.startedAt
        | some interval => (durationFromStd interval).bind (checkedAdd job.startedAt ·)

/-- Whether the current iteration is open, and what this state allows to be done
about the next one once it is not. -/
def findIterationStatus (job : Job) (now : Nat) : IterationStatus :=
  if !job.isProcessed then .inProgress
  else if job.isIterationLimitReached then .closed .budgetSpent
  else
    .closed <|
      match job.nextIterationStartAt with
      | some due => if due ≤ now then .ready else .dueAt due
      | none => .unscheduled

def isReadyToNextIteration (job : Job) (now : Nat) : Bool :=
  job.findIterationStatus now = .closed .ready

/-- The tasks in iteration order. -/
def tasks (job : Job) : List Task := job.tasksById.values

/-- Look a task up. -/
def task? (job : Job) (taskId : Uuid) : Option Task := job.tasksById.get taskId

/-- Borrow the task {lit}`taskId` names. -/
def findTask (job : Job) (taskId : Uuid) : Except JobError Task :=
  match job.task? taskId with
  | some task => .ok task
  | none => .error .taskNotFound

/-- Put a task into the map under its identifier. -/
def setTask (job : Job) (task : Task) : Job :=
  { job with tasksById := job.tasksById.insert task }

/-- Summary of the first tasks, for a log or an error. -/
def tasksAsString (job : Job) : String :=
  let shown := (job.tasks.take 4).map fun t =>
    s!"id: {t.id}; code: {t.code}; status: {t.status.toText}; "
  String.join shown ++ (if 4 ≤ job.tasks.length then "..." else "")

/-- Refuse what {lit}`workerId` is about to do with a task another worker holds. -/
def checkTaskOwner (task : Task) (workerId : Uuid) : Except JobError Unit :=
  match task.processingByWorker with
  | some owner => if owner ≠ workerId then .error .taskWorkerMismatch else .ok ()
  | none => .ok ()

/-- Refuse to merge a task another worker owns in this state. -/
def checkTaskStolen (job : Job) (taskId workerId : Uuid) : Except JobError Unit := do
  checkTaskOwner (← job.findTask taskId) workerId

def validateTaskOutput (output : Bytes) (limits : TaskLimits) : Except JobError Unit :=
  if limits.maxOutputBytes < output.length then
    .error (.other s!"task output size {output.length} exceeds limit {limits.maxOutputBytes}")
  else .ok ()

/-! ## Planning an iteration -/

/-- Identifiers the positional dependencies of an initial task resolve to. -/
def resolvePositions (idsByPosition : List Uuid) (dependsOn : List TaskRef) :
    Except JobError (List Uuid) :=
  dependsOn.mapM fun dependency =>
    match dependency with
    | .initial _ position =>
        match idsByPosition[position]? with
        | some id => .ok id
        | none => .error (.other s!"dependency reference {position} is out of range")
    | .created id =>
        .error (.other s!"initial task cannot depend on task '{id}' created at runtime")

/-- Instantiate the initial tasks from the given position on. -/
def planTasks (idsByPosition : List Uuid) (workerId : Uuid) :
    Nat → List TaskDefinition → TaskMap → Except JobError TaskMap
  | _, [], tasks => .ok tasks
  | position, taskDef :: taskDefs, tasks => do
      let resolved ← resolvePositions idsByPosition taskDef.dependsOn
      match idsByPosition[position]? with
      | none => .error (.other s!"initial task {position} has no identifier")
      | some id =>
          planTasks idsByPosition workerId (position + 1) taskDefs
            (tasks.insert (Task.new id workerId none taskDef resolved))

/-- Create the first iteration of a job from its description. -/
def new (jobDef : JobDefinition) (metadata : Metadata) (workerId : Uuid)
    (jobId : Uuid) (idsByPosition : List Uuid) (now : Nat) : Except JobError Job := do
  let tasks ← planTasks idsByPosition workerId 0 jobDef.initialTasks KeyedMap.empty
  return {
    id := jobId
    code := jobDef.code
    iterNum := 1
    status := .started
    tasksById := tasks
    updatedByWorkerId := workerId
    startedAt := now
    runningAt := none
    completedAt := none
    nextStartAt := none
    metadata := metadata
    version := ""
    maxIterations := jobDef.maxIterations
    iterationInterval := jobDef.iterationInterval
    taskLimits := jobDef.taskLimits }

/-- The job under the version its write was answered with. -/
def updateVersion (job : Job) (version : String) : Job := { job with version := version }

section UpdateVersion

variable (job : Job) (version : String)

@[simp] theorem version_updateVersion : (job.updateVersion version).version = version := rfl
@[simp] theorem iterNum_updateVersion : (job.updateVersion version).iterNum = job.iterNum := rfl
@[simp] theorem code_updateVersion : (job.updateVersion version).code = job.code := rfl

end UpdateVersion

/-- Prepare the job for the next iteration. -/
def nextIteration (jobDef : JobDefinition) (workerId : Uuid) (mintedJobId : Uuid)
    (idsByPosition : List Uuid) (now : Nat) : JobM Unit := do
  let job ← Mutation.current
  if !job.isReadyToNextIteration now then
    .refuse (.other "job is not ready to next iteration")
  else
    .ofExcept (job.status.canTransitionTo .started)
    let newJob ← .ofExcept
      (new jobDef job.metadata workerId mintedJobId idsByPosition now)
    .write fun _ =>
      { newJob with id := job.id, iterNum := job.iterNum + 1, startedAt := now }

/-! ## Task operations -/

/-- Mutate the task {lit}`taskId` names through an operation it may refuse. -/
def updateTask (taskId : Uuid) (f : Task → Except JobError Task) : JobM Unit := do
  let job ← Mutation.current
  let task ← Mutation.ofExcept (job.findTask taskId)
  let task ← Mutation.ofExcept (f task)
  Mutation.write (·.setTask task)

/-- Identifiers the dependencies of a runtime task resolve to: each has to name a
task the iteration holds. -/
def resolveCreated (job : Job) (dependsOn : List TaskRef) : Except JobError (List Uuid) :=
  dependsOn.mapM fun dependency =>
    match dependency with
    | .initial _ position =>
        .error (.other
          s!"task created at runtime cannot depend on initial task position {position}")
    | .created dependencyId =>
        match job.task? dependencyId with
        | some _ => .ok dependencyId
        | none => .error (.other s!"dependency task '{dependencyId}' not found")

/-- Refuse a creation by an execution that already failed its own task. -/
def checkParent (job : Job) : Option Uuid → Except JobError Unit
  | none => .ok ()
  | some parentId => do
      let parent ← job.findTask parentId
      if parent.isFailed then
        .error (.other
          s!"task '{parentId}' cannot create a task: its execution failed and what it created was rolled back")
      else .ok ()

/-- Register a task in the current iteration and return its identifier. -/
def addTask (taskDef : TaskDefinition) (workerId : Uuid) (createdByTask : Option Uuid)
    (taskId : Uuid) : JobM Uuid := do
  let job ← Mutation.current
  Mutation.ofExcept (taskDef.validate job.taskLimits)
  Mutation.ofExcept <|
    if taskDef.isDeclaresToleranceValid then .ok ()
    else .error (.other
      s!"task '{taskDef.code}' declares a dependency tolerance without dependencies")
  Mutation.ofExcept (job.checkParent createdByTask)
  let resolved ← Mutation.ofExcept (job.resolveCreated taskDef.dependsOn)
  Mutation.write (·.setTask (Task.new taskId workerId createdByTask taskDef resolved))
  return taskId

/-- Hand the task to the worker. -/
def startTask (taskId workerId : Uuid) (now : Nat) : JobM Unit := do
  updateTask taskId (·.start workerId now)
  Mutation.write ({ · with updatedByWorkerId := workerId })

/-- Store {lit}`output` as the result of the task on behalf of the worker. -/
def completeTask (taskId : Uuid) (output : Bytes) (workerId : Uuid) (now : Nat) :
    JobM Unit := do
  let job ← Mutation.current
  Mutation.ofExcept (validateTaskOutput output job.taskLimits)
  updateTask taskId fun task => do
    checkTaskOwner task workerId
    task.complete output now

/-- Fail the task and drop the tasks its execution created, returning how many were
dropped. -/
def failTask (taskId : Uuid) (errorMsg : String) (retry : TaskRetry) (workerId : Uuid)
    (now : Nat) : JobM Nat := do
  updateTask taskId fun task => do
    checkTaskOwner task workerId
    task.fail errorMsg retry now
  let countBefore ← Mutation.read (·.tasksById.size)
  Mutation.write fun job =>
    { job with tasksById := job.tasksById.filter (·.createdByTask ≠ some taskId) }
  let countAfter ← Mutation.read (·.tasksById.size)
  return countBefore - countAfter

/-- Skip the task on the decision of the executor running it. -/
def skipTaskByExecutor (taskId : Uuid) (reason : String) (workerId : Uuid) (now : Nat) :
    JobM Unit :=
  updateTask taskId fun task => do
    checkTaskOwner task workerId
    task.skip reason .executorDecision now

/-- Record that the execution ended in failure, failing the task unless its
executor already resolved it. -/
def recordTaskExecutionFailure (taskId : Uuid) (errorMsg : String) (retry : TaskRetry)
    (workerId : Uuid) (now : Nat) : JobM Nat := do
  let job ← Mutation.current
  let task ← Mutation.ofExcept (job.findTask taskId)
  if task.isResolved then return 0
  else failTask taskId errorMsg retry workerId now

/-- Set the earliest moment the next iteration is allowed to start. -/
def setNextStartAt (nextStartAt : Nat) : JobM Unit :=
  Mutation.write ({ · with nextStartAt := some nextStartAt })

/-- Move the iteration into work. -/
def startWork (workerId : Uuid) (now : Nat) : JobM Unit := do
  let job ← Mutation.current
  let status ← Mutation.ofExcept (job.status.transitionTo .running)
  Mutation.write ({ · with
    status := status, updatedByWorkerId := workerId, runningAt := some now })

/-- Move the iteration into work unless it is in work already. -/
def ensureRunning (workerId : Uuid) (now : Nat) : JobM Unit := do
  let job ← Mutation.current
  if job.status ≠ .running then startWork workerId now else pure ()

/-! ## Lookup after an update -/

/-- The tasks of a job are those it finds under their identifiers. -/
theorem mem_tasks_iff {job : Job} {t : Task} : t ∈ job.tasks ↔ job.task? t.id = some t :=
  KeyedMap.mem_values_iff_get

/-- A task is kept under its own identifier. -/
theorem id_of_task? {job : Job} {taskId : Uuid} {t : Task} (h : job.task? taskId = some t) :
    t.id = taskId :=
  KeyedMap.key_of_get h

/-- What a job finds is one of its tasks. -/
theorem mem_tasks_of_task? {job : Job} {taskId : Uuid} {t : Task}
    (h : job.task? taskId = some t) : t ∈ job.tasks :=
  KeyedMap.mem_values_of_get h

/-- Setting a task changes what is found under its identifier only. -/
theorem task?_setTask (job : Job) (t : Task) (taskId : Uuid) :
    (job.setTask t).task? taskId = if t.id = taskId then some t else job.task? taskId :=
  KeyedMap.get_insert job.tasksById t taskId

@[simp] theorem task?_setTask_self (job : Job) (t : Task) :
    (job.setTask t).task? t.id = some t := by
  simp [task?_setTask]

/-- Every other task stays. -/
theorem task?_setTask_of_ne {job : Job} {t : Task} {taskId : Uuid} (h : t.id ≠ taskId) :
    (job.setTask t).task? taskId = job.task? taskId := by
  simp [task?_setTask, h]

/-- The job with its task map replaced. -/
def withTasks (job : Job) (tasks : TaskMap) : Job := { job with tasksById := tasks }

@[simp] theorem withTasks_withTasks (job : Job) (tasks tasks' : TaskMap) :
    (job.withTasks tasks).withTasks tasks' = job.withTasks tasks' := rfl

@[simp] theorem tasksById_withTasks (job : Job) (tasks : TaskMap) :
    (job.withTasks tasks).tasksById = tasks := rfl

@[simp] theorem status_withTasks (job : Job) (tasks : TaskMap) :
    (job.withTasks tasks).status = job.status := rfl

/-- Drop the tasks the execution of {lit}`taskId` created. -/
def rollback (job : Job) (taskId : Uuid) : Job :=
  { job with tasksById := job.tasksById.filter (·.createdByTask ≠ some taskId) }

/-- A rollback takes away the tasks the execution created, and no other. -/
theorem task?_rollback (job : Job) (taskId other : Uuid) :
    (job.rollback taskId).task? other =
      (job.task? other).filter (·.createdByTask ≠ some taskId) :=
  KeyedMap.get_filter job.tasksById _ other

/-! ## What accepted operations leave -/

/-- The next iteration may start once this one is processed, the budget allows one more and its
start is due. -/
theorem findIterationStatus_eq_ready {job : Job} {now : Nat} :
    job.findIterationStatus now = .closed .ready ↔
      job.isProcessed = true ∧ job.isIterationLimitReached = false ∧
        ∃ due, job.nextIterationStartAt = some due ∧ due ≤ now := by
  unfold findIterationStatus
  cases job.isProcessed <;> cases job.isIterationLimitReached <;>
    cases job.nextIterationStartAt <;> simp

/-- A task is found exactly where the job holds it. -/
theorem findTask_eq_ok {job : Job} {taskId : Uuid} {t : Task} :
    job.findTask taskId = .ok t ↔ job.task? taskId = some t := by
  unfold findTask
  split <;> simp_all

/-- An execution that may still create tasks has its own task on the copy. -/
theorem exists_of_checkParent {job : Job} {taskId : Uuid}
    (h : job.checkParent (some taskId) = .ok ()) : ∃ t, job.task? taskId = some t := by
  rw [checkParent, JobManager.bind_eq_ok] at h
  obtain ⟨t, ht, -⟩ := h
  exact ⟨t, findTask_eq_ok.mp ht⟩

/-- An execution that may still create tasks has not failed. -/
theorem not_failed_of_checkParent {job : Job} {taskId : Uuid} {t : Task}
    (h : job.checkParent (some taskId) = .ok ()) (ht : job.task? taskId = some t) :
    t.status ≠ .failed := by
  intro hfailed
  rw [checkParent, findTask_eq_ok.mpr ht] at h
  simp [Task.isFailed, hfailed, bind, Except.bind] at h

/-- An accepted update replaces the task it named, and nothing else. -/
theorem updateTask_eq_ok {taskId : Uuid} {f : Task → Except JobError Task} {job job' : Job}
    {u : Unit} :
    updateTask taskId f job = (.ok u, job') ↔
      ∃ t t', job.task? taskId = some t ∧ f t = .ok t' ∧ job.setTask t' = job' := by
  simp only [updateTask, Mutation.current_bind_apply, Mutation.ofExcept_bind_eq_ok,
    Mutation.write_apply, findTask_eq_ok, Prod.mk.injEq, true_and, exists_and_left]

/-- An update of a task the job holds is what the task answers. -/
theorem updateTask_apply {taskId : Uuid} {f : Task → Except JobError Task} {job : Job} {t : Task}
    (ht : job.task? taskId = some t) :
    updateTask taskId f job =
      match f t with
      | .ok t' => (.ok (), job.setTask t')
      | .error e => (.error e, job) := by
  rw [updateTask, Mutation.current_bind_apply, Mutation.bind_apply, Mutation.ofExcept_apply,
    findTask_eq_ok.mpr ht]
  dsimp only
  rw [Mutation.bind_apply, Mutation.ofExcept_apply]
  cases f t <;> rfl

/-! Refused operations leave the job as it was: every check precedes the assignment. -/

/-- A refused update of a task leaves the job as it was. -/
theorem updateTask_refusesCleanly (taskId : Uuid) (f : Task → Except JobError Task) :
    Mutation.RefusesCleanly (updateTask taskId f) :=
  .after_readOnly Mutation.readOnly_current fun _ =>
    .after_readOnly (Mutation.readOnly_ofExcept _) fun _ =>
      .after_readOnly (Mutation.readOnly_ofExcept _) fun _ =>
        (Mutation.total_write _).refusesCleanly

/-- A refused addition of a task leaves the job as it was. -/
theorem addTask_refusesCleanly (taskDef : TaskDefinition) (workerId : Uuid)
    (createdByTask : Option Uuid) (taskId : Uuid) :
    Mutation.RefusesCleanly (addTask taskDef workerId createdByTask taskId) :=
  .after_readOnly Mutation.readOnly_current fun _ =>
    .after_readOnly (Mutation.readOnly_ofExcept _) fun _ =>
      .after_readOnly (Mutation.readOnly_ofExcept _) fun _ =>
        .after_readOnly (Mutation.readOnly_ofExcept _) fun _ =>
          .after_readOnly (Mutation.readOnly_ofExcept _) fun _ =>
            ((Mutation.total_write _).bind fun _ => Mutation.total_pure _).refusesCleanly

/-- A refused completion leaves the job as it was. -/
theorem completeTask_refusesCleanly (taskId : Uuid) (output : Bytes) (workerId : Uuid)
    (now : Nat) : Mutation.RefusesCleanly (completeTask taskId output workerId now) :=
  .after_readOnly Mutation.readOnly_current fun _ =>
    .after_readOnly (Mutation.readOnly_ofExcept _) fun _ => updateTask_refusesCleanly _ _

/-- A refused failure leaves the job as it was: the rollback comes after it. -/
theorem failTask_refusesCleanly (taskId : Uuid) (errorMsg : String) (retry : TaskRetry)
    (workerId : Uuid) (now : Nat) :
    Mutation.RefusesCleanly (failTask taskId errorMsg retry workerId now) :=
  .then_total (updateTask_refusesCleanly _ _) fun _ =>
    (Mutation.total_read _).bind fun _ => (Mutation.total_write _).bind fun _ =>
      (Mutation.total_read _).bind fun _ => Mutation.total_pure _

/-- A refused skip leaves the job as it was. -/
theorem skipTaskByExecutor_refusesCleanly (taskId : Uuid) (reason : String) (workerId : Uuid)
    (now : Nat) : Mutation.RefusesCleanly (skipTaskByExecutor taskId reason workerId now) :=
  updateTask_refusesCleanly _ _

/-- A task may be resolved by whoever holds it, and by anybody where nobody does. -/
theorem checkTaskOwner_eq_ok {t : Task} {workerId : Uuid} :
    checkTaskOwner t workerId = .ok () ↔
      t.processingByWorker = none ∨ t.processingByWorker = some workerId := by
  unfold checkTaskOwner
  split <;> rename_i h
  · split <;> simp_all
  · simp [h]

/-- A task is not stolen where the job holds it and no other worker does. -/
theorem checkTaskStolen_eq_ok {job : Job} {taskId workerId : Uuid} :
    job.checkTaskStolen taskId workerId = .ok () ↔
      ∃ t, job.task? taskId = some t ∧
        (t.processingByWorker = none ∨ t.processingByWorker = some workerId) := by
  unfold checkTaskStolen
  rw [bind_eq_ok]
  simp only [findTask_eq_ok, checkTaskOwner_eq_ok]

/-- A stolen task is refused for its owner or for being unknown, never as a deadlock. -/
theorem checkTaskStolen_ne_deadlock {job : Job} {taskId workerId : Uuid}
    {jobCode tasks : String} :
    job.checkTaskStolen taskId workerId ≠ .error (.iterationDeadlock jobCode tasks) := by
  intro h
  unfold checkTaskStolen findTask at h
  cases ht : job.task? taskId with
  | none =>
      rw [ht] at h
      cases h
  | some t =>
      rw [ht] at h
      have howner : checkTaskOwner t workerId = .error (.iterationDeadlock jobCode tasks) := h
      unfold checkTaskOwner at howner
      split at howner
      · split at howner <;> cases howner
      · cases howner

/-- What a start leaves of the job. -/
theorem startTask_eq_ok {taskId workerId : Uuid} {now : Nat} {job job' : Job} {u : Unit} :
    startTask taskId workerId now job = (.ok u, job') ↔
      ∃ t t', job.task? taskId = some t ∧ t.start workerId now = .ok t' ∧
        { job.setTask t' with updatedByWorkerId := workerId } = job' := by
  simp only [startTask, Mutation.bind_eq_ok, updateTask_eq_ok, Mutation.write_apply,
    Prod.mk.injEq, true_and]
  constructor
  · rintro ⟨-, _, ⟨t, t', ht, ht', rfl⟩, rfl⟩
    exact ⟨t, t', ht, ht', rfl⟩
  · rintro ⟨t, t', ht, ht', rfl⟩
    exact ⟨(), job.setTask t', ⟨t, t', ht, ht', rfl⟩, rfl⟩

/-- What a completion asks for and leaves. -/
theorem completeTask_eq_ok {taskId : Uuid} {output : Bytes} {workerId : Uuid} {now : Nat}
    {job job' : Job} {u : Unit}
    (h : completeTask taskId output workerId now job = (.ok u, job')) :
    output.length ≤ job.taskLimits.maxOutputBytes ∧
      ∃ t, job.task? taskId = some t ∧
        (t.processingByWorker = none ∨ t.processingByWorker = some workerId) ∧
        t.status = .started ∧ t.isLifetimeExpiredAt now = false ∧
        job.setTask (t.completedWith output now) = job' := by
  simp only [completeTask, Mutation.current_bind_apply, Mutation.ofExcept_bind_eq_ok,
    updateTask_eq_ok, bind_eq_ok] at h
  obtain ⟨_, hlimit, t, t', ht, ⟨_, howner, hcomplete⟩, rfl⟩ := h
  obtain ⟨hs, hl, rfl⟩ := Task.complete_eq_ok.mp hcomplete
  refine ⟨?_, t, ht, checkTaskOwner_eq_ok.mp howner, hs, hl, rfl⟩
  unfold validateTaskOutput at hlimit
  split at hlimit
  · cases hlimit
  · omega

/-- What a failure asks for, and what the rollback leaves. -/
theorem failTask_eq_ok {taskId : Uuid} {errorMsg : String} {retry : TaskRetry}
    {workerId : Uuid} {now count : Nat} {job job' : Job}
    (h : failTask taskId errorMsg retry workerId now job = (.ok count, job')) :
    ∃ t, job.task? taskId = some t ∧
      (t.processingByWorker = none ∨ t.processingByWorker = some workerId) ∧
      t.status = .started ∧
      (job.setTask (t.failedWith errorMsg retry now)).rollback taskId = job' := by
  simp only [failTask, Mutation.bind_eq_ok, updateTask_eq_ok, bind_eq_ok] at h
  obtain ⟨-, _, ⟨t, t', ht, ⟨_, howner, hfail⟩, rfl⟩, h⟩ := h
  obtain ⟨hs, rfl⟩ := Task.fail_eq_ok.mp hfail
  refine ⟨t, ht, checkTaskOwner_eq_ok.mp howner, hs, ?_⟩
  simp only [Mutation.read_apply, Mutation.write_apply, Mutation.pure_apply,
    Prod.mk.injEq] at h
  obtain ⟨_, _, ⟨-, rfl⟩, -, _, ⟨-, rfl⟩, _, _, ⟨-, rfl⟩, -, rfl⟩ := h
  rfl

/-- What a skip asks for and leaves. -/
theorem skipTaskByExecutor_eq_ok {taskId : Uuid} {reason : String} {workerId : Uuid}
    {now : Nat} {job job' : Job} {u : Unit}
    (h : skipTaskByExecutor taskId reason workerId now job = (.ok u, job')) :
    ∃ t, job.task? taskId = some t ∧
      (t.processingByWorker = none ∨ t.processingByWorker = some workerId) ∧
      ((t.status = .started ∧ t.isLifetimeExpiredAt now = false) ∨ t.status = .blocked) ∧
      job.setTask (t.skippedWith reason .executorDecision now) = job' := by
  simp only [skipTaskByExecutor, updateTask_eq_ok, bind_eq_ok] at h
  obtain ⟨t, t', ht, ⟨_, howner, hskip⟩, rfl⟩ := h
  obtain ⟨hs, rfl⟩ := Task.skip_eq_ok.mp hskip
  exact ⟨t, ht, checkTaskOwner_eq_ok.mp howner, hs, rfl⟩

/-- Every reference resolves to a task of the job. -/
theorem resolveCreated_eq_ok {job : Job} {dependsOn : List TaskRef} {resolved : List Uuid}
    (h : job.resolveCreated dependsOn = .ok resolved) :
    resolved.length = dependsOn.length ∧ ∀ d ∈ resolved, ∃ t, job.task? d = some t := by
  rw [resolveCreated, JobManager.mapM_eq_ok] at h
  refine ⟨h.length_eq.symm, ?_⟩
  induction h with
  | nil => simp
  | cons hd _ ih =>
      intro d' hd'
      rcases List.mem_cons.mp hd' with rfl | hd'
      · split at hd
        · cases hd
        · split at hd
          · rename_i t ht
            cases hd
            exact ⟨t, ht⟩
          · cases hd
      · exact ih d' hd'

/-- What an addition asks for and leaves. -/
theorem addTask_eq_ok {taskDef : TaskDefinition} {workerId : Uuid} {parent : Option Uuid}
    {taskId r : Uuid} {job job' : Job}
    (h : addTask taskDef workerId parent taskId job = (.ok r, job')) :
    r = taskId ∧ job.checkParent parent = .ok () ∧
      taskDef.validate job.taskLimits = .ok () ∧
      ∃ resolved, job.resolveCreated taskDef.dependsOn = .ok resolved ∧
        job.setTask (Task.new taskId workerId parent taskDef resolved) = job' := by
  simp only [addTask, Mutation.current_bind_apply, Mutation.ofExcept_bind_eq_ok,
    Mutation.write_bind_apply, Mutation.pure_apply, Prod.mk.injEq, Except.ok.injEq] at h
  obtain ⟨_, hvalid, _, -, _, hparent, resolved, hresolved, rfl, rfl⟩ := h
  exact ⟨rfl, hparent, hvalid, resolved, hresolved, rfl⟩

/-- Work starts where the status allows it. -/
theorem startWork_eq_ok {workerId : Uuid} {now : Nat} {job job' : Job} {u : Unit} :
    startWork workerId now job = (.ok u, job') ↔
      job.status.allows .running = true ∧
        { job with
          status := .running, updatedByWorkerId := workerId, runningAt := some now } =
            job' := by
  simp only [startWork, Mutation.current_bind_apply, Mutation.ofExcept_bind_eq_ok,
    Mutation.write_apply, Prod.mk.injEq, true_and, JobStatus.transitionTo_eq_ok]
  constructor
  · rintro ⟨_, ⟨hallows, rfl⟩, rfl⟩
    exact ⟨hallows, rfl⟩
  · rintro ⟨hallows, rfl⟩
    exact ⟨.running, ⟨hallows, rfl⟩, rfl⟩

/-- Putting an iteration into work is refused for a closed one alone, and touches no
task. -/
theorem ensureRunning_eq_ok {workerId : Uuid} {now : Nat} {job job' : Job} {u : Unit}
    (h : ensureRunning workerId now job = (.ok u, job')) :
    job.isProcessed = false ∧ job'.status = .running ∧
      ∃ updatedBy runningAt,
        job' = { job with
          status := .running, updatedByWorkerId := updatedBy, runningAt := runningAt } := by
  simp only [ensureRunning, Mutation.current_bind_apply] at h
  split at h <;> rename_i hs
  · rw [startWork_eq_ok] at h
    obtain ⟨hallows, rfl⟩ := h
    refine ⟨?_, rfl, workerId, some now, rfl⟩
    cases hstatus : job.status <;>
      simp_all [JobStatus.allows, isProcessed, iterationVerdict]
  · cases h
    have hstatus : job.status = .running := not_not.mp hs
    refine ⟨by simp [isProcessed, iterationVerdict, hstatus], hstatus,
      job.updatedByWorkerId, job.runningAt, ?_⟩
    rw [← hstatus]

/-- A closed iteration is refused as it is. -/
theorem ensureRunning_of_closed (workerId : Uuid) (now : Nat) {job : Job}
    (h : job.isProcessed = true) :
    ensureRunning workerId now job =
      (.error (.invalidStatusTransition job.status .running), job) := by
  have hallows : job.status.allows .running = false ∧ job.status ≠ .running := by
    cases hs : job.status <;> simp_all [JobStatus.allows, isProcessed, iterationVerdict]
  rw [ensureRunning, Mutation.current_bind_apply, if_pos hallows.2, startWork,
    Mutation.current_bind_apply, Mutation.bind_apply, Mutation.ofExcept_apply,
    JobStatus.transitionTo, JobStatus.canTransitionTo, hallows.1]
  rfl

/-- An open iteration is put into work. -/
theorem ensureRunning_of_open (workerId : Uuid) (now : Nat) {job : Job}
    (h : job.isProcessed = false) :
    ∃ job', ensureRunning workerId now job = (.ok (), job') := by
  simp only [ensureRunning, Mutation.current_bind_apply]
  split <;> rename_i hs
  · refine ⟨_, startWork_eq_ok.mpr ⟨?_, rfl⟩⟩
    cases hstatus : job.status <;>
      simp_all [JobStatus.allows, isProcessed, iterationVerdict]
  · exact ⟨job, rfl⟩

end Job

end JobManager
