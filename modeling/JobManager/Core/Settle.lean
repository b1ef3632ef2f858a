import JobManager.Core.Job

/-!
# Cascade, unblocking, settlement and pick-up

What a job's state implies on its own: blocked tasks whose dependencies can no
longer be satisfied are put out generation by generation, blocked tasks whose
dependencies have settled are released, and an iteration that cannot progress is
closed under the verdict it earned.  Picking a task fails the tasks that outlived
their lifetime and then looks for work before and after settling.

The cascade's loop runs on fuel; {lit}`skipUnreachableTasks_spec` in the next
module shows that the fuel given here is never spent.
-/

namespace JobManager

/-- A blocked task the cascade is about to put out, and what put it out. -/
structure UnreachableTask where
  taskId : Uuid
  cause : SkipCause
  dependencyId : Uuid
deriving DecidableEq

/-- Outcome of selecting a task to execute in the current job iteration. -/
inductive TaskPickup where
  | ready (taskId : Uuid)
  | waiting (retryAt : Option Nat)
  | iterationSettled
deriving DecidableEq

namespace Job

/-- Update one task for each item of a list, in turn. -/
def updateEach {ι : Type} (taskId : ι → Uuid) (f : ι → Task → Except JobError Task) :
    List ι → JobM Unit
  | [] => pure ()
  | item :: items => do
      updateTask (taskId item) (f item)
      updateEach taskId f items

/-! ## The cascade -/

/-- The last of the candidates whose cause is the strongest. -/
def maxByCarriesFailure : List UnreachableTask → Option UnreachableTask
  | [] => none
  | u :: us =>
      match maxByCarriesFailure us with
      | none => some u
      | some best =>
          if u.cause.carriesFailure && !best.cause.carriesFailure then some u else some best

/-- The dependency that makes a task unreachable, if any, and the cause it hands
down; a failure outranks a decision. -/
def findUnreachableDependencyOf (job : Job) (task : Task) (now : Nat) :
    Option UnreachableTask :=
  maxByCarriesFailure <| task.dependsOn.filterMap fun dependencyId =>
    match job.task? dependencyId with
    | none => none
    | some dependency =>
        match task.judgeDependency dependency now with
        | .skipped cause => some ⟨task.id, cause, dependencyId⟩
        | .unblocked | .blocked => none

/-- Every blocked task the state already makes unreachable. -/
def findUnreachableTasks (job : Job) (now : Nat) : List UnreachableTask :=
  (job.tasks.filter Task.isBlocked).filterMap (job.findUnreachableDependencyOf · now)

/-- Which blocked task waits for which dependency. -/
def indexBlockedDependents (job : Job) (dependencyId : Uuid) : List Uuid :=
  (job.tasks.filter Task.isBlocked).flatMap fun task =>
    (task.dependsOn.filter (· = dependencyId)).map fun _ => task.id

/-- Put out one generation. -/
def skipGeneration (now : Nat) : List UnreachableTask → JobM Unit :=
  updateEach UnreachableTask.taskId fun u task =>
    task.skip s!"dependency '{u.dependencyId}' is unreachable" u.cause now

/-- The blocked dependents of a generation that its passing made unreachable. -/
def nextGeneration (job : Job) (dependentsByDependency : Uuid → List Uuid)
    (unreachable : List UnreachableTask) (now : Nat) : List UnreachableTask :=
  let candidates := (unreachable.flatMap fun u => dependentsByDependency u.taskId).dedup
  let blocked := candidates.filter fun taskId =>
    match job.task? taskId with
    | some task => task.isBlocked
    | none => false
  blocked.filterMap fun taskId =>
    match job.task? taskId with
    | some task => job.findUnreachableDependencyOf task now
    | none => none

/-- The cascade's loop: one generation at a time, until a generation is empty. -/
def skipGenerations (now : Nat) (dependentsByDependency : Uuid → List Uuid) :
    Nat → List UnreachableTask → Nat → JobM Nat
  | 0, _, skippedCount => pure skippedCount
  | fuel + 1, unreachable, skippedCount =>
      if unreachable.isEmpty then pure skippedCount
      else do
        skipGeneration now unreachable
        let job ← Mutation.current
        skipGenerations now dependentsByDependency fuel
          (job.nextGeneration dependentsByDependency unreachable now)
          (skippedCount + unreachable.length)

/-- Put out every blocked task whose dependencies can no longer be satisfied,
returning how many were put out. -/
def skipUnreachableTasks (now : Nat) : JobM Nat := do
  let job ← Mutation.current
  skipGenerations now job.indexBlockedDependents (job.tasksById.size + 1)
    (job.findUnreachableTasks now) 0

/-! ## Unblocking -/

/-- Whether every dependency of a task has settled in a way it accepts. -/
def dependenciesSatisfied (job : Job) (task : Task) (now : Nat) : Bool :=
  task.dependsOn.all fun dependencyId =>
    match job.task? dependencyId with
    | some dependency => task.judgeDependency dependency now = .unblocked
    | none => false

/-- Release the listed tasks. -/
def unblockAll : List Uuid → JobM Unit :=
  updateEach (fun taskId => taskId) fun _ task => .ok task.unblock

/-- Release every task whose dependencies have settled the way it accepts. -/
def unblockSatisfiedTasks (now : Nat) : JobM Unit := do
  let job ← Mutation.current
  unblockAll <|
    (job.tasks.filter fun task => task.isBlocked && job.dependenciesSatisfied task now).map
      Task.id

/-! ## Settlement -/

/-- Whether any task is currently being executed by a worker. -/
def hasStartedTask (job : Job) : Bool := job.tasks.any Task.isStarted

/-- Whether the iteration holds tasks and every one of them has been resolved. -/
def allTasksResolved (job : Job) : Bool :=
  !job.tasks.isEmpty && job.tasks.all Task.isResolved

/-- Whether the task keeps its iteration open by what may be done with it. -/
def isStillComing (task : Task) (now : Nat) : Bool :=
  match task.checkAvailabilityAt now with
  | .pickable | .awaitingRetry _ => true
  | .expiredPastLifetime | .unavailable => false

/-- Whether a task answers for a failure it depends on. -/
def handlesFailures (task : Task) : Bool :=
  task.tolerance.allowsFailed &&
    (task.isCompleted || task.skipCause = some .executorDecision)

/-- The verdict the iteration has earned. -/
def deriveIterationVerdict (job : Job) (now : Nat) : IterationVerdict :=
  if job.tasks.any fun task => task.skipCause.any SkipCause.carriesFailure then .failed
  else
    let failures := (job.tasks.filter (·.isTerminallyFailedAt now)).map Task.id
    let unhandled := failures.filter fun failureId =>
      !job.tasks.any fun task => handlesFailures task && task.dependsOn.contains failureId
    if unhandled.isEmpty then .completed else .failed

/-- Apply what the state implies and close the iteration if it cannot progress,
answering whether it is closed. -/
def trySettleIteration (workerId : Uuid) (now : Nat) : JobM Bool := do
  let _ ← skipUnreachableTasks now
  unblockSatisfiedTasks now
  let job ← Mutation.current
  if job.hasStartedTask || job.tasks.any (isStillComing · now) then return false
  else if !job.allTasksResolved then .refuse (.iterationDeadlock job.code job.tasksAsString)
  else
    let status ← Mutation.ofExcept
      (job.status.transitionTo (job.deriveIterationVerdict now).toStatus)
    Mutation.write ({ · with
      status := status, updatedByWorkerId := workerId, completedAt := some now })
    return true

/-! ## Pick-up -/

/-- Failure message for a task that outlived its maximum lifetime. -/
def describeOutlivedLifetime (task : Task) : String :=
  let lifetimeDeadline :=
    match task.lifetimeDeadlineAt with
    | none => "unset"
    | some deadline => s!"{deadline}"
  s!"task outlived its maximum lifetime of {numMilliseconds task.maxLifetime} ms " ++
    s!"(lifetime deadline {lifetimeDeadline})"

/-- Fail the listed tasks for having outlived their lifetime. -/
def failOutlived (now : Nat) : List Uuid → JobM Unit :=
  updateEach (fun taskId => taskId) fun _ task =>
    task.fail (describeOutlivedLifetime task) .whileBudgetLasts now

/-- Fail every task that outlived its maximum lifetime. -/
def failTasksByLifetime (now : Nat) : JobM Unit := do
  let job ← Mutation.current
  failOutlived now <|
    (job.tasks.filter fun task => task.checkAvailabilityAt now = .expiredPastLifetime).map
      Task.id

/-- Identifier of a task a worker may start right now.  The iteration order of the
map is not a contract, so the order the tasks are visited in is an argument. -/
def findPickableTask (job : Job) (visited : List Uuid) (now : Nat) : Option Uuid :=
  visited.find? fun taskId =>
    match job.task? taskId with
    | some task => task.canBePickedUpAt now
    | none => false

/-- The earliest moment a failed task may be started again. -/
def findEarliestRetryAt (job : Job) (now : Nat) : Option Nat :=
  (job.tasks.filterMap fun task =>
    match task.checkAvailabilityAt now with
    | .awaitingRetry retryAt => some retryAt
    | .pickable | .expiredPastLifetime | .unavailable => none).min?

/-- Whether the iteration holds a task a worker may start right now. -/
def hasPickableTask (job : Job) (now : Nat) : Bool :=
  job.tasks.any (·.canBePickedUpAt now)

/-- The clock readings of one pick-up, in the order they are taken, and the order
the two looks for a task visit the map in. -/
structure PickMoments where
  work : Nat
  lifetime : Nat
  firstLook : Nat
  settle : Nat
  secondLook : Nat
  retry : Nat
  firstOrder : List Uuid
  secondOrder : List Uuid

/-- All readings of a pick-up taken at one moment, the map visited in one order. -/
def PickMoments.at (now : Nat) (order : List Uuid) : PickMoments :=
  ⟨now, now, now, now, now, now, order, order⟩

/-- Select the task this worker is to execute next, failing the tasks that outlived
their maximum lifetime on the way. -/
def pickTaskToExecute (workerId : Uuid) (m : PickMoments) : JobM TaskPickup := do
  ensureRunning workerId m.work
  failTasksByLifetime m.lifetime
  let job ← Mutation.current
  match job.findPickableTask m.firstOrder m.firstLook with
  | some taskId => return .ready taskId
  | none =>
      if ← trySettleIteration workerId m.settle then return .iterationSettled
      else
        let job ← Mutation.current
        match job.findPickableTask m.secondOrder m.secondLook with
        | some taskId => return .ready taskId
        | none => return .waiting (job.findEarliestRetryAt m.retry)

end Job

end JobManager
