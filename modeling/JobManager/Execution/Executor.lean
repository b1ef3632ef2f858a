import JobManager.Core.Merging

/-!
# Executions

What an executor may do to the worker's copy of the job through its handle, what
the worker records of the outcome it returned, and the settlement that precedes
the save.  Handle calls that are refused leave the copy as it was.

Main results:

- Theorem {lit}`HandleCall.serve_worked`: a handle call is at most one elementary step.
- Theorem {lit}`applyExecutorOutcome_worked`: recording an outcome resolves at most the
  task that was executed.
-/

namespace JobManager

/-! ## The job handle -/

/-- The calls a job handle offers that change the job. -/
inductive HandleCall where
  | addTask (taskDef : TaskDefinition) (mintedId : Uuid)
  | completeTask (taskId : Uuid) (output : Bytes)
  | failTask (taskId : Uuid) (errorMsg : String) (retry : TaskRetry)
  | skipTaskBranch (reason : String)
  | setNextStartAt (nextStartAt : Nat)
deriving DecidableEq

namespace HandleCall

/-- Identifiers a call mints. -/
def minted : HandleCall → List Uuid
  | .addTask _ mintedId => [mintedId]
  | _ => []

/-- Serve a call of the execution of {lit}`taskId` by worker {lit}`w`. -/
def serve (w taskId : Uuid) (now : Nat) : HandleCall → JobM Unit
  | .addTask taskDef mintedId => do
      let _ ← Job.addTask taskDef w (some taskId) mintedId
      return ()
  | .completeTask id output => Job.completeTask id output w now
  | .failTask id errorMsg retry => do
      let _ ← Job.failTask id errorMsg retry w now
      return ()
  | .skipTaskBranch reason => Job.skipTaskByExecutor taskId reason w now
  | .setNextStartAt nextStartAt => Job.setNextStartAt nextStartAt

/-- What a call may touch: the task it names, or the one it creates. -/
def touches (taskId : Uuid) : HandleCall → Touch → Prop
  | .addTask _ mintedId => (· = .added mintedId taskId)
  | .completeTask id _ => (· = .resolved id)
  | .failTask id _ _ => (· = .resolved id)
  | .skipTaskBranch _ => (· = .resolved taskId)
  | .setNextStartAt _ => fun _ => False

end HandleCall

/-! ## The outcome of an execution -/

/-- What an executor ends with: the outcome it returned, its error, or its panic. -/
inductive ExecutorOutcome where
  | completed (output : Bytes)
  | terminallyFailed (reason : String)
  | skippedBranch (reason : String)
  | deferred
  | cancelled
  | error (message : String)
  | panicked (payload : String)
deriving DecidableEq

/-- The resolution the job's state shows for the task. -/
def findTaskResolution (job : Job) (taskId : Uuid) : Except JobError TaskResolution := do
  match (← job.findTask taskId).resolution with
  | some resolution => .ok resolution
  | none => .error (.other s!"task '{taskId}' is left unresolved")

/-- The resolution reported is that of the task the job holds. -/
theorem findTaskResolution_eq_ok {job : Job} {taskId : Uuid} {r : TaskResolution} :
    findTaskResolution job taskId = .ok r ↔
      ∃ t, job.task? taskId = some t ∧ t.resolution = some r := by
  rw [findTaskResolution, bind_eq_ok]
  constructor
  · rintro ⟨t, ht, h⟩
    refine ⟨t, Job.findTask_eq_ok.mp ht, ?_⟩
    split at h <;> rename_i hresolution
    · cases h
      exact hresolution
    · cases h
  · rintro ⟨t, ht, hr⟩
    refine ⟨t, Job.findTask_eq_ok.mpr ht, ?_⟩
    rw [hr]

/-- Check that the task an executor deferred is no longer open. -/
def checkTaskResolution (job : Job) (taskId : Uuid) : Except JobError Unit := do
  if (← job.findTask taskId).isResolved then .ok ()
  else
    .error (.other
      (s!"executor returned Deferred without resolving task '{taskId}': complete it, fail it, " ++
        "or skip its branch through the job handle, or return the outcome instead"))

/-- The resolution the outcome itself asks for, where the domain accepts it. -/
def resolveByOutcome (w taskId : Uuid) (now : Nat) : ExecutorOutcome → JobM TaskResolution
  | .completed output => do
      Job.completeTask taskId output w now
      return .completed
  | .terminallyFailed reason => do
      let _ ← Job.failTask taskId reason .never w now
      return .failed
  | .skippedBranch reason => do
      Job.skipTaskByExecutor taskId reason w now
      return .skipped
  | .deferred => do
      let job ← Mutation.current
      Mutation.ofExcept (checkTaskResolution job taskId)
      Mutation.ofExcept (findTaskResolution job taskId)
  | .cancelled =>
      .refuse (.other
        ("executor returned Cancelled without a cancellation of its execution: return the outcome " ++
          "of the work, or select on the token and return Cancelled once it fires"))
  | .error message => .refuse (.other message)
  | .panicked payload => .refuse (.other s!"executor panicked: {payload}")

/-- Record on the task what its executor returned: the task's resolution, or the failure
of its execution. -/
def applyExecutorOutcome (w taskId : Uuid) (outcome : ExecutorOutcome) (now : Nat) :
    JobM TaskResolution := fun job =>
  match resolveByOutcome w taskId now outcome job with
  | (.ok resolution, job') => (.ok resolution, job')
  | (.error e, job') =>
      (do
        let _ ← Job.recordTaskExecutionFailure taskId e.toText .whileBudgetLasts w now
        let job ← Mutation.current
        Mutation.ofExcept (findTaskResolution job taskId) : JobM TaskResolution) job'

/-! ## As runs of elementary steps -/

/-- What an operation of the executing worker leaves: its elementary steps, and the rest
of the job but for the moment the next iteration may start. -/
structure Worked (w : Uuid) (touches : Touch → Prop) (now : Nat) (job job' : Job) : Prop where
  run : LocalRun .shared w touches now now job.tasksById job'.tasksById
  frame : Frame job job'
  status : job'.status = job.status

theorem Worked.refl (w : Uuid) (touches : Touch → Prop) (now : Nat) (job : Job) :
    Worked w touches now job job := ⟨LocalRun.refl (Nat.le_refl _), Frame.refl job, rfl⟩

theorem Worked.trans {w : Uuid} {touches : Touch → Prop} {now : Nat} {job job' job'' : Job}
    (h : Worked w touches now job job') (h' : Worked w touches now job' job'') :
    Worked w touches now job job'' :=
  ⟨h.run.trans h'.run, h.frame.trans h'.frame, h'.status.trans h.status⟩

/-- One step on the tasks is work. -/
theorem worked_setTask {w : Uuid} {touches : Touch → Prop} {touch : Touch} {now : Nat}
    {job : Job} {m : TaskMap} (ht : touches touch)
    (h : LocalStep w now job.tasksById touch m) : Worked w touches now job (job.withTasks m) :=
  ⟨LocalRun.single ht h, ⟨rfl, rfl, rfl, rfl, rfl, rfl, rfl, rfl⟩, rfl⟩

/-- A completion resolves the task it names. -/
theorem completeTask_worked {w taskId : Uuid} {output : Bytes} {now : Nat} {job job' : Job}
    {r : Except JobError Unit} (h : Job.completeTask taskId output w now job = (r, job')) :
    Worked w (· = .resolved taskId) now job job' := by
  cases r with
  | error e =>
      rw [Job.completeTask_refusesCleanly taskId output w now job e job' h]
      exact Worked.refl _ _ _ _
  | ok u =>
      obtain ⟨-, t, ht, howner, hs, hl, rfl⟩ := Job.completeTask_eq_ok h
      obtain rfl := Job.id_of_task? ht
      exact worked_setTask rfl (.complete ht howner hs hl)

/-- And so does a failure, with its rollback. -/
theorem failTask_worked {w taskId : Uuid} {errorMsg : String} {retry : TaskRetry} {now : Nat}
    {job job' : Job} {r : Except JobError Nat}
    (h : Job.failTask taskId errorMsg retry w now job = (r, job')) :
    Worked w (· = .resolved taskId) now job job' := by
  cases r with
  | error e =>
      rw [Job.failTask_refusesCleanly taskId errorMsg retry w now job e job' h]
      exact Worked.refl _ _ _ _
  | ok count =>
      obtain ⟨t, ht, howner, hs, rfl⟩ := Job.failTask_eq_ok h
      obtain rfl := Job.id_of_task? ht
      exact worked_setTask rfl (.fail ht howner hs)

/-- And a skip. -/
theorem skipTaskByExecutor_worked {w taskId : Uuid} {reason : String} {now : Nat}
    {job job' : Job} {r : Except JobError Unit}
    (h : Job.skipTaskByExecutor taskId reason w now job = (r, job')) :
    Worked w (· = .resolved taskId) now job job' := by
  cases r with
  | error e =>
      rw [Job.skipTaskByExecutor_refusesCleanly taskId reason w now job e job' h]
      exact Worked.refl _ _ _ _
  | ok u =>
      obtain ⟨t, ht, howner, hs, rfl⟩ := Job.skipTaskByExecutor_eq_ok h
      obtain rfl := Job.id_of_task? ht
      exact worked_setTask rfl (.skip ht howner hs)

/-- An addition creates a task of the executed one. -/
theorem addTask_worked {w taskId parent : Uuid} {taskDef : TaskDefinition} {now : Nat}
    {job job' : Job} {r : Except JobError Uuid} (hfresh : job.task? taskId = none)
    (h : Job.addTask taskDef w (some parent) taskId job = (r, job')) :
    Worked w (· = .added taskId parent) now job job' := by
  cases r with
  | error e =>
      rw [Job.addTask_refusesCleanly taskDef w (some parent) taskId job e job' h]
      exact Worked.refl _ _ _ _
  | ok id =>
      obtain ⟨-, -, -, resolved, hresolved, rfl⟩ := Job.addTask_eq_ok h
      exact worked_setTask rfl (.add hfresh (Job.resolveCreated_eq_ok hresolved).2)

/-- The state an operation leaves is the one left by the operation it ends with. -/
theorem bind_pure_state {α β : Type} (x : JobM α) (b : β) (job : Job) :
    ((x >>= fun _ => pure b) job).2 = (x job).2 := by
  rw [Mutation.bind_apply]
  rcases x job with ⟨r, job'⟩
  cases r <;> rfl

/-- A refused call leaves the copy as it was. -/
theorem HandleCall.serve_refusesCleanly (w taskId : Uuid) (now : Nat) (call : HandleCall) :
    Mutation.RefusesCleanly (call.serve w taskId now) := by
  cases call with
  | addTask taskDef mintedId =>
      exact .then_total (Job.addTask_refusesCleanly _ _ _ _) fun _ => Mutation.total_pure _
  | completeTask id output => exact Job.completeTask_refusesCleanly _ _ _ _
  | failTask id errorMsg retry =>
      exact .then_total (Job.failTask_refusesCleanly _ _ _ _ _) fun _ => Mutation.total_pure _
  | skipTaskBranch reason => exact Job.skipTaskByExecutor_refusesCleanly _ _ _ _
  | setNextStartAt nextStartAt => exact (Mutation.total_write _).refusesCleanly

/-- A handle call is at most one elementary step, about the task it names or creates. -/
theorem HandleCall.serve_worked (w taskId : Uuid) (now : Nat) {call : HandleCall} {job : Job}
    (hfresh : ∀ id ∈ call.minted, job.task? id = none) :
    Worked w (call.touches taskId) now job (call.serve w taskId now job).2 := by
  cases call with
  | addTask taskDef mintedId =>
      rw [serve, bind_pure_state]
      exact addTask_worked (hfresh mintedId (by simp [minted])) rfl
  | completeTask id output => exact completeTask_worked rfl
  | failTask id errorMsg retry =>
      rw [serve, bind_pure_state]
      exact failTask_worked rfl
  | skipTaskBranch reason => exact skipTaskByExecutor_worked rfl
  | setNextStartAt nextStartAt =>
      exact ⟨LocalRun.refl (Nat.le_refl _), ⟨rfl, rfl, rfl, rfl, rfl, rfl, rfl, rfl⟩, rfl⟩

/-- What an outcome asks for resolves the executed task. -/
theorem resolveByOutcome_worked (w taskId : Uuid) (now : Nat) (outcome : ExecutorOutcome)
    (job : Job) :
    Worked w (· = .resolved taskId) now job (resolveByOutcome w taskId now outcome job).2 := by
  cases outcome with
  | completed output =>
      rw [resolveByOutcome, bind_pure_state]
      exact completeTask_worked rfl
  | terminallyFailed reason =>
      rw [resolveByOutcome, bind_pure_state]
      exact failTask_worked rfl
  | skippedBranch reason =>
      rw [resolveByOutcome, bind_pure_state]
      exact skipTaskByExecutor_worked rfl
  | deferred =>
      rw [resolveByOutcome, Mutation.current_bind_apply, Mutation.bind_apply,
        Mutation.ofExcept_apply]
      cases checkTaskResolution job taskId <;> exact Worked.refl _ _ _ _
  | cancelled => exact Worked.refl _ _ _ _
  | error message => exact Worked.refl _ _ _ _
  | panicked payload => exact Worked.refl _ _ _ _

/-- And so does recording a failure of the execution. -/
theorem recordTaskExecutionFailure_worked (w taskId : Uuid) (errorMsg : String)
    (retry : TaskRetry) (now : Nat) (job : Job) :
    Worked w (· = .resolved taskId) now job
      (Job.recordTaskExecutionFailure taskId errorMsg retry w now job).2 := by
  rw [Job.recordTaskExecutionFailure, Mutation.current_bind_apply, Mutation.bind_apply,
    Mutation.ofExcept_apply]
  cases job.findTask taskId with
  | error e => exact Worked.refl _ _ _ _
  | ok t =>
      dsimp only
      split
      · exact Worked.refl _ _ _ _
      · exact failTask_worked rfl

/-- Recording an outcome resolves at most the task that was executed. -/
theorem applyExecutorOutcome_worked (w taskId : Uuid) (outcome : ExecutorOutcome) (now : Nat)
    (job : Job) :
    Worked w (· = .resolved taskId) now job
      (applyExecutorOutcome w taskId outcome now job).2 := by
  have hfirst := resolveByOutcome_worked w taskId now outcome job
  unfold applyExecutorOutcome
  rcases hresult : resolveByOutcome w taskId now outcome job with ⟨r, job'⟩
  rw [hresult] at hfirst
  cases r with
  | ok resolution => exact hfirst
  | error e =>
      refine hfirst.trans ?_
      have hrecord := recordTaskExecutionFailure_worked w taskId e.toText .whileBudgetLasts now
        job'
      dsimp only
      rw [Mutation.bind_apply]
      rcases hrecorded : Job.recordTaskExecutionFailure taskId e.toText .whileBudgetLasts w now
        job' with ⟨r', job''⟩
      rw [hrecorded] at hrecord
      cases r' <;> exact hrecord

/-- Where the outcome itself resolves the task, the task shows the resolution; one that was its
own creation would be dropped as it fails. -/
theorem resolveByOutcome_resolves {w taskId : Uuid} {outcome : ExecutorOutcome} {now : Nat}
    {job job' : Job} {r : TaskResolution}
    (hparent : ∀ t, job.task? taskId = some t → t.createdByTask ≠ some taskId)
    (h : resolveByOutcome w taskId now outcome job = (.ok r, job')) :
    ∃ t, job'.task? taskId = some t ∧ t.resolution = some r := by
  cases outcome with
  | completed output =>
      obtain ⟨_, job₁, hcomplete, hpure⟩ := Mutation.bind_eq_ok.mp h
      cases hpure
      obtain ⟨-, t, ht, -, -, -, rfl⟩ := Job.completeTask_eq_ok hcomplete
      obtain rfl := Job.id_of_task? ht
      exact ⟨t.completedWith output now, Job.task?_setTask_self .., rfl⟩
  | terminallyFailed reason =>
      obtain ⟨_, job₁, hfail, hpure⟩ := Mutation.bind_eq_ok.mp h
      cases hpure
      obtain ⟨t, ht, -, -, rfl⟩ := Job.failTask_eq_ok hfail
      have hkept := hparent t ht
      obtain rfl := Job.id_of_task? ht
      refine ⟨t.failedWith reason .never now, ?_, rfl⟩
      have hset : (job.setTask (t.failedWith reason .never now)).task? t.id =
          some (t.failedWith reason .never now) := Job.task?_setTask_self ..
      rw [Job.task?, Job.rollback, KeyedMap.get_filter]
      rw [Job.task?] at hset
      rw [hset]
      simp [Option.filter, Task.failedWith, hkept]
  | skippedBranch reason =>
      obtain ⟨_, job₁, hskip, hpure⟩ := Mutation.bind_eq_ok.mp h
      cases hpure
      obtain ⟨t, ht, -, -, rfl⟩ := Job.skipTaskByExecutor_eq_ok hskip
      obtain rfl := Job.id_of_task? ht
      exact ⟨t.skippedWith reason .executorDecision now, Job.task?_setTask_self .., rfl⟩
  | deferred =>
      rw [resolveByOutcome, Mutation.current_bind_apply, Mutation.ofExcept_bind_eq_ok] at h
      obtain ⟨_, -, h⟩ := h
      rw [Mutation.ofExcept_apply, Prod.mk.injEq] at h
      obtain ⟨hfound, rfl⟩ := h
      exact findTaskResolution_eq_ok.mp hfound
  | cancelled => cases h
  | error message => cases h
  | panicked payload => cases h

/-- Recording an outcome leaves the task resolved. -/
theorem applyExecutorOutcome_resolves {w taskId : Uuid} {outcome : ExecutorOutcome} {now : Nat}
    {job job' : Job} {r : TaskResolution}
    (hparent : ∀ t, job.task? taskId = some t → t.createdByTask ≠ some taskId)
    (h : applyExecutorOutcome w taskId outcome now job = (.ok r, job')) :
    ∃ t, job'.task? taskId = some t ∧ t.resolution = some r := by
  unfold applyExecutorOutcome at h
  rcases hresult : resolveByOutcome w taskId now outcome job with ⟨r₁, job₁⟩
  rw [hresult] at h
  cases r₁ with
  | ok resolution =>
      cases h
      exact resolveByOutcome_resolves hparent hresult
  | error e =>
      dsimp only at h
      obtain ⟨_, job₂, -, h⟩ := Mutation.bind_eq_ok.mp h
      rw [Mutation.current_bind_apply, Mutation.ofExcept_apply, Prod.mk.injEq] at h
      obtain ⟨hfound, rfl⟩ := h
      exact findTaskResolution_eq_ok.mp hfound

end JobManager
