import JobManager.Execution.Executor

/-!
# What an execution leaves on its copy

An execution adds tasks and resolves the task it runs, through its handle or by what its
executor returns.  What it added stays on the copy as it was added for as long as its own
task has not failed, and is dropped with that failure; the moment of the next iteration is
the last one it set.

Main results:

- Theorem {lit}`HasWork.serve`: a handle call keeps the work of the execution on the copy.
- Theorem {lit}`HasWork.applyExecutorOutcome`: so does recording what the executor ended
  with, which leaves the task resolved.
-/

namespace JobManager

/-- The moment of the next iteration a call sets. -/
def HandleCall.sets : HandleCall → Option Nat
  | .setNextStartAt nextStartAt => some nextStartAt
  | _ => none

/-! ## Resolving one task of the copy -/

/-- One task of the copy is resolved: in place, or by a failure that drops what its
execution created. -/
inductive ResolvesOn (taskId id : Uuid) (job : Job) : Job → Prop
  | inPlace {t t' : Task} :
      job.task? id = some t → t.status = .started ∨ (id = taskId ∧ t.status = .blocked) →
      t'.id = t.id → t'.processingByWorker = t.processingByWorker →
      t'.createdByTask = t.createdByTask → t'.isResolved = true → t'.status ≠ .failed →
      ResolvesOn taskId id job (job.setTask t')
  | failing {t : Task} {errorMsg : String} {retry : TaskRetry} {now : Nat} :
      job.task? id = some t → t.status = .started →
      ResolvesOn taskId id job ((job.setTask (t.failedWith errorMsg retry now)).rollback id)

/-- Resolving a task leaves the start of the next iteration alone. -/
theorem ResolvesOn.nextStartAt {taskId id : Uuid} {job job' : Job}
    (h : ResolvesOn taskId id job job') : job'.nextStartAt = job.nextStartAt := by
  cases h <;> rfl

/-- A completion resolves the task it names. -/
theorem completeTask_resolvesOn {taskId id w : Uuid} {output : Bytes} {now : Nat}
    {job job' : Job} {u : Unit} (h : Job.completeTask id output w now job = (.ok u, job')) :
    ResolvesOn taskId id job job' := by
  obtain ⟨-, t, ht, -, hs, -, rfl⟩ := Job.completeTask_eq_ok h
  exact .inPlace ht (Or.inl hs) rfl rfl rfl rfl (by simp [Task.completedWith])

/-- And so does a failure. -/
theorem failTask_resolvesOn {taskId id w : Uuid} {errorMsg : String} {retry : TaskRetry}
    {now count : Nat} {job job' : Job}
    (h : Job.failTask id errorMsg retry w now job = (.ok count, job')) :
    ResolvesOn taskId id job job' := by
  obtain ⟨t, ht, -, hs, rfl⟩ := Job.failTask_eq_ok h
  exact .failing ht hs

/-- A skip resolves the executed task. -/
theorem skipTaskByExecutor_resolvesOn {taskId w : Uuid} {reason : String} {now : Nat}
    {job job' : Job} {u : Unit}
    (h : Job.skipTaskByExecutor taskId reason w now job = (.ok u, job')) :
    ResolvesOn taskId taskId job job' := by
  obtain ⟨t, ht, -, hs, rfl⟩ := Job.skipTaskByExecutor_eq_ok h
  refine .inPlace ht ?_ rfl rfl rfl rfl (by simp [Task.skippedWith])
  rcases hs with ⟨hs, -⟩ | hs
  · exact Or.inl hs
  · exact Or.inr ⟨rfl, hs⟩

/-! ## The work of the execution -/

/-- The tasks were created by the execution of {lit}`taskId` by worker {lit}`w`, and nobody
touched them. -/
def AddedBy (w taskId : Uuid) (added : List Task) : Prop :=
  ∀ y ∈ added, y.id ≠ taskId ∧
    ∃ taskDef resolved, y = Task.new y.id w (some taskId) taskDef resolved

namespace AddedBy

variable {w taskId : Uuid} {added : List Task} {y : Task}

/-- A task that was added waits or is free. -/
theorem status (h : AddedBy w taskId added) (hy : y ∈ added) :
    y.status = .todo ∨ y.status = .blocked := by
  obtain ⟨-, taskDef, resolved, hnew⟩ := h y hy
  rw [hnew, Task.new]
  cases resolved.isEmpty <;> simp

/-- It names the execution that created it. -/
theorem createdByTask (h : AddedBy w taskId added) (hy : y ∈ added) :
    y.createdByTask = some taskId := by
  obtain ⟨-, taskDef, resolved, hnew⟩ := h y hy
  rw [hnew]
  rfl

end AddedBy

/-- The copy holds the executed task in the worker's name, and what the execution added as
long as that has not failed.  A copy that lost the task, with the execution that created it,
holds no work of its own. -/
def HasWork (w taskId : Uuid) (added : List Task) (job : Job) : Prop :=
  ∀ t, job.task? taskId = some t → t.processingByWorker = some w ∧
    t.createdByTask ≠ some taskId ∧
    ∀ y ∈ added, job.task? y.id = if t.status = .failed then none else some y

namespace HasWork

variable {w taskId : Uuid} {added : List Task} {job job' : Job}

/-- Resolving a task keeps the work of the execution on the copy. -/
theorem resolvesOn {id : Uuid} (h : HasWork w taskId added job)
    (hadded : AddedBy w taskId added) (hres : ResolvesOn taskId id job job') :
    HasWork w taskId added job' := by
  intro t' ht'
  -- what was added is neither running nor the executed task, so it is not what is resolved
  have hother : ∀ {u t : Task}, job.task? id = some u → job.task? taskId = some t →
      u.status = .started ∨ (id = taskId ∧ u.status = .blocked) → ∀ y ∈ added, u.id ≠ y.id := by
    intro u t hu ht hstatus y hy heq
    have hy' := (h t ht).2.2 y hy
    rw [← heq, Job.id_of_task? hu, hu] at hy'
    split at hy'
    · cases hy'
    · cases hy'
      rcases hstatus with hs | ⟨hid, -⟩
      · rcases hadded.status hy with hs' | hs' <;> simp [hs] at hs'
      · exact (hadded u hy).1 ((Job.id_of_task? hu).trans hid)
  cases hres with
  | @inPlace u u' hu hstatus hid hsame hparent _ hfailed =>
      by_cases htask : id = taskId
      · subst htask
        have hself := Job.task?_setTask_self job u'
        rw [hid, Job.id_of_task? hu, ht'] at hself
        cases hself
        obtain ⟨howner, hnotown, hwork⟩ := h u hu
        refine ⟨hsame.trans howner, by rwa [hparent], ?_⟩
        intro y hy
        have hopen : u.status ≠ .failed := by
          rcases hstatus with hs | ⟨-, hs⟩ <;> simp [hs]
        rw [Job.task?_setTask_of_ne (hid ▸ hother hu hu hstatus y hy), hwork y hy, if_neg hopen,
          if_neg hfailed]
      · rw [Job.task?_setTask_of_ne (by rw [hid, Job.id_of_task? hu]; exact htask)] at ht'
        obtain ⟨howner, hnotown, hwork⟩ := h t' ht'
        refine ⟨howner, hnotown, fun y hy => ?_⟩
        rw [Job.task?_setTask_of_ne (hid ▸ hother hu ht' hstatus y hy), hwork y hy]
  | @failing u errorMsg retry now hu hstarted =>
      have hget : ∀ {t : Task}, job.task? taskId = some t → ∀ y ∈ added,
          ((job.setTask (u.failedWith errorMsg retry now)).rollback id).task? y.id =
            (job.task? y.id).filter (·.createdByTask ≠ some id) := by
        intro t ht y hy
        rw [Job.task?_rollback, Job.task?_setTask_of_ne (show (u.failedWith errorMsg retry now).id ≠
          y.id from hother hu ht (Or.inl hstarted) y hy)]
      have hid : (u.failedWith errorMsg retry now).id = id := Job.id_of_task? (t := u) hu
      rw [Job.task?_rollback, Option.filter_eq_some_iff] at ht'
      by_cases htask : id = taskId
      · subst htask
        have hself := Job.task?_setTask_self job (u.failedWith errorMsg retry now)
        rw [hid, ht'.1] at hself
        cases hself
        obtain ⟨howner, hnotown, hwork⟩ := h u hu
        refine ⟨howner, hnotown, ?_⟩
        intro y hy
        rw [hget hu y hy, hwork y hy, if_neg (by simp [hstarted]),
          if_pos (show (u.failedWith errorMsg retry now).status = .failed from rfl)]
        simp [Option.filter, hadded.createdByTask hy]
      · have ht := ht'.1
        rw [Job.task?_setTask_of_ne (by rw [hid]; exact htask)] at ht
        obtain ⟨howner, hnotown, hwork⟩ := h t' ht
        refine ⟨howner, hnotown, ?_⟩
        intro y hy
        rw [hget ht y hy, hwork y hy]
        split
        · rfl
        · simp [Option.filter, hadded.createdByTask hy, Ne.symm htask]

/-- A new task joins the work of an execution whose own task has not failed. -/
theorem add {mintedId : Uuid} {taskDef : TaskDefinition} {resolved : List Uuid}
    (h : HasWork w taskId added job) (hfresh : job.task? mintedId = none)
    (hnew : ∀ y ∈ added, y.id ≠ mintedId) (hparent : job.checkParent (some taskId) = .ok ()) :
    HasWork w taskId (Task.new mintedId w (some taskId) taskDef resolved :: added)
      (job.setTask (Task.new mintedId w (some taskId) taskDef resolved)) := by
  intro t' ht'
  obtain ⟨t, ht⟩ := Job.exists_of_checkParent hparent
  have hopen := Job.not_failed_of_checkParent hparent ht
  have hne : mintedId ≠ taskId := by
    rintro rfl
    rw [ht] at hfresh
    cases hfresh
  rw [Job.task?_setTask_of_ne hne, ht] at ht'
  cases ht'
  obtain ⟨howner, hnotown, hwork⟩ := h _ ht
  refine ⟨howner, hnotown, ?_⟩
  intro y hy
  rw [if_neg hopen]
  rcases List.mem_cons.mp hy with rfl | hy
  · exact Job.task?_setTask_self ..
  · rw [Job.task?_setTask_of_ne (fun h => hnew y hy h.symm), hwork y hy, if_neg hopen]

/-- A handle call keeps the work of the execution on the copy, with what it adds, and the
last moment set. -/
theorem serve {call : HandleCall} {now : Nat} (h : HasWork w taskId added job)
    (hadded : AddedBy w taskId added) (hfresh : ∀ id ∈ call.minted, job.task? id = none)
    (hnew : ∀ y ∈ added, y.id ∉ call.minted)
    (hserve : call.serve w taskId now job = (.ok (), job')) :
    HasWork w taskId (call.minted.filterMap job'.task? ++ added) job' ∧
      AddedBy w taskId (call.minted.filterMap job'.task? ++ added) ∧
      job'.nextStartAt = call.sets.or job.nextStartAt := by
  have hresolved : ∀ {id : Uuid}, call.minted = [] → call.sets = none →
      ResolvesOn taskId id job job' →
      HasWork w taskId (call.minted.filterMap job'.task? ++ added) job' ∧
        AddedBy w taskId (call.minted.filterMap job'.task? ++ added) ∧
        job'.nextStartAt = call.sets.or job.nextStartAt := by
    intro id hminted hsets hres
    rw [hminted, hsets]
    exact ⟨h.resolvesOn hadded hres, hadded, hres.nextStartAt⟩
  cases call with
  | addTask taskDef mintedId =>
      obtain ⟨r, job₁, hadd, hpure⟩ := Mutation.bind_eq_ok.mp hserve
      cases hpure
      obtain ⟨-, hparent, -, resolved, -, rfl⟩ := Job.addTask_eq_ok hadd
      have hlacks : job.task? mintedId = none := hfresh mintedId (by simp [HandleCall.minted])
      have hself : (job.setTask (Task.new mintedId w (some taskId) taskDef resolved)).task?
          mintedId = some (Task.new mintedId w (some taskId) taskDef resolved) :=
        Job.task?_setTask_self ..
      have hlist : (HandleCall.addTask taskDef mintedId).minted.filterMap
          (job.setTask (Task.new mintedId w (some taskId) taskDef resolved)).task? =
            [Task.new mintedId w (some taskId) taskDef resolved] := by
        rw [HandleCall.minted, List.filterMap_cons, hself]
        rfl
      rw [hlist]
      refine ⟨h.add hlacks (fun y hy hid => hnew y hy (by simp [HandleCall.minted, hid])) hparent,
        ?_, rfl⟩
      intro y hy
      rcases List.mem_cons.mp hy with rfl | hy
      · refine ⟨?_, taskDef, resolved, rfl⟩
        intro hid
        obtain ⟨t, ht⟩ := Job.exists_of_checkParent hparent
        rw [show mintedId = taskId from hid, ht] at hlacks
        cases hlacks
      · exact hadded y hy
  | completeTask id output => exact hresolved rfl rfl (completeTask_resolvesOn hserve)
  | failTask id errorMsg retry =>
      obtain ⟨count, job₁, hfail, hpure⟩ := Mutation.bind_eq_ok.mp hserve
      cases hpure
      exact hresolved rfl rfl (failTask_resolvesOn hfail)
  | skipTaskBranch reason => exact hresolved rfl rfl (skipTaskByExecutor_resolvesOn hserve)
  | setNextStartAt nextStartAt =>
      cases hserve
      exact ⟨h, hadded, rfl⟩

/-- An operation that resolves the executed task or refuses cleanly. -/
theorem operation {α : Type} {op : JobM α} (h : HasWork w taskId added job)
    (hadded : AddedBy w taskId added) (hclean : Mutation.RefusesCleanly op)
    (hok : ∀ a job', op job = (.ok a, job') → ResolvesOn taskId taskId job job') :
    HasWork w taskId added (op job).2 ∧ (op job).2.nextStartAt = job.nextStartAt := by
  rcases hresult : op job with ⟨r, job'⟩
  cases r with
  | error e =>
      rw [hclean job e job' hresult]
      exact ⟨h, rfl⟩
  | ok a =>
      have hres := hok a job' hresult
      exact ⟨h.resolvesOn hadded hres, hres.nextStartAt⟩

/-- What an outcome asks for keeps the work and the start of the next iteration. -/
theorem resolveByOutcome (outcome : ExecutorOutcome) (now : Nat)
    (h : HasWork w taskId added job) (hadded : AddedBy w taskId added) :
    HasWork w taskId added (JobManager.resolveByOutcome w taskId now outcome job).2 ∧
      (JobManager.resolveByOutcome w taskId now outcome job).2.nextStartAt =
        job.nextStartAt := by
  cases outcome with
  | completed output =>
      rw [JobManager.resolveByOutcome, bind_pure_state]
      exact h.operation hadded (Job.completeTask_refusesCleanly _ _ _ _)
        fun _ _ hcomplete => completeTask_resolvesOn hcomplete
  | terminallyFailed reason =>
      rw [JobManager.resolveByOutcome, bind_pure_state]
      exact h.operation hadded (Job.failTask_refusesCleanly _ _ _ _ _)
        fun _ _ hfail => failTask_resolvesOn hfail
  | skippedBranch reason =>
      rw [JobManager.resolveByOutcome, bind_pure_state]
      exact h.operation hadded (Job.skipTaskByExecutor_refusesCleanly _ _ _ _)
        fun _ _ hskip => skipTaskByExecutor_resolvesOn hskip
  | deferred =>
      rw [JobManager.resolveByOutcome, Mutation.current_bind_apply, Mutation.bind_apply,
        Mutation.ofExcept_apply]
      cases checkTaskResolution job taskId <;> exact ⟨h, rfl⟩
  | cancelled => exact ⟨h, rfl⟩
  | error message => exact ⟨h, rfl⟩
  | panicked payload => exact ⟨h, rfl⟩

/-- And so does recording a failure of the execution. -/
theorem recordTaskExecutionFailure (errorMsg : String) (retry : TaskRetry) (now : Nat)
    (h : HasWork w taskId added job) (hadded : AddedBy w taskId added) :
    HasWork w taskId added
        (Job.recordTaskExecutionFailure taskId errorMsg retry w now job).2 ∧
      (Job.recordTaskExecutionFailure taskId errorMsg retry w now job).2.nextStartAt =
        job.nextStartAt := by
  rw [Job.recordTaskExecutionFailure, Mutation.current_bind_apply, Mutation.bind_apply,
    Mutation.ofExcept_apply]
  cases job.findTask taskId with
  | error e => exact ⟨h, rfl⟩
  | ok t =>
      dsimp only
      split
      · exact ⟨h, rfl⟩
      · exact h.operation hadded (Job.failTask_refusesCleanly _ _ _ _ _)
          fun _ _ hfail => failTask_resolvesOn hfail

/-- Recording what the executor ended with keeps the work of the execution on the copy and
leaves its task resolved. -/
theorem applyExecutorOutcome {outcome : ExecutorOutcome} {now : Nat} {r : TaskResolution}
    (h : HasWork w taskId added job) (hadded : AddedBy w taskId added)
    (happly : JobManager.applyExecutorOutcome w taskId outcome now job = (.ok r, job')) :
    HasWork w taskId added job' ∧ job'.nextStartAt = job.nextStartAt ∧
      ∃ t, job'.task? taskId = some t ∧ t.isResolved = true := by
  obtain ⟨t, ht, hresolution⟩ := applyExecutorOutcome_resolves (fun t ht => (h t ht).2.1) happly
  have hresolved : t.isResolved = true := by rw [Task.isResolved, hresolution, Option.isSome_some]
  have hfirst := h.resolveByOutcome outcome now hadded
  unfold JobManager.applyExecutorOutcome at happly
  rcases hresult : JobManager.resolveByOutcome w taskId now outcome job with ⟨r₁, job₁⟩
  rw [hresult] at hfirst happly
  cases r₁ with
  | ok resolution =>
      cases happly
      exact ⟨hfirst.1, hfirst.2, t, ht, hresolved⟩
  | error e =>
      dsimp only at happly
      have hsecond := hfirst.1.recordTaskExecutionFailure e.toText .whileBudgetLasts now hadded
      obtain ⟨count, job₂, hrecord, happly⟩ := Mutation.bind_eq_ok.mp happly
      rw [hrecord] at hsecond
      rw [Mutation.current_bind_apply, Mutation.ofExcept_apply, Prod.mk.injEq] at happly
      obtain ⟨-, rfl⟩ := happly
      exact ⟨hsecond.1, hsecond.2.trans hfirst.2, t, ht, hresolved⟩

end HasWork

end JobManager
