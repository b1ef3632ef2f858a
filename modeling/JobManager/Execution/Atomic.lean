import JobManager.Core.Cascade
import JobManager.Execution.Record
import JobManager.Storage.State

/-!
# An execution is all or nothing

An executor works on a copy of the job through its handle: it adds tasks and may resolve
its own task early, contradict itself, outlive the lifetime or exceed a limit, and then
it ends in one of seven ways.  Of all the resolutions that are attempted, the first the
domain accepts is the one that stands.  What the execution added stays with a task that
completed or was skipped, and is dropped with a task that failed, with nothing else unless
the copy holds more under the mark of that task.

Main results:

- Theorem {lit}`Underway.serve`: what one handle call leaves of the copy.
- Theorem {lit}`Underway.applyExecutorOutcomeAt`: what recording the outcome leaves.
- Theorem {lit}`endsWhole_iff`: when one execution is all or nothing.
- Theorem {lit}`execution_all_or_nothing`: over any calls and any outcome, at any readings
  of the clock.
-/

namespace JobManager

/-! ## Attempts -/

/-- An attempt to resolve the executed task. -/
inductive Attempt where
  | complete (output : Bytes)
  | fail (errorMsg : String) (retry : TaskRetry)
  | skip (reason : String)

namespace Attempt

/-- What an accepted attempt makes of the task. -/
def resolution : Attempt → TaskResolution
  | .complete _ => .completed
  | .fail _ _ => .failed
  | .skip _ => .skipped

/-- What the domain answers an attempt of worker {lit}`w` on the task with. -/
def answer (limits : TaskLimits) (w : Uuid) (now : Nat) (t : Task) :
    Attempt → Except JobError Task
  | .complete output => do
      Job.validateTaskOutput output limits
      Job.checkTaskOwner t w
      t.complete output now
  | .fail errorMsg retry => do
      Job.checkTaskOwner t w
      t.fail errorMsg retry now
  | .skip reason => do
      Job.checkTaskOwner t w
      t.skip reason .executorDecision now

/-- The operation on the job that makes the attempt. -/
def perform (w taskId : Uuid) (now : Nat) : Attempt → JobM TaskResolution
  | .complete output => do
      Job.completeTask taskId output w now
      return .completed
  | .fail errorMsg retry => do
      let _ ← Job.failTask taskId errorMsg retry w now
      return .failed
  | .skip reason => do
      Job.skipTaskByExecutor taskId reason w now
      return .skipped

end Attempt

/-- The job once one of its tasks was resolved: a failure drops what its execution
created. -/
def Job.landed (job : Job) (taskId : Uuid) (t : Task) : Job :=
  if t.status = .failed then (job.setTask t).rollback taskId else job.setTask t

theorem Job.landed_of_failed {job : Job} {taskId : Uuid} {t : Task}
    (h : t.resolution = some .failed) : job.landed taskId t = (job.setTask t).rollback taskId := by
  rw [landed, if_pos (Task.resolution_eq_failed.mp h)]

theorem Job.landed_of_resolution {job : Job} {taskId : Uuid} {t : Task} {r : TaskResolution}
    (h : t.resolution = some r) (hr : r ≠ .failed) : job.landed taskId t = job.setTask t := by
  rw [landed, if_neg]
  intro hfailed
  rw [Task.resolution_eq_failed.mpr hfailed, Option.some.injEq] at h
  exact hr h.symm

namespace Attempt

variable {limits : TaskLimits} {w : Uuid} {now : Nat} {t t' : Task} {a : Attempt}

/-- An accepted attempt found the task open, left it with the resolution it asked for and
changed nothing that identifies it. -/
theorem answer_eq_ok (h : a.answer limits w now t = .ok t') :
    t.isResolved = false ∧ Kin t t' ∧ t'.resolution = some a.resolution := by
  cases a with
  | complete output =>
      simp only [answer, bind_eq_ok] at h
      obtain ⟨_, -, _, -, h⟩ := h
      obtain ⟨hs, -, rfl⟩ := Task.complete_eq_ok.mp h
      exact ⟨by simp [Task.isResolved, Task.resolution, hs], ⟨rfl, rfl, rfl, rfl, rfl, rfl⟩, rfl⟩
  | fail errorMsg retry =>
      simp only [answer, bind_eq_ok] at h
      obtain ⟨_, -, h⟩ := h
      obtain ⟨hs, rfl⟩ := Task.fail_eq_ok.mp h
      exact ⟨by simp [Task.isResolved, Task.resolution, hs], ⟨rfl, rfl, rfl, rfl, rfl, rfl⟩, rfl⟩
  | skip reason =>
      simp only [answer, bind_eq_ok] at h
      obtain ⟨_, -, h⟩ := h
      obtain ⟨hs, rfl⟩ := Task.skip_eq_ok.mp h
      refine ⟨?_, ⟨rfl, rfl, rfl, rfl, rfl, rfl⟩, rfl⟩
      rcases hs with ⟨hs, -⟩ | hs <;> simp [Task.isResolved, Task.resolution, hs]

/-- A failure is accepted of every task the worker runs. -/
theorem answer_fail (errorMsg : String) (retry : TaskRetry) (hs : t.status = .started)
    (hw : t.processingByWorker = some w) :
    (Attempt.fail errorMsg retry).answer limits w now t =
      .ok (t.failedWith errorMsg retry now) := by
  rw [answer, bind_eq_ok]
  exact ⟨(), Job.checkTaskOwner_eq_ok.mpr (Or.inr hw), Task.fail_eq_ok.mpr ⟨hs, rfl⟩⟩

/-- The operation lands what the task answers, and leaves a job that refuses as it was. -/
theorem perform_apply {taskId : Uuid} {job : Job} (ht : job.task? taskId = some t) :
    a.perform w taskId now job =
      match a.answer job.taskLimits w now t with
      | .ok t' => (.ok a.resolution, job.landed taskId t')
      | .error e => (.error e, job) := by
  have hanswer := @answer_eq_ok job.taskLimits w now t
  cases a with
  | complete output =>
      rw [perform, Mutation.bind_apply, Job.completeTask, Mutation.current_bind_apply,
        Mutation.bind_apply, Mutation.ofExcept_apply]
      cases hvalid : Job.validateTaskOutput output job.taskLimits with
      | error e => simp only [answer, hvalid, bind, Except.bind]
      | ok u =>
          have hsame : (Attempt.complete output).answer job.taskLimits w now t =
              (do Job.checkTaskOwner t w; t.complete output now) := by
            rw [answer, hvalid]
            rfl
          dsimp only
          rw [Job.updateTask_apply ht, ← hsame]
          cases hok : (Attempt.complete output).answer job.taskLimits w now t with
          | error e => rfl
          | ok t' =>
              dsimp only
              rw [Job.landed_of_resolution (hanswer hok).2.2 (by simp [resolution])]
              rfl
  | fail errorMsg retry =>
      have hsame : (Attempt.fail errorMsg retry).answer job.taskLimits w now t =
        (do Job.checkTaskOwner t w; t.fail errorMsg retry now) := rfl
      rw [perform, Mutation.bind_apply, Job.failTask, Mutation.bind_apply,
        Job.updateTask_apply ht, ← hsame]
      cases hok : (Attempt.fail errorMsg retry).answer job.taskLimits w now t with
      | error e => rfl
      | ok t' =>
          dsimp only
          rw [Job.landed_of_failed (hanswer hok).2.2]
          rfl
  | skip reason =>
      have hsame : (Attempt.skip reason).answer job.taskLimits w now t =
        (do Job.checkTaskOwner t w; t.skip reason .executorDecision now) := rfl
      rw [perform, Mutation.bind_apply, Job.skipTaskByExecutor, Job.updateTask_apply ht, ← hsame]
      cases hok : (Attempt.skip reason).answer job.taskLimits w now t with
      | error e => rfl
      | ok t' =>
          dsimp only
          rw [Job.landed_of_resolution (hanswer hok).2.2 (by simp [resolution])]
          rfl

end Attempt

/-! ## The first attempt accepted -/

/-- What the first of the attempts the domain accepts makes of the task, each taken at its
own reading of the clock. -/
def firstAccepted (limits : TaskLimits) (w : Uuid) (t : Task) (tried : List (Nat × Attempt)) :
    Option Task :=
  tried.findSome? fun x => (x.2.answer limits w x.1 t).toOption

section FirstAccepted

variable {limits : TaskLimits} {w : Uuid} {t t' : Task} {tried tried' : List (Nat × Attempt)}

theorem firstAccepted_append :
    firstAccepted limits w t (tried ++ tried') =
      (firstAccepted limits w t tried).or (firstAccepted limits w t tried') :=
  List.findSome?_append

theorem firstAccepted_singleton {now : Nat} {a : Attempt} :
    firstAccepted limits w t [(now, a)] = (a.answer limits w now t).toOption := by
  rw [firstAccepted, List.findSome?_singleton]

/-- A task that was open and stands resolved was resolved by the first accepted attempt. -/
theorem firstAccepted_of_isResolved (hopen : t.isResolved = false) (ht' : t'.isResolved = true)
    (h : t' = (firstAccepted limits w t tried).getD t) :
    firstAccepted limits w t tried = some t' := by
  cases hfirst : firstAccepted limits w t tried with
  | some t₁ => rw [h, hfirst, Option.getD_some]
  | none =>
      rw [hfirst, Option.getD_none] at h
      rw [h, hopen] at ht'
      cases ht'

/-- What was accepted is a resolved state of the task. -/
theorem firstAccepted_eq_some (h : firstAccepted limits w t tried = some t') :
    Kin t t' ∧ t'.isResolved = true := by
  obtain ⟨x, -, hx⟩ := List.exists_of_findSome?_eq_some h
  obtain ⟨-, hkin, hresolution⟩ := Attempt.answer_eq_ok (toOption_eq_some.mp hx)
  exact ⟨hkin, by rw [Task.isResolved, hresolution]; rfl⟩

end FirstAccepted

/-! ## The calls of an execution -/

namespace HandleCall

/-- The call names no task but the executed one. -/
def Own (taskId : Uuid) : HandleCall → Prop
  | .completeTask id _ => id = taskId
  | .failTask id _ _ => id = taskId
  | .addTask _ _ | .skipTaskBranch _ | .setNextStartAt _ => True

/-- The resolution of its own task a call attempts. -/
def attempt? : HandleCall → Option Attempt
  | .completeTask _ output => some (.complete output)
  | .failTask _ errorMsg retry => some (.fail errorMsg retry)
  | .skipTaskBranch reason => some (.skip reason)
  | .addTask _ _ | .setNextStartAt _ => none

end HandleCall

/-- The resolution of its own task an outcome attempts. -/
def ExecutorOutcome.attempt? : ExecutorOutcome → Option Attempt
  | .completed output => some (.complete output)
  | .terminallyFailed reason => some (.fail reason .never)
  | .skippedBranch reason => some (.skip reason)
  | .deferred | .cancelled | .error _ | .panicked _ => none

/-- The attempts of a sequence of calls, each at the reading it was made at. -/
def triedBy (calls : List (Nat × HandleCall)) : List (Nat × Attempt) :=
  calls.filterMap fun x => x.2.attempt?.map (x.1, ·)

/-- Serve the calls of an execution in turn, each at its own reading of the clock. -/
def serveAll (w taskId : Uuid) : List (Nat × HandleCall) → Job → Job
  | [], job => job
  | (now, call) :: calls, job => serveAll w taskId calls (call.serve w taskId now job).2

/-- The task a call adds, where it is accepted. -/
def HandleCall.adds (w taskId : Uuid) (now : Nat) (job : Job) (call : HandleCall) : List Task :=
  match call.serve w taskId now job with
  | (.ok (), job') => call.minted.filterMap job'.task?
  | (.error _, _) => []

/-- The tasks an execution added with success, as they were added, the last one first. -/
def additions (w taskId : Uuid) : List (Nat × HandleCall) → Job → List Task
  | [], _ => []
  | (now, call) :: calls, job =>
      additions w taskId calls (call.serve w taskId now job).2 ++ call.adds w taskId now job

/-- Record on the task what its executor returned, where the outcome and the failure of the
execution read the clock apart. -/
def applyExecutorOutcomeAt (w taskId : Uuid) (outcome : ExecutorOutcome)
    (resolveAt recordAt : Nat) : JobM TaskResolution := fun job =>
  match resolveByOutcome w taskId resolveAt outcome job with
  | (.ok resolution, job') => (.ok resolution, job')
  | (.error e, job') =>
      (do
        let _ ← Job.recordTaskExecutionFailure taskId e.toText .whileBudgetLasts w recordAt
        let job ← Mutation.current
        Mutation.ofExcept (findTaskResolution job taskId) : JobM TaskResolution) job'

/-- The attempts recording an outcome makes on the copy: what the outcome asks for, and
the failure of the execution where that came to nothing. -/
def ExecutorOutcome.attempts (w taskId : Uuid) (resolveAt recordAt : Nat) (job : Job)
    (outcome : ExecutorOutcome) : List (Nat × Attempt) :=
  (outcome.attempt?.map (resolveAt, ·)).toList ++
    match (resolveByOutcome w taskId resolveAt outcome job).1 with
    | .ok _ => []
    | .error e => [(recordAt, .fail e.toText .whileBudgetLasts)]

theorem findTaskResolution_eq_ok_iff {job : Job} {taskId : Uuid} {t : Task}
    {r : TaskResolution} (ht : job.task? taskId = some t) :
    findTaskResolution job taskId = .ok r ↔ t.resolution = some r := by
  rw [findTaskResolution, Job.findTask_eq_ok.mpr ht]
  cases hr : t.resolution with
  | none => simp [hr, bind, Except.bind]
  | some r' => simp [hr, bind, Except.bind]

/-! ## An execution underway -/

/-- No task of the copy names the given task as the one whose execution created it. -/
def Job.NoneCreatedBy (job : Job) (taskId : Uuid) : Prop :=
  ∀ id t, job.task? id = some t → t.createdByTask ≠ some taskId

/-- The store keeps no such mark, so every copy restored from it is without one. -/
theorem noneCreatedBy_intoJob (s : StoredJob) (maxIterations iterationInterval : Option Nat)
    (taskLimits : TaskLimits) (version : String) (taskId : Uuid) :
    (s.intoJob maxIterations iterationInterval taskLimits version).NoneCreatedBy taskId := by
  intro id t ht
  rcases KeyedMap.mem_values_insertAll (KeyedMap.mem_values_of_get ht) with hempty | hmem
  · cases hempty
  · obtain ⟨stored, -, rfl⟩ := List.mem_map.mp hmem
    intro hmark
    cases hmark

/-- The identifier occurs nowhere in the job: it names no task and no dependency. -/
def Job.Lacks (job : Job) (id : Uuid) : Prop :=
  job.task? id = none ∧ ∀ id' t, job.task? id' = some t → id ∉ t.dependsOn

theorem Job.lacks_of_tasks {job : Job} {id : Uuid}
    (h : ∀ t ∈ job.tasks, t.id ≠ id ∧ id ∉ t.dependsOn) : job.Lacks id := by
  constructor
  · rw [Option.eq_none_iff_forall_ne_some]
    intro t ht
    exact (h t (KeyedMap.mem_values_of_get ht)).1 (Job.id_of_task? ht)
  · intro id' t ht
    exact (h t (KeyedMap.mem_values_of_get ht)).2

/-- The copy an execution works on, from the copy it began with: its own task as it stands,
every other task as it was and what was added, but once the execution failed nothing that
names it as its creator. -/
structure Underway (copy : Job) (taskId : Uuid) (t : Task) (added : List Task) (job : Job) :
    Prop where
  own : job.task? taskId = some t
  limits : job.taskLimits = copy.taskLimits
  others : ∀ id, id ≠ taskId → job.task? id =
    if t.status = .failed then (copy.task? id).filter (·.createdByTask ≠ some taskId)
    else (added.find? (·.id = id)).or (copy.task? id)
  parent : t.createdByTask ≠ some taskId
  created : ∀ y ∈ added, y.createdByTask = some taskId ∧ y.id ≠ taskId ∧ copy.Lacks y.id
  nodup : (added.map Task.id).Nodup

namespace Underway

variable {copy job : Job} {w taskId : Uuid} {t₀ t t' : Task} {added : List Task}
  {tried : List (Nat × Attempt)}

/-- What was added is on the copy while its execution has not failed. -/
theorem get_added (h : Underway copy taskId t added job) (hopen : t.status ≠ .failed) {y : Task}
    (hy : y ∈ added) : job.task? y.id = some y := by
  rw [h.others y.id (h.created y hy).2.1, if_neg hopen,
    KeyedMap.find?_of_nodup h.nodup hy]
  rfl

/-- Resolving the executed task keeps the copy in shape: a failure drops what was added, and
whatever the copy held that bears the mark of the same task. -/
theorem landed (h : Underway copy taskId t added job) (hopen : t.status ≠ .failed)
    (hkin : Kin t t') : Underway copy taskId t' added (job.landed taskId t') := by
  have hid : t'.id = taskId := hkin.id.trans (Job.id_of_task? h.own)
  have hself : (job.setTask t').task? taskId = some t' := by
    rw [← hid]
    exact Job.task?_setTask_self job t'
  have hparent : t'.createdByTask ≠ some taskId := hkin.createdByTask ▸ h.parent
  have hother : ∀ id, id ≠ taskId → (job.setTask t').task? id =
      (added.find? (·.id = id)).or (copy.task? id) := by
    intro id hne
    rw [Job.task?_setTask_of_ne (by rw [hid]; exact hne.symm), h.others id hne, if_neg hopen]
  unfold Job.landed
  split <;> rename_i hfailed
  · refine ⟨?_, h.limits, ?_, hparent, h.created, h.nodup⟩
    · rw [Job.task?_rollback, hself]
      simp [Option.filter, hparent]
    · intro id hne
      rw [Job.task?_rollback, hother id hne, if_pos hfailed]
      cases hfind : added.find? (·.id = id) with
      | some y =>
          have hy := List.mem_of_find?_eq_some hfind
          have hyid : y.id = id := by simpa using List.find?_some hfind
          obtain ⟨hcreated, -, hlacks, -⟩ := h.created y hy
          rw [← hyid, hlacks]
          simp [Option.filter, hcreated]
      | none => rw [Option.none_or]
  · refine ⟨hself, h.limits, ?_, hparent, h.created, h.nodup⟩
    intro id hne
    rw [hother id hne, if_neg hfailed]

/-- A task added joins what the execution added before. -/
theorem add (h : Underway copy taskId t added job) (hopen : t.status ≠ .failed) {y : Task}
    (hcreated : y.createdByTask = some taskId) (hne : y.id ≠ taskId) (hlacks : copy.Lacks y.id)
    (hnew : y.id ∉ added.map Task.id) :
    Underway copy taskId t (y :: added) (job.setTask y) := by
  refine ⟨?_, h.limits, ?_, h.parent, ?_, ?_⟩
  · rw [Job.task?_setTask_of_ne hne, h.own]
  · intro id hid
    rw [Job.task?_setTask, if_neg hopen, List.find?_cons]
    by_cases hy : y.id = id
    · simp [hy]
    · simp [hy, h.others id hid, hopen]
  · intro y' hy'
    rcases List.mem_cons.mp hy' with rfl | hy'
    · exact ⟨hcreated, hne, hlacks⟩
    · exact h.created y' hy'
  · rw [List.map_cons, List.nodup_cons]
    exact ⟨hnew, h.nodup⟩

/-- An attempt on the executed task: it stands as the first accepted attempt left it. -/
theorem perform (h : Underway copy taskId t added job)
    (ht : t = (firstAccepted copy.taskLimits w t₀ tried).getD t₀) (now : Nat) (a : Attempt) :
    ∃ t', Underway copy taskId t' added (a.perform w taskId now job).2 ∧
      t' = (firstAccepted copy.taskLimits w t₀ (tried ++ [(now, a)])).getD t₀ ∧
      ∀ r, (a.perform w taskId now job).1 = .ok r → t'.resolution = some r := by
  rw [Attempt.perform_apply h.own, h.limits, firstAccepted_append, firstAccepted_singleton]
  cases hfirst : firstAccepted copy.taskLimits w t₀ tried with
  | some t₁ =>
      rw [hfirst, Option.getD_some] at ht
      subst ht
      cases hanswer : a.answer copy.taskLimits w now t with
      | error e => exact ⟨t, h, rfl, fun r hr => by cases hr⟩
      | ok t' =>
          have hresolved := (firstAccepted_eq_some hfirst).2
          rw [(Attempt.answer_eq_ok hanswer).1] at hresolved
          cases hresolved
  | none =>
      rw [hfirst, Option.getD_none] at ht
      subst ht
      cases hanswer : a.answer copy.taskLimits w now t with
      | error e => exact ⟨t, h, rfl, fun r hr => by cases hr⟩
      | ok t' =>
          obtain ⟨hunresolved, hkin, hresolution⟩ := Attempt.answer_eq_ok hanswer
          refine ⟨t', h.landed ?_ hkin, rfl, ?_⟩
          · intro hfailed
            simp [Task.isResolved, Task.resolution, hfailed] at hunresolved
          · intro r hr
            cases hr
            exact hresolution

/-- A call that attempts a resolution does to the copy what the attempt does. -/
theorem serve_state {call : HandleCall} {a : Attempt} (hown : call.Own taskId)
    (ha : call.attempt? = some a) (now : Nat) :
    (call.serve w taskId now job).2 = (a.perform w taskId now job).2 := by
  cases call with
  | addTask taskDef mintedId => cases ha
  | completeTask id output =>
      cases ha
      obtain rfl : id = taskId := hown
      rw [Attempt.perform, bind_pure_state]
      rfl
  | failTask id errorMsg retry =>
      cases ha
      obtain rfl : id = taskId := hown
      rw [Attempt.perform, HandleCall.serve, bind_pure_state, bind_pure_state]
  | skipTaskBranch reason =>
      cases ha
      rw [Attempt.perform, bind_pure_state]
      rfl
  | setNextStartAt nextStartAt => cases ha

theorem adds_eq_nil {call : HandleCall} (h : call.minted = []) (now : Nat) :
    call.adds w taskId now job = [] := by
  unfold HandleCall.adds
  split
  · rw [h]
    rfl
  · rfl

/-- What a call adds bears an identifier the call minted. -/
theorem adds_ids {call : HandleCall} (now : Nat) :
    List.Sublist ((call.adds w taskId now job).map Task.id) call.minted := by
  have hkeys : ∀ (job : Job) (ids : List Uuid),
      List.Sublist ((ids.filterMap job.task?).map Task.id) ids := by
    intro job ids
    induction ids with
    | nil => exact List.Sublist.refl _
    | cons id ids ih =>
        rw [List.filterMap_cons]
        cases ht : job.task? id with
        | none => exact ih.cons id
        | some t =>
            rw [List.map_cons, Job.id_of_task? ht]
            exact ih.cons_cons id
  unfold HandleCall.adds
  split
  · exact hkeys _ _
  · exact List.nil_sublist _

/-- A task the handle is asked to add is added where the call is accepted, and the copy is
left as it was where it is not. -/
theorem addTask (h : Underway copy taskId t added job) (now : Nat) {taskDef : TaskDefinition}
    {mintedId : Uuid}
    (hfresh : copy.Lacks mintedId ∧ mintedId ≠ taskId ∧ mintedId ∉ added.map Task.id) :
    Underway copy taskId t
      ((HandleCall.addTask taskDef mintedId).adds w taskId now job ++ added)
      ((HandleCall.addTask taskDef mintedId).serve w taskId now job).2 := by
  rcases hserve : (HandleCall.addTask taskDef mintedId).serve w taskId now job with ⟨r, job'⟩
  cases r with
  | error e =>
      rw [HandleCall.adds, hserve,
        HandleCall.serve_refusesCleanly w taskId now _ job e job' hserve]
      exact h
  | ok u =>
      obtain ⟨_, job₁, hadd, hpure⟩ := Mutation.bind_eq_ok.mp hserve
      cases hpure
      obtain ⟨-, hparent, -, resolved, -, rfl⟩ := Job.addTask_eq_ok hadd
      have hopen := Job.not_failed_of_checkParent hparent h.own
      have hself : (job.setTask (Task.new mintedId w (some taskId) taskDef resolved)).task?
          mintedId = some (Task.new mintedId w (some taskId) taskDef resolved) :=
        Job.task?_setTask_self ..
      have hadds : (HandleCall.addTask taskDef mintedId).adds w taskId now job =
          [Task.new mintedId w (some taskId) taskDef resolved] := by
        rw [HandleCall.adds, hserve]
        dsimp only
        rw [HandleCall.minted, List.filterMap_cons, hself]
        rfl
      rw [hadds]
      exact h.add hopen rfl hfresh.2.1 hfresh.1 hfresh.2.2

/-- A handle call adds at most what it mints, and its attempt takes its turn. -/
theorem serve (h : Underway copy taskId t added job)
    (ht : t = (firstAccepted copy.taskLimits w t₀ tried).getD t₀) (now : Nat)
    {call : HandleCall} (hown : call.Own taskId)
    (hfresh : ∀ id ∈ call.minted, copy.Lacks id ∧ id ≠ taskId ∧ id ∉ added.map Task.id) :
    ∃ t', Underway copy taskId t' (call.adds w taskId now job ++ added)
        (call.serve w taskId now job).2 ∧
      t' = (firstAccepted copy.taskLimits w t₀ (tried ++ triedBy [(now, call)])).getD t₀ := by
  cases ha : call.attempt? with
  | some a =>
      have hminted : call.minted = [] := by cases call <;> first | rfl | cases ha
      rw [serve_state hown ha, adds_eq_nil hminted, List.nil_append]
      have htried : triedBy [(now, call)] = [(now, a)] := by simp [triedBy, ha]
      rw [htried]
      obtain ⟨t', h', ht', -⟩ := h.perform ht now a
      exact ⟨t', h', ht'⟩
  | none =>
      have htried : triedBy [(now, call)] = [] := by simp [triedBy, ha]
      rw [htried, List.append_nil]
      refine ⟨t, ?_, ht⟩
      cases call with
      | completeTask id output => cases ha
      | failTask id errorMsg retry => cases ha
      | skipTaskBranch reason => cases ha
      | setNextStartAt nextStartAt =>
          rw [adds_eq_nil rfl, List.nil_append]
          exact ⟨h.own, h.limits, h.others, h.parent, h.created, h.nodup⟩
      | addTask taskDef mintedId =>
          exact h.addTask now (hfresh mintedId (by simp [HandleCall.minted]))

/-- Serving every call keeps the copy in shape, and the executed task stands as the first
accepted attempt left it. -/
theorem serveAll {calls : List (Nat × HandleCall)}
    (hown : ∀ x ∈ calls, x.2.Own taskId)
    (hfresh : ∀ id ∈ calls.flatMap (·.2.minted), copy.Lacks id ∧ id ≠ taskId) :
    ∀ {job : Job} {t : Task} {added : List Task} {tried : List (Nat × Attempt)},
      Underway copy taskId t added job →
      t = (firstAccepted copy.taskLimits w t₀ tried).getD t₀ →
      (calls.flatMap (·.2.minted) ++ added.map Task.id).Nodup →
      ∃ t', Underway copy taskId t' (additions w taskId calls job ++ added)
          (JobManager.serveAll w taskId calls job) ∧
        t' = (firstAccepted copy.taskLimits w t₀ (tried ++ triedBy calls)).getD t₀ := by
  induction calls with
  | nil =>
      intro job t added tried h ht _
      exact ⟨t, h, by simpa [triedBy] using ht⟩
  | cons x calls ih =>
      intro job t added tried h ht hnodup
      obtain ⟨now, call⟩ := x
      rw [List.flatMap_cons, List.append_assoc] at hnodup
      have hcall : ∀ id ∈ call.minted, copy.Lacks id ∧ id ≠ taskId ∧ id ∉ added.map Task.id := by
        intro id hid
        obtain ⟨hlacks, hne⟩ := hfresh id (by simp [hid])
        refine ⟨hlacks, hne, fun hmem => ?_⟩
        exact (List.nodup_append.mp hnodup).2.2 id hid id (by simp [hmem]) rfl
      obtain ⟨t₁, h₁, ht₁⟩ := h.serve ht now (hown (now, call) (by simp)) hcall
      -- what was added bears an identifier the call minted
      have hrest : (calls.flatMap (·.2.minted) ++
          (call.adds w taskId now job ++ added).map Task.id).Nodup := by
        rw [List.map_append]
        refine List.Nodup.sublist (List.Sublist.append_left
          (List.Sublist.append_right (adds_ids now) _) _) ?_
        refine (List.Perm.nodup_iff ?_).mp hnodup
        exact List.perm_append_comm_assoc _ _ _
      obtain ⟨t', h', ht'⟩ := ih (fun x hx => hown x (by simp [hx]))
        (fun id hid => hfresh id (by
          rw [List.flatMap_cons]
          exact List.mem_append_right _ hid)) h₁ ht₁ hrest
      refine ⟨t', ?_, ?_⟩
      · rw [additions, List.append_assoc]
        exact h'
      · have htried : triedBy ((now, call) :: calls) =
            triedBy [(now, call)] ++ triedBy calls := by
          rw [triedBy, triedBy, triedBy, ← List.filterMap_append]
          rfl
        rw [htried, ← List.append_assoc]
        exact ht'

/-! ### Recording the outcome -/

/-- What an outcome asks for takes its turn after what the calls attempted, and what it
reports is the resolution the task has. -/
theorem resolveByOutcome (h : Underway copy taskId t added job)
    (ht : t = (firstAccepted copy.taskLimits w t₀ tried).getD t₀) (now : Nat)
    (outcome : ExecutorOutcome) :
    ∃ t', Underway copy taskId t' added
        (JobManager.resolveByOutcome w taskId now outcome job).2 ∧
      t' = (firstAccepted copy.taskLimits w t₀
        (tried ++ (outcome.attempt?.map (now, ·)).toList)).getD t₀ ∧
      ∀ r, (JobManager.resolveByOutcome w taskId now outcome job).1 = .ok r →
        t'.resolution = some r := by
  have hnone : t = (firstAccepted copy.taskLimits w t₀ (tried ++ [])).getD t₀ := by
    rw [List.append_nil]
    exact ht
  cases outcome with
  | completed output => exact h.perform ht now (.complete output)
  | terminallyFailed reason => exact h.perform ht now (.fail reason .never)
  | skippedBranch reason => exact h.perform ht now (.skip reason)
  | deferred =>
      refine ⟨t, ?_, hnone, ?_⟩ <;>
        rw [JobManager.resolveByOutcome, Mutation.current_bind_apply, Mutation.bind_apply,
          Mutation.ofExcept_apply]
      · cases checkTaskResolution job taskId <;> exact h
      · intro r hr
        cases hcheck : checkTaskResolution job taskId with
        | error e =>
            rw [hcheck] at hr
            cases hr
        | ok u =>
            rw [hcheck] at hr
            exact (findTaskResolution_eq_ok_iff h.own).mp hr
  | cancelled => exact ⟨t, h, hnone, fun r hr => by cases hr⟩
  | error message => exact ⟨t, h, hnone, fun r hr => by cases hr⟩
  | panicked payload => exact ⟨t, h, hnone, fun r hr => by cases hr⟩

/-- Recording the failure of the execution leaves the task resolved: as it already was, or
failed. -/
theorem recordFailure (h : Underway copy taskId t added job) (hstarted : t₀.status = .started)
    (howner : t₀.processingByWorker = some w)
    (ht : t = (firstAccepted copy.taskLimits w t₀ tried).getD t₀) (now : Nat)
    (errorMsg : String) :
    ∃ r t' job',
      (do
        let _ ← Job.recordTaskExecutionFailure taskId errorMsg .whileBudgetLasts w now
        let job ← Mutation.current
        Mutation.ofExcept (findTaskResolution job taskId) : JobM TaskResolution) job =
          (.ok r, job') ∧
      Underway copy taskId t' added job' ∧ t'.resolution = some r ∧
      firstAccepted copy.taskLimits w t₀ (tried ++ [(now, .fail errorMsg .whileBudgetLasts)]) =
        some t' := by
  rw [firstAccepted_append, firstAccepted_singleton, Mutation.bind_apply,
    Job.recordTaskExecutionFailure, Mutation.current_bind_apply, Mutation.bind_apply,
    Mutation.ofExcept_apply, Job.findTask_eq_ok.mpr h.own]
  dsimp only
  cases hfirst : firstAccepted copy.taskLimits w t₀ tried with
  | some t₁ =>
      -- the failure finds the task resolved by its own executor
      rw [hfirst, Option.getD_some] at ht
      subst ht
      have hresolved := (firstAccepted_eq_some hfirst).2
      obtain ⟨r, hr⟩ := Option.isSome_iff_exists.mp hresolved
      refine ⟨r, t, job, ?_, h, hr, rfl⟩
      rw [if_pos hresolved, Mutation.pure_apply]
      dsimp only
      rw [Mutation.current_bind_apply, Mutation.ofExcept_apply,
        (findTaskResolution_eq_ok_iff h.own).mpr hr]
  | none =>
      rw [hfirst, Option.getD_none] at ht
      subst ht
      have hopen : t.isResolved = false := by simp [Task.isResolved, Task.resolution, hstarted]
      have hanswer : (Attempt.fail errorMsg .whileBudgetLasts).answer copy.taskLimits w now t =
        .ok (t.failedWith errorMsg .whileBudgetLasts now) :=
        Attempt.answer_fail errorMsg .whileBudgetLasts hstarted howner
      have hperform : (Attempt.fail errorMsg .whileBudgetLasts).perform w taskId now job =
          (.ok .failed, job.landed taskId (t.failedWith errorMsg .whileBudgetLasts now)) := by
        rw [Attempt.perform_apply h.own, h.limits, hanswer]
        rfl
      obtain ⟨count, job', hfail, hpure⟩ := Mutation.bind_eq_ok.mp hperform
      cases hpure
      obtain ⟨-, hkin, hresolution⟩ := Attempt.answer_eq_ok hanswer
      have hlanded := h.landed (by simp [hstarted]) hkin
      refine ⟨.failed, _, _, ?_, hlanded, hresolution, by rw [hanswer]; rfl⟩
      rw [if_neg (by simp [hopen]), hfail]
      dsimp only
      rw [Mutation.current_bind_apply, Mutation.ofExcept_apply,
        (findTaskResolution_eq_ok_iff hlanded.own).mpr hresolution]
      rfl

/-- Recording an outcome succeeds, leaves the task as the first accepted attempt left it
and reports the resolution it has. -/
theorem applyExecutorOutcomeAt (h : Underway copy taskId t added job)
    (hstarted : t₀.status = .started) (howner : t₀.processingByWorker = some w)
    (ht : t = (firstAccepted copy.taskLimits w t₀ tried).getD t₀)
    (outcome : ExecutorOutcome) (resolveAt recordAt : Nat) :
    ∃ r t' job',
      JobManager.applyExecutorOutcomeAt w taskId outcome resolveAt recordAt job = (.ok r, job') ∧
      Underway copy taskId t' added job' ∧ t'.resolution = some r ∧
      firstAccepted copy.taskLimits w t₀
        (tried ++ outcome.attempts w taskId resolveAt recordAt job) = some t' := by
  obtain ⟨t₁, h₁, ht₁, hreport⟩ := h.resolveByOutcome ht resolveAt outcome
  rw [JobManager.applyExecutorOutcomeAt, ExecutorOutcome.attempts, ← List.append_assoc]
  rcases hresult : JobManager.resolveByOutcome w taskId resolveAt outcome job with ⟨r, job₁⟩
  rw [hresult] at h₁ hreport
  cases r with
  | ok r =>
      have hr := hreport r rfl
      have hopen : t₀.isResolved = false := by simp [Task.isResolved, Task.resolution, hstarted]
      refine ⟨r, t₁, job₁, rfl, h₁, hr, ?_⟩
      rw [List.append_nil]
      exact firstAccepted_of_isResolved hopen (by rw [Task.isResolved, hr]; rfl) ht₁
  | error e => exact h₁.recordFailure hstarted howner ht₁ recordAt e.toText

/-! ### What remains -/

/-- The copy as the execution found it. -/
theorem start (ht : copy.task? taskId = some t) (hstarted : t.status = .started)
    (hparent : t.createdByTask ≠ some taskId) : Underway copy taskId t [] copy := by
  refine ⟨ht, rfl, ?_, hparent, by simp, List.nodup_nil⟩
  intro id _
  rw [if_neg (by simp [hstarted])]
  rfl

/-- What the copy held and no failure of the execution drops remains, whatever became of
it. -/
theorem get_copy (h : Underway copy taskId t added job) {id : Uuid} {u : Task}
    (hne : id ≠ taskId) (hu : copy.task? id = some u)
    (hmark : t.status = .failed → u.createdByTask ≠ some taskId) : job.task? id = some u := by
  rw [h.others id hne]
  split <;> rename_i hfailed
  · simp [hu, Option.filter, hmark hfailed]
  · have hfind : added.find? (·.id = id) = none := by
      rw [List.find?_eq_none]
      intro y hy hid
      rw [← of_decide_eq_true hid, (h.created y hy).2.2.1] at hu
      cases hu
    rw [hfind, Option.none_or, hu]

/-- A failure of the execution drops what the copy held under the mark of its task. -/
theorem get_marked (h : Underway copy taskId t added job) (hfailed : t.status = .failed)
    {id : Uuid} {u : Task} (hne : id ≠ taskId) (hu : copy.task? id = some u)
    (hmark : u.createdByTask = some taskId) : job.task? id = none := by
  rw [h.others id hne, if_pos hfailed, hu]
  simp [Option.filter, hmark]

/-- Nothing that was added outlasts a failure. -/
theorem get_failed (h : Underway copy taskId t added job) (hfailed : t.status = .failed)
    {y : Task} (hy : y ∈ added) : job.task? y.id = none := by
  obtain ⟨-, hne, hlacks, -⟩ := h.created y hy
  rw [h.others y.id hne, if_pos hfailed, hlacks]
  rfl

/-- Nothing depends on what a failure dropped of what was added. -/
theorem dependsOn_of_failed (h : Underway copy taskId t added job) (hfailed : t.status = .failed)
    {u₀ : Task} (hown : copy.task? taskId = some u₀) (hkin : Kin u₀ t) {y : Task}
    (hy : y ∈ added) {id : Uuid} {u : Task} (hu : job.task? id = some u) :
    y.id ∉ u.dependsOn := by
  obtain ⟨-, -, -, hlacks⟩ := h.created y hy
  by_cases hid : id = taskId
  · rw [hid, h.own, Option.some.injEq] at hu
    rw [← hu, hkin.dependsOn]
    exact hlacks taskId u₀ hown
  · rw [h.others id hid, if_pos hfailed, Option.filter_eq_some_iff] at hu
    exact hlacks id u hu.1

end Underway

/-! ## All or nothing -/

/-- What recording an outcome after some calls leaves of the copy, all or nothing: the task as
the first accepted attempt left it, its resolution being reported; every other task the copy
held; what the execution added, unless it failed; and nothing that depends on what is gone. -/
structure EndsWhole (copy : Job) (w taskId : Uuid) (t₀ : Task) (calls : List (Nat × HandleCall))
    (outcome : ExecutorOutcome) (resolveAt recordAt : Nat) (r : TaskResolution) (t : Task)
    (job' : Job) : Prop where
  applied : applyExecutorOutcomeAt w taskId outcome resolveAt recordAt
    (serveAll w taskId calls copy) = (.ok r, job')
  own : job'.task? taskId = some t
  resolution : t.resolution = some r
  first : firstAccepted copy.taskLimits w t₀ (triedBy calls ++
    outcome.attempts w taskId resolveAt recordAt (serveAll w taskId calls copy)) = some t
  held : ∀ id u, id ≠ taskId → copy.task? id = some u → job'.task? id = some u
  dropped : r = .failed → ∀ y ∈ additions w taskId calls copy, job'.task? y.id = none
  kept : r ≠ .failed → ∀ y ∈ additions w taskId calls copy, job'.task? y.id = some y
  closed : ∀ d, (∃ u, copy.task? d = some u) ∨ (∃ y ∈ additions w taskId calls copy, y.id = d) →
    job'.task? d = none → ∀ id u, job'.task? id = some u → d ∉ u.dependsOn

/-- The calls of an execution of the task: they name no other task, and what they mint is
new. -/
structure ExecutionCalls (copy : Job) (taskId : Uuid) (calls : List (Nat × HandleCall)) :
    Prop where
  own : ∀ x ∈ calls, x.2.Own taskId
  fresh : ∀ id ∈ calls.flatMap (·.2.minted), copy.Lacks id
  nodup : (calls.flatMap (·.2.minted)).Nodup

/-- The first accepted of the attempts that some calls and an outcome make is a failure. -/
def FailsFirst (copy : Job) (w taskId : Uuid) (t₀ : Task) (calls : List (Nat × HandleCall))
    (outcome : ExecutorOutcome) (resolveAt recordAt : Nat) : Prop :=
  ∃ t, firstAccepted copy.taskLimits w t₀ (triedBy calls ++
    outcome.attempts w taskId resolveAt recordAt (serveAll w taskId calls copy)) = some t ∧
      t.status = .failed

/-- Every execution of the copy is all or nothing, whatever its calls are and however its
executor ends. -/
def AllOrNothing (copy : Job) (w taskId : Uuid) (t₀ : Task) : Prop :=
  ∀ calls, ExecutionCalls copy taskId calls → ∀ outcome resolveAt recordAt,
    ∃ r t job', EndsWhole copy w taskId t₀ calls outcome resolveAt recordAt r t job'

section AllOrNothing

variable {copy : Job} {w taskId : Uuid} {t₀ : Task} {calls : List (Nat × HandleCall)}

/-- What an execution leaves of the copy it began with. -/
theorem underway_of_execution (hheld : copy.task? taskId = some t₀)
    (hstarted : t₀.status = .started) (howner : t₀.processingByWorker = some w)
    (hself : t₀.createdByTask ≠ some taskId) (hcalls : ExecutionCalls copy taskId calls)
    (outcome : ExecutorOutcome) (resolveAt recordAt : Nat) :
    ∃ r t job', applyExecutorOutcomeAt w taskId outcome resolveAt recordAt
        (serveAll w taskId calls copy) = (.ok r, job') ∧
      Underway copy taskId t (additions w taskId calls copy) job' ∧ t.resolution = some r ∧
      firstAccepted copy.taskLimits w t₀ (triedBy calls ++
        outcome.attempts w taskId resolveAt recordAt (serveAll w taskId calls copy)) = some t := by
  have hne : ∀ id ∈ calls.flatMap (·.2.minted), copy.Lacks id ∧ id ≠ taskId := by
    intro id hid
    refine ⟨hcalls.fresh id hid, ?_⟩
    rintro rfl
    rw [(hcalls.fresh id hid).1] at hheld
    cases hheld
  obtain ⟨t₁, h₁, ht₁⟩ : ∃ t₁, Underway copy taskId t₁ (additions w taskId calls copy)
        (serveAll w taskId calls copy) ∧
      t₁ = (firstAccepted copy.taskLimits w t₀ (triedBy calls)).getD t₀ := by
    rw [← List.append_nil (additions w taskId calls copy), ← List.nil_append (triedBy calls)]
    exact Underway.serveAll hcalls.own hne (Underway.start hheld hstarted hself) rfl
      (by simpa using hcalls.nodup)
  exact h₁.applyExecutorOutcomeAt hstarted howner ht₁ outcome resolveAt recordAt

/-- An execution is all or nothing if and only if no task of the copy bears the mark of the
executed one or the execution does not fail. -/
theorem endsWhole_iff (hheld : copy.task? taskId = some t₀) (hstarted : t₀.status = .started)
    (howner : t₀.processingByWorker = some w) (hself : t₀.createdByTask ≠ some taskId)
    (hcalls : ExecutionCalls copy taskId calls) (outcome : ExecutorOutcome)
    (resolveAt recordAt : Nat) :
    (∃ r t job', EndsWhole copy w taskId t₀ calls outcome resolveAt recordAt r t job') ↔
      copy.NoneCreatedBy taskId ∨
        ¬ FailsFirst copy w taskId t₀ calls outcome resolveAt recordAt := by
  obtain ⟨r, t, job', happly, h, hr, hfirst⟩ :=
    underway_of_execution hheld hstarted howner hself hcalls outcome resolveAt recordAt
  have hfails : FailsFirst copy w taskId t₀ calls outcome resolveAt recordAt ↔
      t.status = .failed := by
    simp [FailsFirst, hfirst]
  have hfailed : r = .failed ↔ t.status = .failed := by
    rw [← Task.resolution_eq_failed, hr, Option.some.injEq]
  rw [hfails]
  constructor
  · rintro ⟨r', t', job'', hends⟩
    have hsame := hends.applied
    rw [happly] at hsame
    obtain ⟨-, rfl⟩ := Prod.mk.inj hsame
    refine or_iff_not_imp_right.mpr fun hs => ?_
    intro id u hu hmark
    by_cases hid : id = taskId
    · rw [hid, hheld] at hu
      cases hu
      exact hself hmark
    · have hkept := hends.held id u hid hu
      rw [h.get_marked (not_not.mp hs) hid hu hmark] at hkept
      cases hkept
  · intro hwhole
    have hcopy : ∀ id u, id ≠ taskId → copy.task? id = some u → job'.task? id = some u := by
      intro id u hid hu
      exact h.get_copy hid hu fun hs =>
        (hwhole.resolve_right fun hopen => hopen hs) id u hu
    refine ⟨r, t, job', happly, h.own, hr, hfirst, hcopy,
      fun hrfailed y hy => h.get_failed (hfailed.mp hrfailed) hy,
      fun hrok y hy => h.get_added (fun hs => hrok (hfailed.mpr hs)) hy, ?_⟩
    rintro d (⟨u₀, hu₀⟩ | ⟨y, hy, rfl⟩) hgone id u hu
    · -- what the copy held is all there
      by_cases hd : d = taskId
      · rw [hd, h.own] at hgone
        cases hgone
      · rw [hcopy d u₀ hd hu₀] at hgone
        cases hgone
    · by_cases hs : t.status = .failed
      · exact h.dependsOn_of_failed hs hheld (firstAccepted_eq_some hfirst).1 hy hu
      · rw [h.get_added hs hy] at hgone
        cases hgone

/-- Where no task of the copy bears the mark of the executed one, every execution is all or
nothing. -/
theorem allOrNothing_of_noneCreatedBy (hmarks : copy.NoneCreatedBy taskId)
    (hheld : copy.task? taskId = some t₀) (hstarted : t₀.status = .started)
    (howner : t₀.processingByWorker = some w) : AllOrNothing copy w taskId t₀ :=
  fun _ hcalls outcome resolveAt recordAt =>
    (endsWhole_iff hheld hstarted howner (hmarks taskId t₀ hheld) hcalls outcome resolveAt
      recordAt).mpr (Or.inl hmarks)

/-- An executor that fails for good at once drops every task that bears the mark of its own. -/
theorem applyExecutorOutcomeAt_terminallyFailed (hheld : copy.task? taskId = some t₀)
    (hstarted : t₀.status = .started) (howner : t₀.processingByWorker = some w)
    (reason : String) (resolveAt recordAt : Nat) :
    applyExecutorOutcomeAt w taskId (.terminallyFailed reason) resolveAt recordAt copy =
      (.ok .failed, (copy.setTask (t₀.failedWith reason .never resolveAt)).rollback taskId) := by
  have hperform : resolveByOutcome w taskId resolveAt (.terminallyFailed reason) copy =
      (Attempt.fail reason .never).perform w taskId resolveAt copy := rfl
  rw [applyExecutorOutcomeAt, hperform, Attempt.perform_apply hheld,
    Attempt.answer_fail reason .never hstarted howner]
  dsimp only
  rw [Job.landed_of_failed rfl]
  rfl

/-- An execution that is all or nothing works on a copy no task of which bears the mark of the
executed one: it may fail at once. -/
theorem noneCreatedBy_of_allOrNothing (hall : AllOrNothing copy w taskId t₀)
    (hheld : copy.task? taskId = some t₀) (hstarted : t₀.status = .started)
    (howner : t₀.processingByWorker = some w) : copy.NoneCreatedBy taskId := by
  intro id u hu hmark
  obtain ⟨r, t, job', hends⟩ :=
    hall [] ⟨by simp, by simp, by simp⟩ (.terminallyFailed "") 0 0
  have happly := hends.applied
  rw [serveAll, applyExecutorOutcomeAt_terminallyFailed hheld hstarted howner] at happly
  obtain ⟨-, rfl⟩ := Prod.mk.inj happly
  have hid : (t₀.failedWith "" .never 0).id = taskId := Job.id_of_task? (t := t₀) hheld
  by_cases hself : id = taskId
  · -- the executed task bears its own mark, and goes with the rest
    subst hself
    rw [hheld] at hu
    cases hu
    have hown := hends.own
    rw [Job.task?_rollback, Option.filter_eq_some_iff] at hown
    have hset := Job.task?_setTask_self copy (t₀.failedWith "" .never 0)
    rw [hid, hown.1] at hset
    cases hset
    simp [Task.failedWith, hmark] at hown
  · have hkept := hends.held id u hself hu
    rw [Job.task?_rollback, Option.filter_eq_some_iff] at hkept
    simp [hmark] at hkept

/-- Every execution of a copy is all or nothing if and only if no task of it bears the mark of
the executed one: a failure drops every task that does, whoever stored it.  A task that is
not its own creation can still end whole on such a copy, exactly where it does not fail. -/
theorem execution_all_or_nothing (hheld : copy.task? taskId = some t₀)
    (hstarted : t₀.status = .started) (howner : t₀.processingByWorker = some w) :
    (AllOrNothing copy w taskId t₀ ↔ copy.NoneCreatedBy taskId) ∧
      (t₀.createdByTask ≠ some taskId → ∀ calls, ExecutionCalls copy taskId calls →
        ∀ outcome resolveAt recordAt,
          (∃ r t job', EndsWhole copy w taskId t₀ calls outcome resolveAt recordAt r t job') ↔
            copy.NoneCreatedBy taskId ∨
              ¬ FailsFirst copy w taskId t₀ calls outcome resolveAt recordAt) := by
  refine ⟨⟨?_, ?_⟩, ?_⟩
  · intro hall
    exact noneCreatedBy_of_allOrNothing hall hheld hstarted howner
  · intro hmarks
    exact allOrNothing_of_noneCreatedBy hmarks hheld hstarted howner
  · intro hself calls hcalls outcome resolveAt recordAt
    exact endsWhole_iff hheld hstarted howner hself hcalls outcome resolveAt recordAt

end AllOrNothing

/-- A job as worker 101 reads it back while it runs task 1. -/
def runningCopy : Job :=
  copyPersistedState { detourJob with
    tasksById := KeyedMap.empty.insertAll
      [{ bareTask 1 .started [] with processingByWorker := some 101 }, bareTask 2 .blocked [1]] }

/-- An executor that fails its own task between two tasks it adds, and completes it
afterwards. -/
def contradictingCalls : List (Nat × HandleCall) :=
  [(10, .addTask (.new "child" 1000) 7), (11, .failTask 1 "refused" .never),
    (12, .addTask (.new "late" 1000) 8), (13, .completeTask 1 [])]

theorem contradicting_execution_rolls_back :
    (additions 101 1 contradictingCalls runningCopy).map Task.id = [7] ∧
      ∃ job', applyExecutorOutcomeAt 101 1 (.completed []) 14 15
          (serveAll 101 1 contradictingCalls runningCopy) = (.ok .failed, job') ∧
        job'.task? 7 = none ∧ job'.task? 2 = runningCopy.task? 2 := by
  have hadditions : (additions 101 1 contradictingCalls runningCopy).map Task.id = [7] := by
    decide
  refine ⟨hadditions, ?_⟩
  have hcalls : ExecutionCalls runningCopy 1 contradictingCalls := by
    refine ⟨by simp [contradictingCalls, HandleCall.Own], ?_, by decide⟩
    intro id hid
    have hids : ∀ id ∈ contradictingCalls.flatMap (·.2.minted), ∀ t ∈ runningCopy.tasks,
        t.id ≠ id ∧ id ∉ t.dependsOn := by decide
    exact Job.lacks_of_tasks (hids id hid)
  obtain ⟨t₀, hheld, hstarted, howner⟩ : ∃ t₀, runningCopy.task? 1 = some t₀ ∧
      t₀.status = .started ∧ t₀.processingByWorker = some 101 := ⟨_, rfl, rfl, rfl⟩
  have hall : AllOrNothing runningCopy 101 1 t₀ :=
    (execution_all_or_nothing hheld hstarted howner).1.mpr (noneCreatedBy_intoJob _ _ _ _ _ 1)
  obtain ⟨r, t, job', hends⟩ := hall contradictingCalls hcalls (.completed []) 14 15
  have hr : r = .failed := by
    have hresult : (applyExecutorOutcomeAt 101 1 (.completed []) 14 15
      (serveAll 101 1 contradictingCalls runningCopy)).1 = .ok .failed := rfl
    rw [hends.applied] at hresult
    cases hresult
    rfl
  subst hr
  obtain ⟨y, hy, hid⟩ : ∃ y ∈ additions 101 1 contradictingCalls runningCopy, y.id = 7 := by
    rw [← List.mem_map, hadditions]
    exact List.mem_singleton_self 7
  refine ⟨job', hends.applied, ?_, hends.held 2 _ (by decide) rfl⟩
  rw [← hid]
  exact hends.dropped rfl y hy

end JobManager
