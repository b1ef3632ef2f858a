import JobManager.Core.Acceptance
import JobManager.Core.Refusal
import JobManager.Storage.State

/-!
# What a save preserves

A save keeps every field of a job and of its tasks except the execution that created a
task, with one exception: the two durations of a task are stored in whole milliseconds,
while they are validated in nanoseconds.  So what is preserved depends on the
definitions, and the definitions a job is built from are followed here through every
operation, every merge and every load.

Main results:

- Theorem {lit}`Task.persisted_eq_iff`: which tasks storage keeps as they are.
- Theorem {lit}`Reached.boundsHold`: no operation makes up a duration.
- Theorem {lit}`saved_jobs_preserved`: jobs built from definitions in whole milliseconds
  are preserved by a save, and no others are.
-/

namespace JobManager

/-! ## Durations of the tasks of a job -/

/-- Every task has a time-out and a lifetime that {lit}`P` allows. -/
def BoundsHold (P : Nat → Nat → Prop) (m : TaskMap) : Prop :=
  ∀ id t, m.get id = some t → P t.timeout t.maxLifetime

/-- The durations a task made from the definition has. -/
def TaskDefinition.Grants (P : Nat → Nat → Prop) (d : TaskDefinition) : Prop :=
  P ((durationFromStd d.timeout).getD 0) ((durationFromStd d.maxLifetime).getD 0)

section Bounds

variable {P : Nat → Nat → Prop} {m m' : TaskMap}

/-- A task within its bounds may join. -/
theorem BoundsHold.insert (h : BoundsHold P m) {t : Task} (ht : P t.timeout t.maxLifetime) :
    BoundsHold P (m.insert t) := by
  intro id t' ht'
  rcases get_insert_cases m t id with ⟨-, hget⟩ | ⟨-, hget⟩
  · cases hget.symm.trans ht'
    exact ht
  · exact h id t' (hget.symm.trans ht')

/-- And any may leave. -/
theorem BoundsHold.filter (h : BoundsHold P m) (p : Task → Bool) :
    BoundsHold P (m.filter p) := by
  intro id t ht
  rw [KeyedMap.get_filter, Option.filter_eq_some_iff] at ht
  exact h id t ht.1

/-- A start assigns moments, never durations. -/
theorem Task.start_bounds {t t' : Task} {w : Uuid} {now : Nat} (h : t.start w now = .ok t') :
    t'.timeout = t.timeout ∧ t'.maxLifetime = t.maxLifetime := by
  obtain ⟨-, _, _, -, -, rfl⟩ := Task.start_eq_ok h
  exact ⟨rfl, rfl⟩

theorem TaskMove.bounds {w : Uuid} {now : Nat} {t t' : Task} {touch : Touch}
    (h : TaskMove w now t touch t') : t'.timeout = t.timeout ∧ t'.maxLifetime = t.maxLifetime := by
  cases h with
  | start hstart => exact Task.start_bounds hstart
  | _ => exact ⟨rfl, rfl⟩

/-- What a state implies on its own never touches a duration. -/
theorem BoundsHold.derivedRun {κ : Clocks} {w : Uuid} {lo hi : Nat} (h : BoundsHold P m)
    (hrun : DerivedRun κ w lo hi m m') : BoundsHold P m' := by
  refine TimedRun.preserves_untimed ?_ hrun h
  rintro now m m' ⟨touch, rfl, hstep⟩ h id t ht
  cases hbefore : m.get id with
  | none =>
      rcases hstep.get_none hbefore with hnone | ⟨_, _, _, hadded, -⟩
      · cases ht.symm.trans hnone
      · cases hadded
  | some t₀ =>
      rcases hstep.get_some hbefore with hkept | ⟨t', hmove, hget⟩ | ⟨_, hresolved, -⟩
      · cases ht.symm.trans hkept
        exact h id t hbefore
      · cases ht.symm.trans hget
        rw [hmove.bounds.1, hmove.bounds.2]
        exact h id t₀ hbefore
      · cases hresolved

/-- A combined state takes every entry from one of the two it combines. -/
theorem BoundsHold.carryTasks {job workerJob : Job} (w : Uuid) (h : BoundsHold P job.tasksById)
    (hworker : BoundsHold P workerJob.tasksById) :
    BoundsHold P (job.carryTasks workerJob w).tasksById := by
  intro id t ht
  have hget := Job.get_carryTasks job workerJob w id
  rw [Job.task?, ht] at hget
  cases hfrom : workerJob.task? id with
  | none =>
      rw [hfrom] at hget
      exact h id t hget.symm
  | some t' =>
      rw [hfrom] at hget
      dsimp only at hget
      split at hget
      · cases hget
        exact hworker id t hfrom
      · exact h id t hget.symm

/-- A planned iteration has the durations of the definitions it was planned from. -/
theorem Job.Planned.boundsHold {jobDef : JobDefinition} {w : Uuid} {ids : List Uuid} {job : Job}
    (h : job.Planned jobDef w ids) (hgrants : ∀ d ∈ jobDef.initialTasks, d.Grants P) :
    BoundsHold P job.tasksById := by
  intro id t ht
  obtain ⟨p, taskDef, resolved, -, htaskDef, -, heq⟩ := h.planned id t ht
  rw [heq]
  exact hgrants taskDef (List.mem_of_getElem? htaskDef)

end Bounds

/-! ## Jobs built by the operations -/

namespace Job.Mutator

/-- The definitions a call brings into the job. -/
def taskDefs : Mutator → List TaskDefinition
  | .addTask taskDef _ _ _ => [taskDef]
  | .nextIteration jobDef _ _ _ _ => jobDef.initialTasks
  | _ => []

/-- The description a call plans an iteration from. -/
def jobDef? : Mutator → Option JobDefinition
  | .nextIteration jobDef _ _ _ _ => some jobDef
  | _ => none

/-- The copy of the job a call merges. -/
def workerJob? : Mutator → Option Job
  | .mergeWithPickedTask workerJob _ _ _ _ => some workerJob
  | .mergeWithProcessedTask workerJob _ _ _ => some workerJob
  | _ => none

variable {P : Nat → Nat → Prop} {job : Job}

/-- A merged result holds durations of the two states it merges. -/
theorem boundsHold_mergeWithProcessedTask {workerJob job' : Job} {w taskId : Uuid} {now : Nat}
    {r : Except JobError Unit}
    (h : Job.mergeWithProcessedTask workerJob w taskId now job = (r, job'))
    (hgoes : r = .ok () ∨ ∃ jobCode tasks, r = .error (.iterationDeadlock jobCode tasks))
    (hjob : BoundsHold P job.tasksById) (hworker : BoundsHold P workerJob.tasksById) :
    BoundsHold P job'.tasksById := by
  obtain ⟨-, -, base, hbase, -, -, hsettled, -⟩ := mergeWithProcessedTask_end h hgoes
  refine BoundsHold.derivedRun ?_ hsettled.run
  rw [hbase]
  exact hjob.carryTasks w hworker

/-- An accepted call leaves durations of the job it was made on, of the definitions it
brings in and of the copy it merges. -/
theorem boundsHold_of_ok (mutator : Mutator) {job' : Job}
    (h : mutator.call job = (.ok (), job')) (hjob : BoundsHold P job.tasksById)
    (hgrants : ∀ d ∈ mutator.taskDefs, ∀ limits, d.validate limits = .ok () → d.Grants P)
    (haccepted : ∀ jobDef, mutator.jobDef? = some jobDef → jobDef.Accepted)
    (hworker : ∀ other, mutator.workerJob? = some other → BoundsHold P other.tasksById) :
    BoundsHold P job'.tasksById := by
  have hrollback : ∀ {job : Job} {taskId : Uuid}, BoundsHold P job.tasksById →
      BoundsHold P (job.rollback taskId).tasksById := fun h => h.filter _
  cases mutator with
  | addTask taskDef workerId createdByTask taskId =>
      obtain ⟨_, _, hadd, hrest⟩ := Mutation.bind_eq_ok.mp h
      cases hrest
      obtain ⟨-, -, hvalid, resolved, -, rfl⟩ := addTask_eq_ok hadd
      exact hjob.insert (hgrants taskDef (by simp [taskDefs]) _ hvalid)
  | startTask taskId workerId now =>
      obtain ⟨t, t', ht, hstart, rfl⟩ := startTask_eq_ok.mp h
      refine hjob.insert ?_
      rw [(Task.start_bounds hstart).1, (Task.start_bounds hstart).2]
      exact hjob taskId t ht
  | completeTask taskId output workerId now =>
      obtain ⟨-, t, ht, -, -, -, rfl⟩ := completeTask_eq_ok h
      exact hjob.insert (hjob taskId t ht)
  | failTask taskId errorMsg retry workerId now =>
      obtain ⟨_, _, hfail, hrest⟩ := Mutation.bind_eq_ok.mp h
      cases hrest
      obtain ⟨t, ht, -, -, rfl⟩ := failTask_eq_ok hfail
      exact hrollback (hjob.insert (hjob taskId t ht))
  | skipTaskByExecutor taskId reason workerId now =>
      obtain ⟨t, ht, -, -, rfl⟩ := skipTaskByExecutor_eq_ok h
      exact hjob.insert (hjob taskId t ht)
  | recordTaskExecutionFailure taskId errorMsg retry workerId now =>
      obtain ⟨_, _, hrecord, hrest⟩ := Mutation.bind_eq_ok.mp h
      cases hrest
      rw [Job.recordTaskExecutionFailure, Mutation.current_bind_apply,
        Mutation.ofExcept_bind_eq_ok] at hrecord
      obtain ⟨task, -, hrecord⟩ := hrecord
      split at hrecord
      · cases hrecord
        exact hjob
      · obtain ⟨t, ht, -, -, rfl⟩ := failTask_eq_ok hrecord
        exact hrollback (hjob.insert (hjob taskId t ht))
  | nextIteration jobDef workerId mintedJobId idsByPosition now =>
      obtain ⟨-, hplanned, -⟩ := nextIteration_eq_ok h
      refine hplanned.boundsHold fun d hd => ?_
      exact hgrants d hd _ ((haccepted jobDef rfl).validate d hd)
  | mergeWithPickedTask workerJob workerId taskId lifetime cascade =>
      obtain ⟨_, workerTask, m, -, -, hworkerTask, -, -, hrun, -, -, rfl⟩ :=
        mergeWithPickedTask_eq_ok (κ := .own) trivial h
      exact (hjob.derivedRun hrun).insert (hworker workerJob rfl taskId workerTask hworkerTask)
  | mergeWithProcessedTask workerJob workerId taskId now =>
      exact boundsHold_mergeWithProcessedTask h (Or.inl rfl) hjob (hworker workerJob rfl)

/-- Nor does a refused call make up a duration. -/
theorem boundsHold_call (mutator : Mutator) (hjob : BoundsHold P job.tasksById)
    (hgrants : ∀ d ∈ mutator.taskDefs, ∀ limits, d.validate limits = .ok () → d.Grants P)
    (haccepted : ∀ jobDef, mutator.jobDef? = some jobDef → jobDef.Accepted)
    (hworker : ∀ other, mutator.workerJob? = some other → BoundsHold P other.tasksById) :
    BoundsHold P (mutator.call job).2.tasksById := by
  rcases hcall : mutator.call job with ⟨r, job'⟩
  cases r with
  | ok u => exact mutator.boundsHold_of_ok hcall hjob hgrants haccepted hworker
  | error e =>
      rcases mutator.call_refused hcall with rfl | hdeadlock
      · exact hjob
      · -- the one refusal that leaves something is a merge's deadlock
        cases mutator with
        | mergeWithProcessedTask workerJob workerId taskId now =>
            cases e with
            | iterationDeadlock jobCode tasks =>
                exact boundsHold_mergeWithProcessedTask hcall (Or.inr ⟨jobCode, tasks, rfl⟩) hjob
                  (hworker workerJob rfl)
            | _ => cases hdeadlock
        | _ => cases hdeadlock

end Job.Mutator

/-- The jobs there can be: planned from an accepted description, changed by any operation,
refused or not, merged with one another, and loaded from what was stored, where every
definition that enters is one {lit}`admits` allows. -/
inductive Reached (admits : TaskDefinition → Prop) : Job → Prop
  | created {jobDef : JobDefinition} {metadata : Metadata} {w jobId : Uuid} {ids : List Uuid}
      {now : Nat} {job : Job} :
      jobDef.Accepted → (∀ d ∈ jobDef.initialTasks, admits d) →
      Job.new jobDef metadata w jobId ids now = .ok job → Reached admits job
  | called {job : Job} (mutator : Job.Mutator) :
      Reached admits job → (∀ d ∈ mutator.taskDefs, admits d) →
      (∀ jobDef, mutator.jobDef? = some jobDef → jobDef.Accepted) →
      (∀ other, mutator.workerJob? = some other → Reached admits other) →
      Reached admits (mutator.call job).2
  | picked {job : Job} (w : Uuid) (moments : Job.PickMoments) :
      Reached admits job → Reached admits (Job.pickTaskToExecute w moments job).2
  | settled {job : Job} (w : Uuid) (now : Nat) :
      Reached admits job → Reached admits (Job.trySettleIteration w now job).2
  | inWork {job : Job} (w : Uuid) (now : Nat) :
      Reached admits job → Reached admits (Job.startWork w now job).2
  | scheduled {job : Job} (nextStartAt : Nat) :
      Reached admits job → Reached admits (Job.setNextStartAt nextStartAt job).2
  | versioned {job : Job} (version : String) :
      Reached admits job → Reached admits (job.updateVersion version)
  | loaded {job : Job} (maxIterations iterationInterval : Option Nat) (taskLimits : TaskLimits)
      (version : String) : Reached admits job →
      Reached admits ((StoredJob.fromJob job).intoJob maxIterations iterationInterval taskLimits
        version)

section Reached

variable {P : Nat → Nat → Prop}

/-- A pick-up keeps the bounds. -/
theorem BoundsHold.pickTaskToExecute {job : Job} (h : BoundsHold P job.tasksById) (w : Uuid)
    (moments : Job.PickMoments) :
    BoundsHold P (Job.pickTaskToExecute w moments job).2.tasksById := by
  have hend := Job.pickTaskToExecute_end (κ := .own) w ⟨trivial, trivial, trivial, trivial, trivial⟩
    (p := moments) job
  generalize Job.pickTaskToExecute w moments job = result at hend
  cases hend with
  | refused _ => exact h
  | ready _ hrun _ _ _ => exact h.derivedRun hrun
  | waiting _ hrun _ _ _ => exact h.derivedRun hrun
  | settled _ hrun _ _ _ => exact h.derivedRun hrun
  | deadlock _ hsettle =>
      obtain ⟨m₁, hrun, hsettle⟩ := hsettle
      have hfrom := Job.settledFrom_of_trySettleIteration hsettle
      exact (h.derivedRun hrun).derivedRun hfrom.run

/-- A save keeps the durations the unit of storage allows. -/
theorem BoundsHold.persisted {job : Job} (h : BoundsHold P job.tasksById)
    (hsaved : ∀ a b, P a b →
      P (milliseconds (numMilliseconds a)) (milliseconds (numMilliseconds b))) :
    BoundsHold P (StoredJob.fromJob job).taskMap := by
  intro id t ht
  rw [get_taskMap_fromJob, Option.map_eq_some_iff] at ht
  obtain ⟨t₀, ht₀, rfl⟩ := ht
  exact hsaved _ _ (h id t₀ ht₀)

/-- The durations of every task there can be are those of a definition that entered, up to
the unit of storage. -/
theorem Reached.boundsHold {admits : TaskDefinition → Prop}
    (hgrants : ∀ d limits, admits d → d.validate limits = .ok () → d.Grants P)
    (hsaved : ∀ a b, P a b →
      P (milliseconds (numMilliseconds a)) (milliseconds (numMilliseconds b)))
    {job : Job} (h : Reached admits job) : BoundsHold P job.tasksById := by
  induction h with
  | created haccepted hadmits hnew =>
      refine (Job.new_eq_ok hnew).1.boundsHold fun d hd => ?_
      exact hgrants d _ (hadmits d hd) (haccepted.validate d hd)
  | called mutator _ hadmits haccepted _ ih ihworker =>
      exact mutator.boundsHold_call ih (fun d hd limits => hgrants d limits (hadmits d hd))
        haccepted ihworker
  | picked w moments _ ih => exact ih.pickTaskToExecute w moments
  | settled w now _ ih =>
      exact ih.derivedRun (Job.settledFrom_of_trySettleIteration rfl).run
  | @inWork job w now _ ih =>
      have htasks : (Job.startWork w now job).2.tasksById = job.tasksById := by
        rw [Job.startWork, Mutation.current_bind_apply, Mutation.bind_apply,
          Mutation.ofExcept_apply]
        cases job.status.transitionTo .running <;> rfl
      rw [htasks]
      exact ih
  | scheduled nextStartAt _ ih => exact ih
  | versioned version _ ih => exact ih
  | loaded maxIterations iterationInterval taskLimits version _ ih => exact ih.persisted hsaved

end Reached

/-! ## What a save preserves -/

/-- Only whole milliseconds survive being stored. -/
theorem milliseconds_numMilliseconds {d : Nat} :
    milliseconds (numMilliseconds d) = d ↔ 1000000 ∣ d := by
  unfold milliseconds numMilliseconds
  constructor
  · intro h
    exact Dvd.intro_left _ h
  · exact Nat.div_mul_cancel

/-- A task whose durations are whole milliseconds. -/
def Task.WholeMilliseconds (t : Task) : Prop := 1000000 ∣ t.timeout ∧ 1000000 ∣ t.maxLifetime

/-- A definition whose durations are whole milliseconds. -/
def TaskDefinition.WholeMilliseconds (d : TaskDefinition) : Prop :=
  1000000 ∣ d.timeout ∧ 1000000 ∣ d.maxLifetime

/-- Storage keeps a task, the execution that created it apart, exactly when its durations
are whole milliseconds. -/
theorem Task.persisted_eq_iff {t : Task} :
    t.persisted = { t with createdByTask := none } ↔ t.WholeMilliseconds := by
  rw [WholeMilliseconds, ← milliseconds_numMilliseconds, ← milliseconds_numMilliseconds]
  constructor
  · intro h
    exact ⟨congrArg Task.timeout h, congrArg Task.maxLifetime h⟩
  · rintro ⟨htimeout, hlifetime⟩
    unfold persisted StoredTask.intoTask StoredTask.fromTask
    rw [htimeout, hlifetime]

/-- A save that loses nothing but the executions that created the tasks. -/
structure SavePreserves (job : Job) : Prop where
  fields : { copyPersistedState job with tasksById := job.tasksById } = job
  tasks : ∀ id, (copyPersistedState job).task? id =
    (job.task? id).map fun t => { t with createdByTask := none }

/-- A save preserves a job exactly when all of its durations are whole milliseconds. -/
theorem savePreserves_iff {job : Job} :
    SavePreserves job ↔ ∀ id t, job.task? id = some t → t.WholeMilliseconds := by
  have htask : ∀ id, (copyPersistedState job).task? id = (job.task? id).map Task.persisted :=
    fun id => get_taskMap_fromJob job id
  constructor
  · intro h id t ht
    have hsame := h.tasks id
    rw [htask, ht, Option.map_some, Option.map_some, Option.some.injEq] at hsame
    exact Task.persisted_eq_iff.mp hsame
  · intro h
    refine ⟨?_, ?_⟩
    · have hmetadata : (if job.metadata.isEmpty then none else some job.metadata).getD [] =
          job.metadata := by
        cases job.metadata <;> rfl
      unfold copyPersistedState StoredJob.fromJob StoredJob.intoJob
      rw [hmetadata]
    · intro id
      rw [htask]
      cases ht : job.task? id with
      | none => rfl
      | some t => rw [Option.map_some, Option.map_some, Task.persisted_eq_iff.mpr (h id t ht)]

/-- Durations a save keeps: whole milliseconds, positive, the lifetime no shorter than the
time-out. -/
def SoundDurations (timeout maxLifetime : Nat) : Prop :=
  (1000000 ∣ timeout ∧ 1000000 ∣ maxLifetime) ∧ 0 < timeout ∧ timeout ≤ maxLifetime

theorem TaskDefinition.grants_soundDurations {d : TaskDefinition} {limits : TaskLimits}
    (hwhole : d.WholeMilliseconds) (hvalid : d.validate limits = .ok ()) :
    d.Grants SoundDurations := by
  obtain ⟨hpositive, hle, hmax, -⟩ := TaskDefinition.validate_eq_ok.mp hvalid
  unfold TaskDefinition.Grants durationFromStd
  rw [if_pos (hle.trans hmax), if_pos hmax]
  exact ⟨hwhole, hpositive, hle⟩

theorem SoundDurations.persisted {a b : Nat} (h : SoundDurations a b) :
    SoundDurations (milliseconds (numMilliseconds a)) (milliseconds (numMilliseconds b)) := by
  rw [milliseconds_numMilliseconds.mpr h.1.1, milliseconds_numMilliseconds.mpr h.1.2]
  exact h

/-- Built from definitions in whole milliseconds, every job there can be is preserved by a
save, and its time-outs and lifetimes come back positive and in order; and whatever a job
was built from, it is preserved exactly when its own durations are whole milliseconds. -/
theorem saved_jobs_preserved (job : Job) :
    (Reached TaskDefinition.WholeMilliseconds job → SavePreserves job ∧
      ∀ id t, (copyPersistedState job).task? id = some t →
        0 < t.timeout ∧ 0 < t.maxLifetime ∧ t.timeout ≤ t.maxLifetime) ∧
    (SavePreserves job ↔ ∀ id t, job.task? id = some t → t.WholeMilliseconds) := by
  refine ⟨?_, savePreserves_iff⟩
  intro h
  have hbounds : BoundsHold SoundDurations job.tasksById :=
    h.boundsHold (fun d limits => TaskDefinition.grants_soundDurations)
      (fun a b => SoundDurations.persisted)
  refine ⟨savePreserves_iff.mpr fun id t ht => (hbounds id t ht).1, ?_⟩
  intro id t ht
  have hsound := hbounds.persisted (fun a b => SoundDurations.persisted) id t ht
  exact ⟨hsound.2.1, hsound.2.1.trans_le hsound.2.2, hsound.2.2⟩

/-- One task with the given time-out and a lifetime five times as long. -/
def oneTaskDefinition (timeout : Nat) : JobDefinition where
  code := "job"
  initialTasks := [.new "task" timeout]
  taskExecutors := [("task", 1)]
  maxIterations := none
  iterationInterval := none
  taskLimits := .default
  iterationRetention := defaultIterationRetention

/-- The first iteration of that job, its task stored under the identifier 11. -/
def oneTaskJob (timeout : Nat) : Job where
  id := 900
  code := "job"
  iterNum := 1
  status := .started
  tasksById := KeyedMap.empty.insert (Task.new 11 101 none (.new "task" timeout) [])
  updatedByWorkerId := 101
  startedAt := 0
  runningAt := none
  completedAt := none
  nextStartAt := none
  metadata := []
  version := ""
  maxIterations := none
  iterationInterval := none
  taskLimits := .default

theorem oneTaskDefinition_accepted :
    (oneTaskDefinition 5000000000).Accepted ∧ (oneTaskDefinition 500000).Accepted :=
  ⟨.new (show JobDefinition.new 7 "job" [(.new "task" 5000000000, 1)] [] [] .default =
      .ok (oneTaskDefinition 5000000000) from rfl),
    .new (show JobDefinition.new 7 "job" [(.new "task" 500000, 1)] [] [] .default =
      .ok (oneTaskDefinition 500000) from rfl)⟩

theorem oneTaskJob_reached {admits : TaskDefinition → Prop} {timeout : Nat}
    (haccepted : (oneTaskDefinition timeout).Accepted) (hadmits : admits (.new "task" timeout)) :
    Reached admits (oneTaskJob timeout) := by
  refine .created haccepted ?_ (show Job.new (oneTaskDefinition timeout) [] 101 900 [11] 0 =
    .ok (oneTaskJob timeout) from rfl)
  intro d hd
  rw [List.mem_singleton.mp hd]
  exact hadmits

/-- A task of five seconds, started and then saved. -/
theorem wholeSeconds_preserved :
    SavePreserves (Job.Mutator.call (.startTask 11 101 7) (oneTaskJob 5000000000)).2 ∧
      ∃ t, (copyPersistedState
          (Job.Mutator.call (.startTask 11 101 7) (oneTaskJob 5000000000)).2).task? 11 = some t ∧
        t.timeout = 5000000000 ∧ t.status = .started := by
  have hreached : Reached TaskDefinition.WholeMilliseconds (oneTaskJob 5000000000) :=
    oneTaskJob_reached oneTaskDefinition_accepted.1 ⟨by decide, by decide⟩
  refine ⟨((saved_jobs_preserved _).1 (hreached.called (.startTask 11 101 7) ?_ ?_ ?_)).1,
    _, rfl, rfl, rfl⟩
  · simp [Job.Mutator.taskDefs]
  · simp [Job.Mutator.jobDef?]
  · simp [Job.Mutator.workerJob?]

/-- A time-out of half a millisecond is accepted and comes back from a save as zero. -/
theorem halfMillisecond_lost :
    (oneTaskDefinition 500000).Accepted ∧ Reached (fun _ => True) (oneTaskJob 500000) ∧
      (∃ t, (oneTaskJob 500000).task? 11 = some t ∧ t.timeout = 500000) ∧
      (∃ t, (copyPersistedState (oneTaskJob 500000)).task? 11 = some t ∧ t.timeout = 0) ∧
      ¬ SavePreserves (oneTaskJob 500000) := by
  refine ⟨oneTaskDefinition_accepted.2, oneTaskJob_reached oneTaskDefinition_accepted.2 trivial,
    ⟨_, rfl, rfl⟩, ⟨_, rfl, rfl⟩, ?_⟩
  intro h
  have hwhole := savePreserves_iff.mp h 11 _ rfl
  have hnot : ¬ 1000000 ∣ 500000 := by decide
  exact hnot hwhole.1

end JobManager
