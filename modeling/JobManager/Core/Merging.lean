import JobManager.Core.Merge
import JobManager.Core.Settlement

/-!
# What the merges and the planning leave

The two merges and the planning of an iteration read as statements about the task
map they leave, entry by entry.

Main results:

- Theorem {lit}`get_carryTasks`: which entries a merge takes from the worker's copy.
- Theorem {lit}`mergeWithPickedTask_eq_ok`: a merged start is the stored state, what
  it implies, and the task the worker started.
- Theorem {lit}`mergeWithProcessedTask_end`: a merged result is the stored state with
  the worker's entries carried over, and what the two imply together.
- Theorem {lit}`new_eq_ok`: the tasks of a planned iteration.
-/

namespace JobManager

variable {κ : Clocks}

/-- The part of a job no operation on its tasks assigns. -/
structure Frame (job job' : Job) : Prop where
  id : job'.id = job.id
  code : job'.code = job.code
  iterNum : job'.iterNum = job.iterNum
  version : job'.version = job.version
  startedAt : job'.startedAt = job.startedAt
  maxIterations : job'.maxIterations = job.maxIterations
  iterationInterval : job'.iterationInterval = job.iterationInterval
  taskLimits : job'.taskLimits = job.taskLimits

theorem Frame.refl (job : Job) : Frame job job := ⟨rfl, rfl, rfl, rfl, rfl, rfl, rfl, rfl⟩

theorem Frame.trans {job job' job'' : Job} (h : Frame job job') (h' : Frame job' job'') :
    Frame job job'' :=
  ⟨h'.id.trans h.id, h'.code.trans h.code, h'.iterNum.trans h.iterNum,
    h'.version.trans h.version, h'.startedAt.trans h.startedAt,
    h'.maxIterations.trans h.maxIterations,
    h'.iterationInterval.trans h.iterationInterval, h'.taskLimits.trans h.taskLimits⟩

namespace Job

/-! ## Carrying entries over -/

/-- Whether the merge takes the worker's copy of a task. -/
def isCarried (stored : TaskMap) (w : Uuid) (t : Task) : Bool :=
  isCreatedNow stored w t || isProcessedNow w t

/-- Each entry of the worker's copy is carried on its own merits. -/
theorem get_foldl_carryTask (w : Uuid) :
    ∀ (ts : List Task) (stored : TaskMap), (ts.map Task.id).Nodup →
      (∀ t ∈ ts, (ts.foldl (carryTask w) stored).get t.id =
        if isCarried stored w t then some t else stored.get t.id) ∧
      ∀ id, id ∉ ts.map Task.id → (ts.foldl (carryTask w) stored).get id = stored.get id := by
  intro ts
  induction ts with
  | nil => simp
  | cons t ts ih =>
      intro stored hnodup
      rw [List.map_cons, List.nodup_cons] at hnodup
      obtain ⟨ihmem, ihother⟩ := ih (carryTask w stored t) hnodup.2
      have hself : (carryTask w stored t).get t.id =
          if isCarried stored w t then some t else stored.get t.id := by
        unfold carryTask isCarried
        split
        · exact KeyedMap.get_insert_self stored t
        · rfl
      have hother : ∀ id, t.id ≠ id → (carryTask w stored t).get id = stored.get id := by
        intro id hne
        unfold carryTask
        split
        · exact KeyedMap.get_insert_of_ne stored hne
        · rfl
      constructor
      · intro u hu
        rw [List.foldl_cons]
        rcases List.mem_cons.mp hu with rfl | hu
        · rw [ihother u.id hnodup.1, hself]
        · have hne : t.id ≠ u.id := by
            intro heq
            exact hnodup.1 (heq ▸ List.mem_map_of_mem hu)
          rw [ihmem u hu, hother u.id hne]
          unfold isCarried isCreatedNow
          rw [hother u.id hne]
      · intro id hid
        rw [List.map_cons, List.mem_cons, not_or] at hid
        rw [List.foldl_cons, ihother id hid.2, hother id (fun h => hid.1 h.symm)]

/-- The combined state before anything is derived from it: the worker's entry where
the filter lets it through, the stored entry everywhere else. -/
theorem get_carryTasks (job workerJob : Job) (w id : Uuid) :
    (job.carryTasks workerJob w).task? id =
      match workerJob.task? id with
      | some t => if isCarried job.tasksById w t then some t else job.task? id
      | none => job.task? id := by
  obtain ⟨hmem, hother⟩ := get_foldl_carryTask w workerJob.tasks job.tasksById
    workerJob.tasksById.nodup
  cases ht : workerJob.task? id with
  | some t =>
      have hid := id_of_task? ht
      subst hid
      exact hmem t (mem_tasks_of_task? ht)
  | none =>
      refine hother id ?_
      intro hid
      obtain ⟨t, ht', rfl⟩ := List.mem_map.mp hid
      rw [mem_tasks_iff.mp ht'] at ht
      cases ht

/-! ## Merging a start -/

/-- An accepted merge of a start: the stored iteration is open to the worker, and what
it leaves is the stored state, what that implies, and the worker's task. -/
theorem mergeWithPickedTask_eq_ok {workerJob job job' : Job} {w taskId : Uuid}
    {lifetime cascade : Nat} {u : Unit} (hle : κ.Before lifetime cascade)
    (h : mergeWithPickedTask workerJob w taskId lifetime cascade job = (.ok u, job')) :
    ∃ stored workerTask m, job.task? taskId = some stored ∧
      (stored.processingByWorker = none ∨ stored.processingByWorker = some w) ∧
      workerJob.task? taskId = some workerTask ∧ workerTask.status = .started ∧
      job.status.allows workerJob.status = true ∧
      DerivedRun κ w lifetime cascade job.tasksById m ∧
      (∃ m₁, Outlived lifetime job.tasksById m₁ ∧
        Relation.ReflTransGen (Generation cascade) m₁ m) ∧
      (∀ id t, m.get id = some t → t.status = .blocked →
        ∀ cause, ¬ UnreachableFor m t cascade cause) ∧
      job' = { job with
        status := workerJob.status
        tasksById := m.insert workerTask
        updatedByWorkerId := w
        runningAt := job.runningAt.or workerJob.runningAt } := by
  unfold mergeWithPickedTask at h
  rw [Mutation.current_bind_apply] at h
  split at h
  · cases h
  · rw [Mutation.ofExcept_bind_eq_ok] at h
    obtain ⟨_, hstolen, h⟩ := h
    rw [Mutation.ofExcept_bind_eq_ok] at h
    obtain ⟨workerTask, hworker, h⟩ := h
    split at h <;> rename_i hstarted
    · cases h
    · obtain ⟨stored, hstored, howner⟩ := checkTaskStolen_eq_ok.mp hstolen
      cases htransition : job.status.transitionTo workerJob.status with
      | error e =>
          rw [htransition] at h
          cases h
      | ok status =>
          rw [htransition] at h
          obtain ⟨hallows, rfl⟩ := JobStatus.transitionTo_eq_ok.mp htransition
          dsimp only at h
          rw [Mutation.write_bind_apply] at h
          obtain ⟨m₁, hfail, hrun₁, houtlived⟩ := failTasksByLifetime_spec w lifetime
            { job with status := workerJob.status }
          rw [Mutation.bind_apply, hfail] at h
          dsimp only at h
          obtain ⟨n, m, hskip, hrun₂, hgens, hreachable⟩ := skipUnreachableTasks_spec w cascade
            (Job.withTasks { job with status := workerJob.status } m₁)
          rw [Mutation.bind_apply, hskip] at h
          cases h
          exact ⟨stored, workerTask, m, hstored, howner, findTask_eq_ok.mp hworker,
            by simpa [Task.isStarted] using hstarted, hallows,
            (hrun₁.relax.spread (refl_of κ.Before _) hle).trans hrun₂.relax,
            ⟨m₁, houtlived, hgens⟩, hreachable, rfl⟩

/-! ## Merging a result -/

/-- What a settlement keeps and how it leaves the iteration: as it stood, or closed with
nothing left to do. -/
structure SettledFrom (job : Job) (w : Uuid) (now : Nat) (job' : Job) : Prop where
  run : DerivedRun .shared w now now job.tasksById job'.tasksById
  frame : Frame job job'
  state : (job'.status = job.status ∧ job'.completedAt = job.completedAt) ∨
    (job'.isProcessed = true ∧ job'.completedAt = some now ∧ job'.isMoving now = false ∧
      job'.allTasksResolved = true)

/-- Settling, refused or not, leaves the iteration as it stood or closes it with nothing
left to do. -/
theorem settledFrom_of_trySettleIteration {w : Uuid} {now : Nat} {job job' : Job}
    {r : Except JobError Bool} (h : trySettleIteration w now job = (r, job')) :
    SettledFrom job w now job' := by
  obtain ⟨m, hrun, -, -, hend⟩ := trySettleIteration_end w now job
  rw [h] at hend
  have hframe : Frame job (job.withTasks m) := ⟨rfl, rfl, rfl, rfl, rfl, rfl, rfl, rfl⟩
  cases hend with
  | moving _ => exact ⟨hrun, hframe, Or.inl ⟨rfl, rfl⟩⟩
  | deadlock _ _ => exact ⟨hrun, hframe, Or.inl ⟨rfl, rfl⟩⟩
  | refused _ _ _ _ => exact ⟨hrun, hframe, Or.inl ⟨rfl, rfl⟩⟩
  | closed hmoving hresolved _ =>
      refine ⟨hrun, ⟨rfl, rfl, rfl, rfl, rfl, rfl, rfl, rfl⟩,
        Or.inr ⟨?_, rfl, hmoving, hresolved⟩⟩
      simp only [isProcessed, iterationVerdict]
      cases (job.withTasks m).deriveIterationVerdict now <;> rfl

/-- A merge of a result whose save goes on, accepted or left open by a deadlock: the
stored iteration is open and the worker's to write, and what it leaves is settled from
the combined state. -/
theorem mergeWithProcessedTask_end {workerJob job job' : Job} {w taskId : Uuid} {now : Nat}
    {r : Except JobError Unit}
    (h : mergeWithProcessedTask workerJob w taskId now job = (r, job'))
    (hgoes : r = .ok () ∨ ∃ jobCode tasks, r = .error (.iterationDeadlock jobCode tasks)) :
    job.isProcessed = false ∧
      (∃ stored, job.task? taskId = some stored ∧
        (stored.processingByWorker = none ∨ stored.processingByWorker = some w)) ∧
      ∃ base : Job, base.tasksById = (job.carryTasks workerJob w).tasksById ∧
        Frame job base ∧ base.status = .running ∧ SettledFrom base w now job' ∧
        ∀ jobCode tasks, r = .error (.iterationDeadlock jobCode tasks) →
          trySettleIteration w now base = (.error (.iterationDeadlock jobCode tasks), job') := by
  unfold mergeWithProcessedTask at h
  rw [Mutation.current_bind_apply] at h
  split at h
  · cases h
    rcases hgoes with hr | ⟨_, _, hr⟩ <;> cases hr
  · rw [Mutation.bind_apply, Mutation.ofExcept_apply] at h
    cases hstolen : job.checkTaskStolen taskId w with
    | error e =>
        rw [hstolen] at h
        cases h
        rcases hgoes with hr | ⟨jobCode, tasks, hr⟩
        · cases hr
        · cases hr
          exact absurd hstolen checkTaskStolen_ne_deadlock
    | ok u =>
        rw [hstolen] at h
        dsimp only at h
        split at h <;> rename_i hprocessed
        · cases h
          rcases hgoes with hr | ⟨_, _, hr⟩ <;> cases hr
        · rw [Bool.not_eq_true] at hprocessed
          rw [Mutation.write_bind_apply, Mutation.bind_apply] at h
          have hopen : Job.isProcessed { job.carryTasks workerJob w with
              updatedByWorkerId := w } = false := hprocessed
          obtain ⟨job₁, hensure⟩ := ensureRunning_of_open w now hopen
          obtain ⟨-, -, updatedBy, runningAt, rfl⟩ := ensureRunning_eq_ok hensure
          rw [hensure] at h
          dsimp only at h
          rw [Mutation.write_bind_apply] at h
          obtain ⟨base, ⟨htasks, hframe, hrunning⟩, hsettle⟩ : ∃ base : Job,
              (base.tasksById = (job.carryTasks workerJob w).tasksById ∧ Frame job base ∧
                base.status = .running) ∧
              (trySettleIteration w now >>= fun _ => pure ()) base = (r, job') := by
            refine ⟨_, ?_, h⟩
            exact ⟨rfl, ⟨rfl, rfl, rfl, rfl, rfl, rfl, rfl, rfl⟩, rfl⟩
          refine ⟨hprocessed, checkTaskStolen_eq_ok.mp hstolen, base, htasks, hframe, hrunning,
            ?_⟩
          rcases hresult : trySettleIteration w now base with ⟨r', job₂⟩
          have hfrom := settledFrom_of_trySettleIteration hresult
          rw [Mutation.bind_apply, hresult] at hsettle
          cases r' with
          | ok settled =>
              cases hsettle
              exact ⟨hfrom, fun _ _ hr => by cases hr⟩
          | error e =>
              cases hsettle
              refine ⟨hfrom, fun _ _ hr => ?_⟩
              cases hr
              rfl

/-- A merge of a result onto an open iteration whose task the worker may write leaves what
the combined state implies, whatever comes of settling it, and the worker's moment of the
next iteration where its copy has one. -/
theorem mergeWithProcessedTask_state {workerJob job : Job} {w taskId : Uuid} (now : Nat)
    (hid : job.id = workerJob.id) (hstolen : job.checkTaskStolen taskId w = .ok ())
    (hopen : job.isProcessed = false) :
    Derives now (job.carryTasks workerJob w).tasksById
        (mergeWithProcessedTask workerJob w taskId now job).2.tasksById ∧
      (mergeWithProcessedTask workerJob w taskId now job).2.nextStartAt =
        workerJob.nextStartAt.or job.nextStartAt := by
  have hcarried : Job.isProcessed { job.carryTasks workerJob w with
      updatedByWorkerId := w } = false := hopen
  obtain ⟨job₁, hensure⟩ := ensureRunning_of_open w now hcarried
  obtain ⟨-, -, updatedBy, runningAt, rfl⟩ := ensureRunning_eq_ok hensure
  unfold mergeWithProcessedTask
  rw [Mutation.current_bind_apply, if_neg (by simp [hid]), Mutation.bind_apply,
    Mutation.ofExcept_apply, hstolen]
  dsimp only
  rw [if_neg (by simp [hopen]), Mutation.write_bind_apply, Mutation.bind_apply, hensure]
  dsimp only
  rw [Mutation.write_bind_apply, Mutation.bind_apply]
  generalize hbase : (Job.mk _ _ _ _ _ _ _ _ _ _ _ _ _ _ _ : Job) = base
  obtain ⟨m, -, hderives, -, hend⟩ := trySettleIteration_end w now base
  have htasks : base.tasksById = (job.carryTasks workerJob w).tasksById := by rw [← hbase]
  have hnext : base.nextStartAt = workerJob.nextStartAt.or job.nextStartAt := by
    rw [← hbase]
    rfl
  rw [← htasks, ← hnext]
  generalize hresult : trySettleIteration w now base = result at hend
  cases hend <;> exact ⟨hderives, rfl⟩

/-- A merge of a result that goes on found an open iteration of the same job whose task
the worker may write. -/
theorem mergeWithProcessedTask_goes {workerJob job job' : Job} {w taskId : Uuid} {now : Nat}
    {r : Except JobError Unit}
    (h : mergeWithProcessedTask workerJob w taskId now job = (r, job'))
    (hgoes : r = .ok () ∨ ∃ jobCode tasks, r = .error (.iterationDeadlock jobCode tasks)) :
    job.id = workerJob.id ∧ job.checkTaskStolen taskId w = .ok () ∧ job.isProcessed = false := by
  obtain ⟨hopen, hholds, -⟩ := mergeWithProcessedTask_end h hgoes
  refine ⟨?_, checkTaskStolen_eq_ok.mpr hholds, hopen⟩
  by_contra hne
  rw [mergeWithProcessedTask, Mutation.current_bind_apply, if_pos hne] at h
  cases h
  rcases hgoes with hr | ⟨_, _, hr⟩ <;> cases hr

/-! ## Which merges go through -/

/-- Whether the checks of a merge of a started task let it through. -/
def acceptsStart (saved job : Job) (w taskId : Uuid) : Bool :=
  saved.id = job.id && (saved.checkTaskStolen taskId w).isOk &&
    (job.task? taskId).any Task.isStarted && saved.status.allows job.status

/-- Whether the checks of a merge of a result let it through. -/
def acceptsResult (saved job : Job) (w taskId : Uuid) : Bool :=
  saved.id = job.id && (saved.checkTaskStolen taskId w).isOk && !saved.isProcessed

/-- A start that was merged was accepted. -/
theorem acceptsStart_of_merge {job saved saved' : Job} {w taskId : Uuid}
    {lifetime cascade : Nat} {u : Unit}
    (h : mergeWithPickedTask job w taskId lifetime cascade saved = (.ok u, saved')) :
    saved.acceptsStart job w taskId = true := by
  unfold mergeWithPickedTask at h
  rw [Mutation.current_bind_apply] at h
  split at h <;> rename_i hid
  · cases h
  · rw [Mutation.ofExcept_bind_eq_ok] at h
    obtain ⟨_, hstolen, h⟩ := h
    rw [Mutation.ofExcept_bind_eq_ok] at h
    obtain ⟨workerTask, hworker, h⟩ := h
    split at h <;> rename_i hstarted
    · cases h
    · cases htransition : saved.status.transitionTo job.status with
      | error e =>
          rw [htransition] at h
          cases h
      | ok status =>
          have hallows := (JobStatus.transitionTo_eq_ok.mp htransition).1
          have htask : job.task? taskId = some workerTask := findTask_eq_ok.mp hworker
          simp only [acceptsStart, hstolen, htask, hallows, Option.any_some, Bool.and_eq_true,
            decide_eq_true_eq]
          exact ⟨⟨⟨by simpa using hid, rfl⟩, by simpa using hstarted⟩, trivial⟩

/-- And so was a result. -/
theorem acceptsResult_of_goes {job saved saved' : Job} {w taskId : Uuid} {now : Nat}
    {r : Except JobError Unit}
    (h : mergeWithProcessedTask job w taskId now saved = (r, saved'))
    (hgoes : r = .ok () ∨ ∃ jobCode tasks, r = .error (.iterationDeadlock jobCode tasks)) :
    saved.acceptsResult job w taskId = true := by
  obtain ⟨hid, hstolen, hopen⟩ := mergeWithProcessedTask_goes h hgoes
  simp only [acceptsResult, hid, hstolen, hopen, Bool.and_eq_true, decide_eq_true_eq,
    Bool.not_false, and_true, true_and]
  rfl

/-! ## Planning an iteration -/

/-- A planned task: its identifier and its definition stand at one position, and each
dependency is the identifier at a position the definition names. -/
def PlannedAt (ids : List Uuid) (taskDefs : List TaskDefinition) (w : Uuid) (position : Nat)
    (t : Task) : Prop :=
  ∃ taskDef resolved, ids[position]? = some t.id ∧ taskDefs[position]? = some taskDef ∧
    (∀ d ∈ resolved, ∃ owner q, .initial owner q ∈ taskDef.dependsOn ∧ ids[q]? = some d) ∧
    t = Task.new t.id w none taskDef resolved

/-- The identifier a reference of an initial task resolves to. -/
def resolvedId (ids : List Uuid) : TaskRef → Option Uuid
  | .initial _ q => ids[q]?
  | .created _ => none

theorem resolvedId_eq_some {ids : List Uuid} {r : TaskRef} {d : Uuid} :
    resolvedId ids r = some d ↔ ∃ owner q, r = .initial owner q ∧ ids[q]? = some d := by
  cases r with
  | initial owner q => simp [resolvedId]
  | created id => simp [resolvedId]

/-- The references of a task resolve one by one. -/
theorem resolvePositions_eq_ok {ids : List Uuid} {refs : List TaskRef} {resolved : List Uuid} :
    resolvePositions ids refs = .ok resolved ↔
      refs.map (resolvedId ids) = resolved.map some := by
  rw [resolvePositions, JobManager.mapM_eq_ok, ← List.forall₂_eq_eq_eq,
    List.forall₂_map_left_iff, List.forall₂_map_right_iff]
  constructor
  · refine List.Forall₂.imp fun r d hd => ?_
    split at hd
    · split at hd
      · rename_i hid
        cases hd
        exact hid
      · cases hd
    · cases hd
  · refine List.Forall₂.imp fun r d hd => ?_
    obtain ⟨owner, q, rfl, hq⟩ := resolvedId_eq_some.mp hd
    simp only [hq]

/-- Every identifier of a planned task's dependencies stands at a position it names. -/
theorem mem_of_resolvePositions {ids : List Uuid} {refs : List TaskRef} {resolved : List Uuid}
    (h : resolvePositions ids refs = .ok resolved) :
    ∀ d ∈ resolved, ∃ owner q, .initial owner q ∈ refs ∧ ids[q]? = some d := by
  intro d hd
  have hmem : some d ∈ refs.map (resolvedId ids) := by
    rw [resolvePositions_eq_ok.mp h]
    exact List.mem_map_of_mem hd
  obtain ⟨r, hr, hresolved⟩ := List.mem_map.mp hmem
  obtain ⟨owner, q, rfl, hq⟩ := resolvedId_eq_some.mp hresolved
  exact ⟨owner, q, hr, hq⟩

/-- Every position a planned task names is one of its dependencies. -/
theorem mem_resolved_of_resolvePositions {ids : List Uuid} {refs : List TaskRef}
    {resolved : List Uuid} (h : resolvePositions ids refs = .ok resolved) {owner d : Uuid}
    {q : Nat} (hr : .initial owner q ∈ refs) (hd : ids[q]? = some d) : d ∈ resolved := by
  have hmem : some d ∈ resolved.map some := by
    rw [← resolvePositions_eq_ok.mp h]
    exact List.mem_map.mpr ⟨_, hr, hd⟩
  simpa using hmem

/-- The planned map holds one task for every position planned so far. -/
theorem planTasks_eq_ok (all : List TaskDefinition) {ids : List Uuid} {w : Uuid} :
    ∀ {taskDefs : List TaskDefinition} {position : Nat} {tasks m : TaskMap},
      all.drop position = taskDefs → planTasks ids w position taskDefs tasks = .ok m →
      (∀ id t, m.get id = some t → tasks.get id = some t ∨
        ∃ p, position ≤ p ∧ PlannedAt ids all w p t) ∧
      (∀ id t, tasks.get id = some t → ∃ t', m.get id = some t') ∧
      ∀ p, position ≤ p → p < all.length → ∃ id t, ids[p]? = some id ∧ m.get id = some t := by
  intro taskDefs
  induction taskDefs with
  | nil =>
      intro position tasks m hdrop h
      cases h
      refine ⟨fun id t ht => Or.inl ht, fun id t ht => ⟨t, ht⟩, ?_⟩
      intro p hle hlt
      rw [List.drop_eq_nil_iff] at hdrop
      omega
  | cons taskDef taskDefs ih =>
      intro position tasks m hdrop h
      rw [planTasks, JobManager.bind_eq_ok] at h
      obtain ⟨resolved, hresolved, h⟩ := h
      have hat : all[position]? = some taskDef := by
        rw [← List.head?_drop, hdrop]
        rfl
      have hrest : all.drop (position + 1) = taskDefs := by
        rw [← List.drop_drop, hdrop]
        rfl
      split at h
      · cases h
      · rename_i id hid
        obtain ⟨hback, hforth, hcover⟩ := ih hrest h
        refine ⟨?_, ?_, ?_⟩
        · intro id' t ht
          rcases hback id' t ht with hget | ⟨p, hp, hplanned⟩
          · rcases get_insert_cases tasks (Task.new id w none taskDef resolved) id' with
              ⟨-, hself⟩ | ⟨-, hother⟩
            · right
              rw [hself] at hget
              cases hget
              exact ⟨position, Nat.le_refl _, taskDef, resolved, hid, hat,
                mem_of_resolvePositions hresolved, rfl⟩
            · exact Or.inl (hother ▸ hget)
          · exact Or.inr ⟨p, by omega, hplanned⟩
        · intro id' t ht
          rcases get_insert_cases tasks (Task.new id w none taskDef resolved) id' with
            ⟨-, hself⟩ | ⟨-, hother⟩
          · exact hforth id' _ hself
          · exact hforth id' t (hother.trans ht)
        · intro p hle hlt
          by_cases hp : p = position
          · subst hp
            obtain ⟨t', ht'⟩ := hforth id _ (KeyedMap.get_insert_self tasks
              (Task.new id w none taskDef resolved))
            exact ⟨id, t', hid, ht'⟩
          · exact hcover p (by omega) hlt

/-- A freshly planned iteration: open, unsaved, and holding one planned task for every
position of its description. -/
structure Planned (jobDef : JobDefinition) (w : Uuid) (ids : List Uuid) (job : Job) :
    Prop where
  planned : ∀ id t, job.task? id = some t → ∃ p, PlannedAt ids jobDef.initialTasks w p t
  covers : ∀ p < jobDef.initialTasks.length, ∃ id t, ids[p]? = some id ∧
    job.task? id = some t
  status : job.status = .started
  version : job.version = ""
  maxIterations : job.maxIterations = jobDef.maxIterations
  iterationInterval : job.iterationInterval = jobDef.iterationInterval
  taskLimits : job.taskLimits = jobDef.taskLimits
  code : job.code = jobDef.code

theorem new_eq_ok {jobDef : JobDefinition} {metadata : Metadata} {w jobId : Uuid}
    {ids : List Uuid} {now : Nat} {job : Job}
    (h : new jobDef metadata w jobId ids now = .ok job) :
    job.Planned jobDef w ids ∧ job.iterNum = 1 := by
  rw [new, JobManager.bind_eq_ok] at h
  obtain ⟨m, hplan, h⟩ := h
  cases h
  obtain ⟨hback, -, hcover⟩ := planTasks_eq_ok jobDef.initialTasks rfl hplan
  refine ⟨⟨?_, fun p hp => hcover p (Nat.zero_le _) hp, rfl, rfl, rfl, rfl, rfl, rfl⟩, rfl⟩
  intro id t ht
  rcases hback id t ht with hempty | ⟨p, -, hplanned⟩
  · cases hempty
  · exact ⟨p, hplanned⟩

/-- The next iteration is planned only over a closed one that allows it. -/
theorem nextIteration_eq_ok {jobDef : JobDefinition} {w jobId : Uuid} {ids : List Uuid}
    {now : Nat} {job job' : Job} {u : Unit}
    (h : nextIteration jobDef w jobId ids now job = (.ok u, job')) :
    job.findIterationStatus now = .closed .ready ∧ job'.Planned jobDef w ids ∧
      job'.iterNum = job.iterNum + 1 := by
  rw [nextIteration, Mutation.current_bind_apply] at h
  split at h <;> rename_i hready
  · cases h
  · rw [Mutation.ofExcept_bind_eq_ok] at h
    obtain ⟨_, -, h⟩ := h
    rw [Mutation.ofExcept_bind_eq_ok] at h
    obtain ⟨newJob, hnew, h⟩ := h
    rw [Mutation.write_apply, Prod.mk.injEq] at h
    obtain ⟨-, rfl⟩ := h
    obtain ⟨hplanned, -⟩ := new_eq_ok hnew
    refine ⟨by simpa [isReadyToNextIteration] using hready, ?_, rfl⟩
    exact ⟨hplanned.planned, hplanned.covers, hplanned.status, hplanned.version,
      hplanned.maxIterations, hplanned.iterationInterval, hplanned.taskLimits, hplanned.code⟩

end Job

end JobManager
