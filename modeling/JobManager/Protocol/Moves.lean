import JobManager.Protocol.System

/-!
# What a move of a worker can do

The moves of a worker, each with everything it requires and everything it leaves:
every invariant of the protocol is proved by cases on them, and none of them opens
an operation of the domain again.

Main results:

- Theorem {lit}`workerMove_moves`: a move of the system is one of those listed.
- Theorem {lit}`step_cases`: an action of the system lets time pass, moves one worker,
  or appends one version to the history.
-/

namespace JobManager

variable {κ : Clocks}

/-- A reader of the version may get this copy: what is restored of it, or what was kept of a
write that left it. -/
def History.Serves (h : History) (jobDef : JobDefinition) (e : Entry) (job : Job) : Prop :=
  job = e.load jobDef ∨
    ∃ e' ∈ h, e'.iterNum = e.iterNum ∧ e'.version = e.version ∧ job = e'.kept

/-- A read answers with a copy that is served of the version it finds. -/
theorem History.read_eq_some {h : History} {jobDef : JobDefinition} {n : Nat}
    {kept : Option Nat} {job : Job} (hread : h.read jobDef n kept = some job) :
    ∃ e, h.readable n = some e ∧ h.Serves jobDef e job := by
  rw [History.read, Option.bind_eq_some_iff] at hread
  obtain ⟨e, he, hjob⟩ := hread
  refine ⟨e, he, ?_⟩
  cases kept with
  | none =>
      cases hjob
      exact Or.inl rfl
  | some k =>
      simp only [Option.map_eq_some_iff, Option.filter_eq_some_iff, Bool.and_eq_true,
        decide_eq_true_eq] at hjob
      obtain ⟨e', ⟨hk, hiter, hversion⟩, rfl⟩ := hjob
      have hn : e.iterNum = n := by
        unfold History.readable at he
        rw [Option.filter_eq_some_iff] at he
        simpa using List.find?_some he.1
      exact Or.inr ⟨e', List.mem_of_getElem? hk, hiter.trans hn.symm, hversion, rfl⟩

/-- One move of worker {lit}`w` that writes nothing, at the given clock. -/
inductive Moves (κ : Clocks) (jobDef : JobDefinition) (s : System) (w : Uuid) :
    Phase → WorkerAction → Phase → List Uuid → Prop
  | idle {p : Phase} {action : WorkerAction} : Moves κ jobDef s w p action .idle []
  | missing : s.history = [] → Moves κ jobDef s w .idle .readNothing .missing []
  | read {n : Nat} {kept : Option Nat} {e : Entry} {job : Job} :
      s.history.readable n = some e → s.history.Serves jobDef e job →
      Moves κ jobDef s w .idle (.read n kept) (.loaded job) []
  | create {job : Job} {now : Nat} {jobId : Uuid} {ids : List Uuid} :
      areFresh s.minted ids = true → ids.length = jobDef.initialTasks.length →
      job.Planned jobDef w ids → job.iterNum = 1 →
      Moves κ jobDef s w .missing (.create now jobId ids) (.saving job .create) ids
  | advance {job job' : Job} {now : Nat} {jobId : Uuid} {ids : List Uuid} :
      κ.Before (s.workers w).since now → κ.Before now s.clock →
      areFresh s.minted ids = true → ids.length = jobDef.initialTasks.length →
      job.findIterationStatus now = .closed .ready → job'.Planned jobDef w ids →
      job'.iterNum = job.iterNum + 1 →
      Moves κ jobDef s w (.loaded job) (.advance now jobId ids)
        (.saving job' (.nextIteration now)) ids
  | start {job job' : Job} {m : TaskMap} {t t' : Task} {moments : Job.PickMoments} {now : Nat} :
      job.isProcessed = false → DerivedRun κ w (s.workers w).since now job.tasksById m →
      κ.Before now s.clock → m.get t.id = some t → t.start w now = .ok t' →
      job'.tasksById = m.insert t' → Frame job job' → job'.status = .running →
      Moves κ jobDef s w (.loaded job) (.pick moments now) (.saving job' (.start t.id)) []
  | settle {job job' : Job} {moments : Job.PickMoments} {now startAt : Nat} :
      job.isProcessed = false →
      DerivedRun κ w (s.workers w).since now job.tasksById job'.tasksById → κ.Before now s.clock →
      Frame job job' → job'.isProcessed = true → job'.completedAt = some now →
      job'.isMoving now = false → job'.allTasksResolved = true →
      Moves κ jobDef s w (.loaded job) (.pick moments startAt) (.saving job' .settle) []
  | refused {job : Job} {purpose : Purpose} :
      Moves κ jobDef s w (.saving job purpose) .refused (.conflicted job purpose) []
  | reread {job saved : Job} {purpose : Purpose} {n : Nat} {kept : Option Nat} {e : Entry} :
      s.history.readable n = some e → s.history.Serves jobDef e saved →
      Moves κ jobDef s w (.conflicted job purpose) (.reread n kept)
        (.merging job saved purpose) []
  | adopt {job saved : Job} {purpose : Purpose} {first second : Nat} :
      purpose = .create ∨
        (∃ readyAt, purpose = .nextIteration readyAt ∧ saved.isReadyForProcessing = true) →
      Moves κ jobDef s w (.merging job saved purpose) (.merge first second) (.loaded saved) []
  | mergeStart {job saved job' : Job} {taskId : Uuid} {stored workerTask : Task} {m : TaskMap}
      {first second : Nat} :
      κ.Before (s.workers w).since first → κ.Before second s.clock →
      saved.task? taskId = some stored →
      stored.processingByWorker = none ∨ stored.processingByWorker = some w →
      job.task? taskId = some workerTask → workerTask.status = .started →
      saved.status.allows job.status = true →
      DerivedRun κ w first second saved.tasksById m →
      (∃ m₁, Outlived first saved.tasksById m₁ ∧
        Relation.ReflTransGen (Generation second) m₁ m) →
      (∀ id t, m.get id = some t → t.status = .blocked →
        ∀ cause, ¬ UnreachableFor m t second cause) →
      job'.tasksById = m.insert workerTask → Frame saved job' → job'.status = job.status →
      saved.acceptsStart job w taskId = true →
      Moves κ jobDef s w (.merging job saved (.start taskId)) (.merge first second)
        (.saving job' (.start taskId)) []
  | mergeResult {job saved base job' : Job} {taskId : Uuid} {stored : Task} {first now : Nat} :
      κ.Before (s.workers w).since now → κ.Before now s.clock → saved.isProcessed = false →
      saved.task? taskId = some stored →
      stored.processingByWorker = none ∨ stored.processingByWorker = some w →
      base.tasksById = (saved.carryTasks job w).tasksById → Frame saved base →
      base.status = .running → Job.SettledFrom base w now job' →
      saved.acceptsResult job w taskId = true →
      Moves κ jobDef s w (.merging job saved (.result taskId)) (.merge first now)
        (.saving job' (.result taskId)) []
  | call {job job' : Job} {taskId : Uuid} {now : Nat} {call : HandleCall} :
      κ.Before (s.workers w).since now → κ.Before now s.clock →
      areFresh s.minted call.minted = true → call.serve w taskId now job = (.ok (), job') →
      Moves κ jobDef s w (.executing job taskId) (.call now call) (.executing job' taskId)
        call.minted
  | callRefused {job : Job} {taskId : Uuid} {now : Nat} {call : HandleCall} :
      Moves κ jobDef s w (.executing job taskId) (.call now call) (.executing job taskId) []
  | finish {job job₁ job' : Job} {taskId : Uuid} {outcome : ExecutorOutcome}
      {resolution : TaskResolution} {now settleAt : Nat} :
      κ.Before (s.workers w).since now → κ.Before now settleAt → κ.Before settleAt s.clock →
      applyExecutorOutcome w taskId outcome now job = (.ok resolution, job₁) →
      Worked w (· = .resolved taskId) now job job₁ → Job.SettledFrom job₁ w settleAt job' →
      Moves κ jobDef s w (.executing job taskId) (.finish outcome now settleAt)
        (.saving job' (.result taskId)) []

/-- One reading lies between the bounds. -/
theorem inOrder_single {lo t hi : Nat} (h : inOrder κ lo [t] hi = true) :
    κ.Before lo t ∧ κ.Before t hi := by
  simpa [inOrder] using h

/-- And so do two, one after the other. -/
theorem inOrder_pair {lo t u hi : Nat} (h : inOrder κ lo [t, u] hi = true) :
    κ.Before lo t ∧ κ.Before t u ∧ κ.Before u hi := by
  simpa [inOrder] using h

/-- The readings of a pick-up and the start that follows it. -/
theorem inOrder_readings {lo startAt hi : Nat} {p : Job.PickMoments}
    (h : inOrder κ lo (p.readings ++ [startAt]) hi = true) :
    κ.Before lo p.lifetime ∧ p.Ordered κ ∧ κ.Before p.retry startAt ∧ κ.Before startAt hi := by
  simp only [Job.PickMoments.readings, List.cons_append, List.nil_append, inOrder,
    Bool.and_eq_true, decide_eq_true_eq] at h
  obtain ⟨h₁, h₂, h₃, h₄, h₅, h₆, h₇, h₈⟩ := h
  exact ⟨trans_of κ.Before h₁ h₂, ⟨h₂, h₃, h₄, h₅, h₆⟩, h₇, h₈⟩

section

variable {jobDef : JobDefinition} {s : System} {w : Uuid}

/-- A pick-up is one of the moves. -/
theorem pickAndStart_moves {moments : Job.PickMoments} {startAt : Nat} {job : Job}
    (hopen : job.isProcessed = false)
    (horder : inOrder κ (s.workers w).since (moments.readings ++ [startAt]) s.clock = true) :
    Moves κ jobDef s w (.loaded job) (.pick moments startAt)
      (pickAndStart w moments startAt job) [] := by
  obtain ⟨hlo, hordered, hretry, hclock⟩ := inOrder_readings horder
  have hend := Job.pickTaskToExecute_end w hordered job
  unfold pickAndStart
  generalize hresult : Job.pickTaskToExecute w moments job = result at hend
  cases hend with
  | refused _ => exact .idle
  | waiting _ _ _ _ _ => exact .idle
  | deadlock _ _ => exact .idle
  | @ready m look updatedBy runningAt t _ hrun hlook ht _ =>
      dsimp only
      rcases hstart : Job.startTask t.id w startAt (job.inWork m updatedBy runningAt) with
        ⟨r, job'⟩
      cases r with
      | error e => exact .idle
      | ok u =>
          obtain ⟨t₀, t', ht₀, hstarted, rfl⟩ := Job.startTask_eq_ok.mp hstart
          rw [show (job.inWork m updatedBy runningAt).task? t.id = some t from ht] at ht₀
          cases ht₀
          have hle : κ.Before look startAt :=
            trans_of κ.Before (trans_of κ.Before hlook hordered.secondLook_le) hretry
          exact .start hopen (hrun.spread hlo hle) hclock ht hstarted rfl
            ⟨rfl, rfl, rfl, rfl, rfl, rfl, rfl, rfl⟩ rfl
  | @settled m runningAt status _ hrun hmoving hresolved hstatus =>
      have hle : κ.Before moments.settle s.clock :=
        trans_of κ.Before (trans_of κ.Before hordered.settle_le hordered.secondLook_le)
          (trans_of κ.Before hretry hclock)
      refine .settle hopen (hrun.spread hlo (refl_of κ.Before _)) hle
        ⟨rfl, rfl, rfl, rfl, rfl, rfl, rfl, rfl⟩ ?_ rfl hmoving hresolved
      rcases hstatus with rfl | rfl <;> rfl

/-- The end of an execution is one of the moves. -/
theorem finishExecution_moves {taskId : Uuid} {outcome : ExecutorOutcome}
    {now settleAt : Nat} {job : Job}
    (horder : inOrder κ (s.workers w).since [now, settleAt] s.clock = true) :
    Moves κ jobDef s w (.executing job taskId) (.finish outcome now settleAt)
      (finishExecution w taskId outcome now settleAt job) [] := by
  obtain ⟨hlo, hle, hclock⟩ := inOrder_pair horder
  have hworked := applyExecutorOutcome_worked w taskId outcome now job
  unfold finishExecution
  rcases hresult : applyExecutorOutcome w taskId outcome now job with ⟨r, job₁⟩
  rw [hresult] at hworked
  cases r with
  | error e => exact .idle
  | ok resolution =>
      exact .finish hlo hle hclock hresult hworked (Job.settledFrom_of_trySettleIteration rfl)

/-- A merge is one of the moves. -/
theorem resolveConflict_moves {job saved : Job} {first second : Nat} {purpose : Purpose}
    (horder : inOrder κ (s.workers w).since [first, second] s.clock = true) :
    Moves κ jobDef s w (.merging job saved purpose) (.merge first second)
      (resolveConflict w job saved first second purpose) [] := by
  obtain ⟨hlo, hle, hclock⟩ := inOrder_pair horder
  cases purpose with
  | create => exact .adopt (Or.inl rfl)
  | settle => exact .idle
  | nextIteration readyAt =>
      rw [resolveConflict]
      split <;> rename_i hready
      · exact .adopt (Or.inr ⟨readyAt, rfl, hready⟩)
      · exact .idle
  | start taskId =>
      rw [resolveConflict]
      rcases hresult : Job.mergeWithPickedTask job w taskId first second saved with ⟨r, merged⟩
      cases r with
      | error e => exact .idle
      | ok u =>
          obtain ⟨stored, workerTask, m, hstored, howner, hworker, hstarted, hallows, hrun,
            hderived, hreachable, rfl⟩ := Job.mergeWithPickedTask_eq_ok hle hresult
          exact .mergeStart hlo hclock hstored howner hworker hstarted hallows hrun hderived
            hreachable rfl ⟨rfl, rfl, rfl, rfl, rfl, rfl, rfl, rfl⟩ rfl
            (Job.acceptsStart_of_merge hresult)
  | result taskId =>
      rw [resolveConflict]
      have hmerge : ∀ {r : Except JobError Unit} {merged : Job},
          Job.mergeWithProcessedTask job w taskId second saved = (r, merged) →
          (r = .ok () ∨ ∃ jobCode tasks, r = .error (.iterationDeadlock jobCode tasks)) →
          Moves κ jobDef s w (.merging job saved (.result taskId)) (.merge first second)
            (.saving merged (.result taskId)) [] := by
        intro r merged hresult hgoes
        obtain ⟨hopen, ⟨stored, hstored, howner⟩, base, htasks, hframe, hrunning, hfrom, -⟩ :=
          Job.mergeWithProcessedTask_end hresult hgoes
        exact .mergeResult (trans_of κ.Before hlo hle) hclock hopen hstored howner htasks hframe
          hrunning hfrom (Job.acceptsResult_of_goes hresult hgoes)
      split
      · rename_i merged hresult
        exact hmerge hresult (Or.inl rfl)
      · rename_i jobCode tasks merged hresult
        exact hmerge hresult (Or.inr ⟨jobCode, tasks, rfl⟩)
      · exact .idle

/-- A move of the system is one of those listed. -/
theorem workerMove_moves {p p' : Phase} {action : WorkerAction} {ids : List Uuid}
    (h : workerMove κ jobDef s w p action = some (p', ids)) :
    Moves κ jobDef s w p action p' ids := by
  unfold workerMove at h
  split at h
  · cases h
    exact .idle
  · split at h
    · rename_i hempty
      cases h
      exact .missing (by simpa using hempty)
    · cases h
  · rw [Option.map_eq_some_iff] at h
    obtain ⟨job, hread, h⟩ := h
    cases h
    obtain ⟨e, he, hserves⟩ := History.read_eq_some hread
    exact .read he hserves
  · split at h <;> rename_i hguard
    · simp only [Bool.and_eq_true, decide_eq_true_eq] at hguard
      obtain ⟨⟨-, hfresh⟩, hlength⟩ := hguard
      split at h <;> rename_i hnew
      · cases h
        obtain ⟨hplanned, hiter⟩ := Job.new_eq_ok hnew
        exact .create hfresh hlength hplanned hiter
      · cases h
        exact .idle
    · cases h
  · split at h <;> rename_i hguard
    · simp only [Bool.and_eq_true, decide_eq_true_eq] at hguard
      obtain ⟨⟨⟨-, horder⟩, hfresh⟩, hlength⟩ := hguard
      split at h <;> rename_i hnext
      · cases h
        obtain ⟨hready, hplanned, hiter⟩ := Job.nextIteration_eq_ok hnext
        obtain ⟨hlo, hclock⟩ := inOrder_single horder
        exact .advance hlo hclock hfresh hlength hready hplanned hiter
      · cases h
        exact .idle
    · cases h
  · split at h <;> rename_i hguard
    · cases h
      rw [Bool.and_eq_true] at hguard
      exact pickAndStart_moves (by simpa using hguard.1) hguard.2
    · cases h
  · split at h
    · cases h
    · cases h
      exact .refused
  · rw [Option.map_eq_some_iff] at h
    obtain ⟨saved, hread, h⟩ := h
    cases h
    obtain ⟨e, he, hserves⟩ := History.read_eq_some hread
    exact .reread he hserves
  · split at h <;> rename_i horder
    · cases h
      exact resolveConflict_moves horder
    · cases h
  · split at h <;> rename_i hguard
    · rw [Bool.and_eq_true] at hguard
      obtain ⟨hlo, hclock⟩ := inOrder_single hguard.1
      split at h <;> rename_i hserve
      · cases h
        exact .call hlo hclock hguard.2 hserve
      · cases h
        rw [HandleCall.serve_refusesCleanly _ _ _ _ _ _ _ hserve]
        exact .callRefused
    · cases h
  · split at h <;> rename_i horder
    · cases h
      exact finishExecution_moves horder
    · cases h
  · cases h

/-- An action of the system lets time pass, moves one worker, or appends one version to
the history. -/
theorem step_cases {a : Action} {s' : System} (h : step κ jobDef s a = some s') :
    (∃ elapsed, a = .tick elapsed ∧ s' = { s with clock := s.clock + elapsed }) ∨
      (∃ w action phase ids, a = .move w action ∧
        Moves κ jobDef s w (s.workers w).phase action phase ids ∧
        s' = s.enter w phase ids) ∨
      ∃ w version delivered job purpose, a = .put w version delivered ∧
        (s.workers w).phase = .saving job purpose ∧ s.history.accepts job = true ∧
        s.history.mayIssue job version = true ∧
        s' = s.commit w (.ofJob job version w purpose s.clock)
          (afterPut job purpose version delivered) := by
  cases a with
  | tick elapsed =>
      cases h
      exact Or.inl ⟨elapsed, rfl, rfl⟩
  | move w action =>
      right; left
      rw [step] at h
      split at h
      · rename_i phase ids hmove
        cases h
        exact ⟨w, action, phase, ids, rfl, workerMove_moves hmove, rfl⟩
      · cases h
  | put w version delivered =>
      right; right
      rw [step] at h
      split at h
      · rename_i job purpose hphase
        split at h <;> rename_i hguard
        · cases h
          rw [Bool.and_eq_true] at hguard
          exact ⟨w, version, delivered, job, purpose, rfl, hphase, hguard.1, hguard.2, rfl⟩
        · cases h
      · cases h

end

end JobManager
