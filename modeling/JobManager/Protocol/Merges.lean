import JobManager.Core.Derived
import JobManager.Protocol.Order

/-!
# What a merge of a result touches

A merge of a result is meant to put one execution's work onto the stored state: the entry
of the task it executed and the tasks it added.  Its filter goes by the worker instead, and
takes the entry of the executed task as it is, whatever the stored one has become.

Main results:

- Theorem {lit}`merge_touches_only_execution`: exactly when a merge carries one execution's
  work and nothing else.
- Theorem {lit}`terminal_failure_final`: exactly when a merge leaves a task that failed for
  good failed.
-/

namespace JobManager

/-! ## The work of one execution -/

/-- The stored entry of a task, but for the executed task and what its execution added. -/
def Job.withExecution (saved job : Job) (taskId id : Uuid) : Option Task :=
  if id = taskId then job.task? id
  else (saved.task? id).or ((job.task? id).filter fun t => t.createdByTask = some taskId)

/-- The merge put the work of one execution onto the stored state and derived what follows
from it; every other stored task that is not blocked is as it was. -/
def TouchesOnlyExecution (saved job : Job) (taskId : Uuid) (now : Nat) (merged : Job) : Prop :=
  (∃ m : TaskMap, (∀ id, m.get id = saved.withExecution job taskId id) ∧
      Derives now m merged.tasksById) ∧
    ∀ id t, id ≠ taskId → saved.task? id = some t → t.status ≠ .blocked →
      merged.task? id = some t

/-- Whether the filter lets exactly one execution's work through: what else names the worker
is stored as its copy has it, and of what is not stored it takes what the execution
added. -/
def Job.carriesOnlyExecution (saved job : Job) (w taskId : Uuid) : Bool :=
  job.tasks.all fun t => t.id = taskId ||
    match saved.task? t.id with
    | some stored => t.processingByWorker ≠ some w || t = stored
    | none => isCarried saved.tasksById w t = decide (t.createdByTask = some taskId)

/-- No blocked task of the copy names a worker. -/
def Job.blockedUnowned (job : Job) : Prop :=
  ∀ id t, job.task? id = some t → t.status = .blocked → t.processingByWorker = none

section Merge

variable {saved job : Job} {w taskId : Uuid} {t : Task}

theorem carriesOnlyExecution_eq_true :
    saved.carriesOnlyExecution job w taskId = true ↔
      ∀ id t, job.task? id = some t → id ≠ taskId →
        (∀ stored, saved.task? id = some stored → t.processingByWorker = some w → t = stored) ∧
        (saved.task? id = none →
          (Job.isCarried saved.tasksById w t = true ↔ t.createdByTask = some taskId)) := by
  rw [Job.carriesOnlyExecution, List.all_eq_true]
  constructor
  · intro h id t ht hne
    obtain rfl := Job.id_of_task? ht
    have hentry := h t (Job.mem_tasks_of_task? ht)
    constructor
    · intro stored hstored howner
      simpa [hne, hstored, howner] using hentry
    · intro hnone
      have hsame : Job.isCarried saved.tasksById w t = decide (t.createdByTask = some taskId) := by
        simpa [hne, hnone] using hentry
      rw [hsame, decide_eq_true_eq]
  · intro h t ht
    by_cases hne : t.id = taskId
    · simp [hne]
    · obtain ⟨hstored, hnone⟩ := h t.id t (Job.mem_tasks_iff.mp ht) hne
      cases hsaved : saved.task? t.id with
      | none =>
          have hsame : Job.isCarried saved.tasksById w t =
              decide (t.createdByTask = some taskId) := by
            rw [Bool.eq_iff_iff, decide_eq_true_eq]
            exact hnone hsaved
          simp [hsame]
      | some stored =>
          simp only [hne, decide_false, Bool.false_or, Bool.or_eq_true, decide_eq_true_eq]
          exact or_iff_not_imp_left.mpr fun howner => hstored stored hsaved (not_not.mp howner)

/-- The stored task an entry of the copy meets is taken over exactly where the copy names
the worker. -/
theorem isCarried_of_saved {id : Uuid} {stored : Task} (ht : job.task? id = some t)
    (hstored : saved.task? id = some stored) :
    Job.isCarried saved.tasksById w t = decide (t.processingByWorker = some w) := by
  have hget : saved.tasksById.get t.id = some stored := by
    rw [Job.id_of_task? ht]
    exact hstored
  simp [Job.isCarried, Job.isCreatedNow, Job.isProcessedNow, hget]

/-- Where the filter lets one execution's work through, it makes the state the work is put
onto. -/
theorem carryTasks_eq_withExecution (hexecuted : job.task? taskId = some t)
    (howner : t.processingByWorker = some w)
    (honly : saved.carriesOnlyExecution job w taskId = true) (id : Uuid) :
    (saved.carryTasks job w).tasksById.get id = saved.withExecution job taskId id := by
  rw [show (saved.carryTasks job w).tasksById.get id = _ from Job.get_carryTasks saved job w id,
    Job.withExecution]
  by_cases hid : id = taskId
  · have hcarried : Job.isCarried saved.tasksById w t = true := by
      simp [Job.isCarried, Job.isProcessedNow, howner]
    rw [hid, if_pos rfl, hexecuted]
    dsimp only
    rw [if_pos hcarried]
  · rw [if_neg hid]
    cases hjob : job.task? id with
    | none => simp
    | some u =>
        obtain ⟨hstored, hnone⟩ := carriesOnlyExecution_eq_true.mp honly id u hjob hid
        dsimp only
        cases hsaved : saved.task? id with
        | none =>
            rw [Option.none_or]
            by_cases hadded : u.createdByTask = some taskId
            · rw [if_pos ((hnone hsaved).mpr hadded)]
              simp [Option.filter, hadded]
            · rw [if_neg fun hcarried => hadded ((hnone hsaved).mp hcarried)]
              simp [Option.filter, hadded]
        | some stored =>
            rw [isCarried_of_saved hjob hsaved, Option.some_or]
            by_cases hself : u.processingByWorker = some w
            · simp [hstored stored hsaved hself]
            · simp [hself]

/-- What a merge that went on leaves of the combined state. -/
theorem merge_derives {merged : Job} {now : Nat}
    (h : Job.mergeWithProcessedTask job w taskId now saved = (.ok (), merged)) :
    Derives now (saved.carryTasks job w).tasksById merged.tasksById := by
  obtain ⟨hid, hstolen, hopen⟩ := Job.mergeWithProcessedTask_goes h (Or.inl rfl)
  have hstate := (Job.mergeWithProcessedTask_state now hid hstolen hopen).1
  rwa [h] at hstate

/-- A merge carries one execution's work and nothing else if the filter lets exactly that
through; and only then, over copies whose blocked tasks name no worker. -/
theorem merge_touches_only_execution {merged : Job} {now : Nat}
    (hexecuted : job.task? taskId = some t) (howner : t.processingByWorker = some w)
    (h : Job.mergeWithProcessedTask job w taskId now saved = (.ok (), merged)) :
    (saved.carriesOnlyExecution job w taskId = true →
        TouchesOnlyExecution saved job taskId now merged) ∧
      (saved.blockedUnowned → job.blockedUnowned →
        (TouchesOnlyExecution saved job taskId now merged ↔
          saved.carriesOnlyExecution job w taskId = true)) := by
  have hderives := merge_derives h
  have henough : saved.carriesOnlyExecution job w taskId = true →
      TouchesOnlyExecution saved job taskId now merged := by
    intro honly
    have hsame := carryTasks_eq_withExecution hexecuted howner honly
    refine ⟨⟨_, hsame, hderives⟩, ?_⟩
    intro id u hid hu hblocked
    refine hderives.keep ?_ hblocked
    rw [hsame, Job.withExecution, if_neg hid, hu, Option.some_or]
  refine ⟨henough, fun hsaved hjob => ⟨?_, henough⟩⟩
  rintro ⟨⟨m, hm, hfrom⟩, -⟩
  rw [carriesOnlyExecution_eq_true]
  intro id u hu hid
  have hcarry : (saved.carryTasks job w).tasksById.get id =
      if Job.isCarried saved.tasksById w u then some u else saved.task? id := by
    rw [show (saved.carryTasks job w).tasksById.get id = _ from Job.get_carryTasks saved job w id,
      hu]
  have hwork : m.get id =
      (saved.task? id).or ((some u).filter fun t => t.createdByTask = some taskId) := by
    rw [hm, Job.withExecution, if_neg hid, hu]
  constructor
  · -- both maps derive the merged one, and neither entry is blocked
    intro stored hstored hself
    rw [isCarried_of_saved hu hstored, if_pos (by simpa using hself)] at hcarry
    rw [hstored, Option.some_or] at hwork
    exact hderives.eq_of_owned hfrom hcarry hwork hself (hjob id u hu) (hsaved id stored hstored)
  · -- neither map holds a task the other lacks
    intro hnone
    rw [hnone] at hcarry hwork
    rw [Option.none_or] at hwork
    by_cases hcarried : Job.isCarried saved.tasksById w u = true <;>
      by_cases hadded : u.createdByTask = some taskId
    · exact iff_of_true hcarried hadded
    · rw [if_pos hcarried] at hcarry
      have hlacks : m.get id = none := by simpa [Option.filter, hadded] using hwork
      rw [hfrom.absent_of_absent hderives hlacks] at hcarry
      cases hcarry
    · rw [if_neg hcarried] at hcarry
      have hholds : m.get id = some u := by simpa [Option.filter, hadded] using hwork
      rw [hderives.absent_of_absent hfrom hcarry] at hholds
      cases hholds
    · exact iff_of_false hcarried hadded

end Merge

/-! ## Two merges of results -/

/-- Whether the worker is about to merge a result and the two states pass the check. -/
def mergesResult (w : Uuid) (check : Job → Job → Uuid → Bool) (s : System) : Bool :=
  match (s.workers w).phase with
  | .merging job saved (.result taskId) => check job saved taskId
  | _ => false

theorem exists_of_mergesResult {w : Uuid} {check : Job → Job → Uuid → Bool} {s : System}
    (h : mergesResult w check s = true) :
    ∃ job saved taskId, (s.workers w).phase = .merging job saved (.result taskId) ∧
      check job saved taskId = true := by
  unfold mergesResult at h
  split at h
  · rename_i job saved taskId hphase
    exact ⟨job, saved, taskId, hphase, h⟩
  · cases h

/-- In the race of two workers each of which executes one task, the merge carries its own
execution's work. -/
theorem pairRace_touches_only :
    ∃ s job saved merged, Reachable (step .shared pairDefinition) System.init s ∧
      (s.workers 101).phase = .merging job saved (.result 1) ∧
      Job.mergeWithProcessedTask job 101 1 0 saved = (.ok (), merged) ∧
      TouchesOnlyExecution saved job 1 0 merged := by
  have hruns : (runActions (step .shared pairDefinition) System.init (pairRace.take 11)).any
      (mergesResult 101 fun job saved taskId => taskId = 1 &&
        (job.task? 1).any (·.processingByWorker = some 101) &&
        (Job.mergeWithProcessedTask job 101 1 0 saved).1.isOk &&
        saved.carriesOnlyExecution job 101 1) = true := by
    decide +kernel
  obtain ⟨s, hs, hmerges⟩ := (Option.any_eq_true _ _).mp hruns
  obtain ⟨job, saved, taskId, hphase, hcheck⟩ := exists_of_mergesResult hmerges
  simp only [Bool.and_eq_true, decide_eq_true_eq, Option.any_eq_true] at hcheck
  obtain ⟨⟨⟨rfl, t, ht, howner⟩, hok⟩, honly⟩ := hcheck
  rcases hmerge : Job.mergeWithProcessedTask job 101 1 0 saved with ⟨r, merged⟩
  rw [hmerge] at hok
  cases r with
  | error e => cases hok
  | ok u =>
      exact ⟨s, job, saved, merged, reachable_of_runActions .init hs, hphase, hmerge,
        (merge_touches_only_execution ht howner hmerge).1 honly⟩

/-- The merge that lost a result carried the worker's old failure of another task along. -/
theorem merge_touches_others : pairDefinition.Accepted ∧
    ∃ s job saved merged now, Reachable (step .shared pairDefinition) System.init s ∧
      (s.workers 101).phase = .merging job saved (.result 2) ∧
      Job.mergeWithProcessedTask job 101 2 now saved = (.ok (), merged) ∧
      ¬ TouchesOnlyExecution saved job 2 now merged := by
  refine ⟨pairDefinition_accepted, ?_⟩
  have hruns : (runActions (step .shared pairDefinition) System.init (pairLoss.take 19)).any
      (mergesResult 101 fun job saved taskId => taskId = 2 &&
        (Job.mergeWithProcessedTask job 101 2 (milliseconds 2000) saved).1.isOk &&
        (saved.task? 1).any (fun t => t.status = .completed &&
          (Job.mergeWithProcessedTask job 101 2 (milliseconds 2000) saved).2.task? 1 ≠ some t)) =
      true := by
    decide +kernel
  obtain ⟨s, hs, hmerges⟩ := (Option.any_eq_true _ _).mp hruns
  obtain ⟨job, saved, taskId, hphase, hcheck⟩ := exists_of_mergesResult hmerges
  simp only [Bool.and_eq_true, decide_eq_true_eq, Option.any_eq_true] at hcheck
  obtain ⟨⟨rfl, hok⟩, t, ht, hcompleted, hchanged⟩ := hcheck
  rcases hmerge : Job.mergeWithProcessedTask job 101 2 (milliseconds 2000) saved with ⟨r, merged⟩
  rw [hmerge] at hok hchanged
  cases r with
  | error e => cases hok
  | ok u =>
      refine ⟨s, job, saved, merged, _, reachable_of_runActions .init hs, hphase, hmerge, ?_⟩
      rintro ⟨-, hothers⟩
      exact hchanged (hothers 1 t (by decide) ht (by simp [hcompleted]))

/-! ## Failures past the lifetime -/

/-- A result its worker carries onto a task that has failed for good meanwhile leaves it
failed if and only if the result is itself a failure. -/
theorem terminal_failure_final {saved job : Job} {w taskId : Uuid} {stored late : Task}
    {now : Nat} (hid : saved.id = job.id) (hopen : saved.isProcessed = false)
    (hstored : saved.task? taskId = some stored)
    (_hterminal : stored.isTerminallyFailedAt now = true)
    (howner : stored.processingByWorker = some w) (hlate : job.task? taskId = some late)
    (hresolved : late.isResolved = true) (hcarries : late.processingByWorker = some w) :
    (∀ t, (Job.mergeWithProcessedTask job w taskId now saved).2.task? taskId = some t →
        t.status ≠ .completed ∧ ∀ cause, t.status ≠ .skipped cause) ↔
      late.status = .failed := by
  have hstolen : saved.checkTaskStolen taskId w = .ok () :=
    Job.checkTaskStolen_eq_ok.mpr ⟨stored, hstored, Or.inr howner⟩
  have hderives := (Job.mergeWithProcessedTask_state now hid hstolen hopen).1
  have hcarry : (saved.carryTasks job w).tasksById.get taskId = some late := by
    rw [show (saved.carryTasks job w).tasksById.get taskId = _ from
      Job.get_carryTasks saved job w taskId, hlate]
    dsimp only
    rw [isCarried_of_saved hlate hstored, if_pos (by simpa using hcarries)]
  have hblocked : late.status ≠ .blocked := by
    intro hs
    simp [Task.isResolved, Task.resolution, hs] at hresolved
  have hmerged := hderives.keep hcarry hblocked
  constructor
  · intro hfinal
    obtain ⟨hcompleted, hskipped⟩ := hfinal late hmerged
    rcases Task.isResolved_eq_true.mp hresolved with hs | hs | ⟨cause, hs⟩
    · exact absurd hs hcompleted
    · exact hs
    · exact absurd hs (hskipped cause)
  · intro hfailed t ht
    rw [show (Job.mergeWithProcessedTask job w taskId now saved).2.task? taskId = some late from
      hmerged] at ht
    cases ht
    simp [hfailed]

/-- The gate's worker ends it in time with the given outcome, but saves late; past the
gate's lifetime another worker fails the gate and starts the task aside. -/
def gateLate (outcome : ExecutorOutcome) : List Action :=
  [.move 103 .readNothing, .move 103 (.create 0 900 [1, 2, 3]), .put 103 "v1" true,
    .move 101 (.read 1 none), .move 101 (.pick (.at 0 [1, 2, 3]) 0), .put 101 "v2" true,
    .tick (milliseconds 500),
    .move 101 (.finish outcome (milliseconds 500) (milliseconds 500)),
    .tick (milliseconds 1500),
    .move 102 (.read 1 none),
    .move 102 (.pick (.at (milliseconds 2000) [3, 2, 1]) (milliseconds 2000)),
    .put 102 "v3" true, .move 101 .refused, .move 101 (.reread 1 none)]

/-- Whether the worker is about to merge a result onto a task that failed for good in its
name. -/
def meetsTerminalFailure (status : TaskStatus) : Job → Job → Uuid → Bool :=
  fun job saved taskId => taskId = 1 && saved.id = job.id && !saved.isProcessed &&
    (saved.task? 1).any (fun stored => stored.isTerminallyFailedAt (milliseconds 2000) &&
      stored.processingByWorker = some 101) &&
    (job.task? 1).any fun late => late.status = status && late.processingByWorker = some 101

theorem gateLate_failure_final :
    ∃ s job saved, Reachable (step .shared gateDefinition) System.init s ∧
      (s.workers 101).phase = .merging job saved (.result 1) ∧
      ∀ t, (Job.mergeWithProcessedTask job 101 1 (milliseconds 2000) saved).2.task? 1 = some t →
        t.status ≠ .completed ∧ ∀ cause, t.status ≠ .skipped cause := by
  have hruns : (runActions (step .shared gateDefinition) System.init
      (gateLate (.error "stuck"))).any (mergesResult 101 (meetsTerminalFailure .failed)) =
        true := by
    decide +kernel
  obtain ⟨s, hs, hmerges⟩ := (Option.any_eq_true _ _).mp hruns
  obtain ⟨job, saved, taskId, hphase, hcheck⟩ := exists_of_mergesResult hmerges
  simp only [meetsTerminalFailure, Bool.and_eq_true, decide_eq_true_eq, Option.any_eq_true,
    Bool.not_eq_true'] at hcheck
  obtain ⟨⟨⟨⟨rfl, hid⟩, hopen⟩, stored, hstored, hterminal, howner⟩, late, hlate, hfailed,
    hcarries⟩ := hcheck
  have hresolved : late.isResolved = true := by simp [Task.isResolved, Task.resolution, hfailed]
  exact ⟨s, job, saved, reachable_of_runActions .init hs, hphase,
    (terminal_failure_final hid hopen hstored hterminal howner hlate hresolved hcarries).mpr
      hfailed⟩

/-- A gate that failed for outliving its lifetime is turned into a completed one by the
late save of its worker. -/
theorem terminal_failure_revived : gateDefinition.Accepted ∧
    ∃ s job saved stored, Reachable (step .shared gateDefinition) System.init s ∧
      (s.workers 101).phase = .merging job saved (.result 1) ∧ saved.isProcessed = false ∧
      saved.task? 1 = some stored ∧ stored.isTerminallyFailedAt (milliseconds 2000) = true ∧
      ∃ t, (Job.mergeWithProcessedTask job 101 1 (milliseconds 2000) saved).2.task? 1 = some t ∧
        t.status = .completed := by
  refine ⟨gateDefinition_accepted, ?_⟩
  have hruns : (runActions (step .shared gateDefinition) System.init
      (gateLate (.completed [7]))).any (mergesResult 101 fun job saved taskId =>
        meetsTerminalFailure .completed job saved taskId &&
        ((Job.mergeWithProcessedTask job 101 1 (milliseconds 2000) saved).2.task? 1).any
          (·.status = .completed)) = true := by
    decide +kernel
  obtain ⟨s, hs, hmerges⟩ := (Option.any_eq_true _ _).mp hruns
  obtain ⟨job, saved, taskId, hphase, hcheck⟩ := exists_of_mergesResult hmerges
  simp only [meetsTerminalFailure, Bool.and_eq_true, decide_eq_true_eq, Option.any_eq_true,
    Bool.not_eq_true'] at hcheck
  obtain ⟨⟨⟨⟨⟨rfl, -⟩, hopen⟩, stored, hstored, hterminal, -⟩, -⟩, hrevived⟩ := hcheck
  exact ⟨s, job, saved, stored, reachable_of_runActions .init hs, hphase, hopen, hstored,
    hterminal, hrevived⟩

end JobManager
