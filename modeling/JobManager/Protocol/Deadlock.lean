import JobManager.Execution.Atomic
import JobManager.Protocol.Creators

/-!
# When no iteration deadlocks

The dependencies of every stored version form no cycle.  They stay within the version, and
so do those of every copy a worker holds, as long as whoever created a stored task is done:
over such a graph no operation reports a deadlock.  A merge can lay an old failure over a
creator that is done; where a cached copy still names it, its next failure drops stored
tasks that others wait for.

Main results:

- Theorem {lit}`iteration_never_deadlocks`: no deadlock along runs whose merges keep the
  creators done, whatever the clocks of the workers.
- Theorem {lit}`iteration_deadlocks`: a run of four workers that leaves an iteration
  deadlocked.
- Theorem {lit}`begun_allOrNothing`: what an execution begins with along runs whose merges
  keep the creators done.
- Theorem {lit}`execution_drops_stored`: the execution that run ends with drops what was
  stored.
-/

namespace JobManager

variable {κ : Clocks}

/-! ## Copies in circulation -/

/-- The copies of the job a worker holds. -/
def Phase.copies : Phase → List Job
  | .idle => []
  | .missing => []
  | .loaded job => [job]
  | .executing job _ => [job]
  | .saving job _ => [job]
  | .conflicted job _ => [job]
  | .merging job saved _ => [job, saved]

/-- A copy some worker holds, or one any reader of the store may get. -/
def Circulates (jobDef : JobDefinition) (s : System) (job : Job) : Prop :=
  (∃ w, job ∈ (s.workers w).phase.copies) ∨
    ∃ e ∈ s.history, s.history.Serves jobDef e job

/-- A copy with tasks, whose dependencies stay within it and have a rank. -/
structure Whole (g : Pedigree) (job : Job) : Prop where
  closed : DependenciesClosed job.tasksById
  ranked : DependenciesRanked g.rank job.tasksById
  nonempty : ∃ id t, job.task? id = some t

section Circulating

variable {jobDef : JobDefinition} {g : Pedigree} {s : System} {job : Job}

/-- A copy in shape is whole where it is calm. -/
theorem CopyOk.whole {w : Uuid} (hinv : Inv κ jobDef g s) (hcopy : CopyOk jobDef g s w job)
    (hcalm : CalmCopy job.tasksById) : Whole g job :=
  ⟨hcalm.closed, hcopy.fits.ranked hinv.ranked, hcopy.nonempty⟩

/-- The copy of an execution holds what the execution began with. -/
theorem Midway.whole {base : TaskMap} {taskId : Uuid} {n : Nat} (hinv : Inv κ jobDef g s)
    (hfits : Fits g s.minted n job.tasksById) (h : Midway base taskId job.tasksById) :
    Whole g job := by
  obtain ⟨t, ht, -⟩ := h.accounts
  exact ⟨h.closed, hfits.ranked hinv.ranked, taskId, t, ht⟩

/-- Every copy in circulation is whole. -/
theorem whole_of_circulates (hinv : Inv κ jobDef g s) (hcalm : Calm s)
    (h : Circulates jobDef s job) : Whole g job := by
  rcases h with ⟨w, hmem⟩ | ⟨e, he, hserves⟩
  · have hok := hinv.workers w
    have hknows := hcalm.workers w
    cases hphase : (s.workers w).phase with
    | idle => simp [hphase, Phase.copies] at hmem
    | missing => simp [hphase, Phase.copies] at hmem
    | loaded job' =>
        rw [hphase] at hok hmem hknows
        obtain rfl := List.mem_singleton.mp hmem
        exact hok.1.whole hinv hknows
    | executing job' taskId =>
        rw [hphase] at hok hmem hknows
        obtain rfl := List.mem_singleton.mp hmem
        obtain ⟨e, -, -, -, hunder⟩ := hknows
        exact hunder.whole hinv hok.1.fits
    | saving job' purpose =>
        rw [hphase] at hok hmem hknows
        obtain rfl := List.mem_singleton.mp hmem
        exact hok.1.whole hinv hknows.1
    | conflicted job' purpose =>
        rw [hphase] at hok hmem hknows
        obtain rfl := List.mem_singleton.mp hmem
        exact hok.1.whole hinv hknows.1
    | merging job' saved purpose =>
        rw [hphase] at hok hmem hknows
        simp only [Phase.copies, List.mem_cons, List.not_mem_nil, or_false] at hmem
        rcases hmem with rfl | rfl
        · exact hok.1.whole hinv hknows.1
        · exact hok.2.2.2.1.whole hinv hknows.2.1
  · obtain ⟨-, hcopy⟩ := loadedFrom_of_serves (w := 0) hinv he hserves
    exact hcopy.whole hinv (hcalm.serves he hserves)

/-- A settlement of a whole copy reports no deadlock. -/
theorem settle_ne_deadlock (h : Whole g job) (w : Uuid) (now : Nat) (jobCode tasks : String)
    (job' : Job) :
    Job.trySettleIteration w now job ≠ (.error (.iterationDeadlock jobCode tasks), job') :=
  Job.trySettleIteration_ne_deadlock g.rank h.closed h.ranked h.nonempty

/-- A pick-up from a whole copy reports no deadlock, whatever it reads off its clock. -/
theorem pick_ne_deadlock (h : Whole g job) (w : Uuid) (moments : Job.PickMoments)
    (jobCode tasks : String) (job' : Job) :
    Job.pickTaskToExecute w moments job ≠
      (.error (.iterationDeadlock jobCode tasks), job') := by
  have hordered : moments.Ordered .own := ⟨trivial, trivial, trivial, trivial, trivial⟩
  exact Job.pickTaskToExecute_ne_deadlock g.rank hordered h.closed h.ranked h.nonempty

/-- Nor does the settlement after an outcome was recorded. -/
theorem outcome_ne_deadlock (hinv : Inv κ jobDef g s) (hcalm : Calm s) {w taskId : Uuid}
    (hphase : (s.workers w).phase = .executing job taskId) (outcome : ExecutorOutcome)
    (now settleAt : Nat) (jobCode tasks : String) (job' : Job) :
    Job.trySettleIteration w settleAt (applyExecutorOutcome w taskId outcome now job).2 ≠
      (.error (.iterationDeadlock jobCode tasks), job') := by
  have hok := hinv.workers w
  have hknows := hcalm.workers w
  rw [hphase] at hok hknows
  obtain ⟨e, -, -, -, hunder⟩ := hknows
  have hworked := applyExecutorOutcome_worked w taskId outcome now job
  have hwhole := (hunder.run (fun _ htouch => ⟨taskId, htouch⟩) hworked.run).1.whole hinv
    (LocalRun.fits hworked.run (by simp) hok.1.fits)
  exact settle_ne_deadlock hwhole w settleAt jobCode tasks job'

/-- Nor does a merge of a result onto the state that won. -/
theorem merge_ne_deadlock (hinv : Inv κ jobDef g s) (hcalm : Calm s) {w taskId : Uuid}
    {saved : Job} (hphase : (s.workers w).phase = .merging job saved (.result taskId))
    (now : Nat) (jobCode tasks : String) (job' : Job) :
    Job.mergeWithProcessedTask job w taskId now saved ≠
      (.error (.iterationDeadlock jobCode tasks), job') := by
  intro h
  have hok := hinv.workers w
  have hknows := hcalm.workers w
  rw [hphase] at hok hknows
  obtain ⟨hcopy, -, ⟨-, t, ht⟩, hsaved, -⟩ := hok
  obtain ⟨hjob, hbase, hheld⟩ := hknows
  obtain ⟨-, ⟨stored, hstored, -⟩, base, htasks, -, -, -, hdeadlock⟩ :=
    Job.mergeWithProcessedTask_end h (Or.inr ⟨jobCode, tasks, rfl⟩)
  have hiter : saved.iterNum = job.iterNum := sameIteration hcopy.fits hsaved.fits ht hstored
  have hwhole : Whole g base := by
    refine ⟨?_, ?_, ?_⟩
    · rw [htasks]
      exact closed_carry hbase.closed hjob.closed (hheld hiter)
    · rw [htasks]
      exact (fits_carry hsaved.fits (hiter ▸ hcopy.fits)).ranked hinv.ranked
    · obtain ⟨t', ht'⟩ := carry_of_saved job w hstored
      exact ⟨taskId, t', by rw [Job.task?, htasks]; exact ht'⟩
  exact settle_ne_deadlock hwhole w now jobCode tasks job' (hdeadlock jobCode tasks rfl)

end Circulating

/-- Along any run whose merges keep the creators done, whatever the clocks of the workers,
the dependencies of a stored version stay within it and form no cycle; no pick-up,
settlement or merge of a copy in circulation reports a deadlock; and a pick-up that waits
without a moment to come back at has seen a task running. -/
theorem iteration_never_deadlocks {jobDef : JobDefinition} (hdef : jobDef.Accepted)
    {s : System} (h : ReachableUnder (step κ jobDef) (fun s a => keepsCreators s a = true)
      System.init s) :
    (∀ e ∈ s.history, DependenciesClosed e.tasks ∧ Acyclic e.tasks) ∧
      (∀ job, Circulates jobDef s job → ∀ w jobCode tasks job',
        (∀ moments, Job.pickTaskToExecute w moments job ≠
          (.error (.iterationDeadlock jobCode tasks), job')) ∧
        (∀ now, Job.trySettleIteration w now job ≠
          (.error (.iterationDeadlock jobCode tasks), job'))) ∧
      (∀ w job taskId, (s.workers w).phase = .executing job taskId →
        ∀ outcome now settleAt jobCode tasks job',
          Job.trySettleIteration w settleAt (applyExecutorOutcome w taskId outcome now job).2 ≠
            (.error (.iterationDeadlock jobCode tasks), job')) ∧
      (∀ w job saved taskId, (s.workers w).phase = .merging job saved (.result taskId) →
        ∀ now jobCode tasks job', Job.mergeWithProcessedTask job w taskId now saved ≠
          (.error (.iterationDeadlock jobCode tasks), job')) ∧
      ∀ job, Circulates jobDef s job → ∀ w now order job', Job.Visits order job.tasksById →
        Job.pickTaskToExecute w (.at now order) job = (.ok (.waiting none), job') →
        ∃ id t, job'.task? id = some t ∧ t.status = .started := by
  obtain ⟨⟨g, hinv⟩, hcalm, -⟩ := reachable_calm (P := fun _ => True) hdef.wellFormed trivial
    (fun _ _ _ hkeeps => hkeeps) (fun _ _ _ _ _ => trivial) h
  refine ⟨?_, ?_, ?_, ?_, ?_⟩
  · intro e he
    exact ⟨(hcalm.entries e he).tasks.closed,
      acyclic_of_ranked ((hinv.entries e he).fits.ranked hinv.ranked)⟩
  · intro job hcirculates w jobCode tasks job'
    have hwhole := whole_of_circulates hinv hcalm hcirculates
    exact ⟨fun moments => pick_ne_deadlock hwhole w moments jobCode tasks job',
      fun now => settle_ne_deadlock hwhole w now jobCode tasks job'⟩
  · intro w job taskId hphase outcome now settleAt jobCode tasks job'
    exact outcome_ne_deadlock hinv hcalm hphase outcome now settleAt jobCode tasks job'
  · intro w job saved taskId hphase now jobCode tasks job'
    exact merge_ne_deadlock hinv hcalm hphase now jobCode tasks job'
  · intro job _ w now order job' hvisits hwaiting
    exact Job.pickTaskToExecute_waiting_none hvisits hwaiting

/-- Three tasks that wait for nothing, whose executions may create tasks of two more
codes. -/
def crewDefinition : JobDefinition where
  code := "crew"
  initialTasks := [.new "scout" (milliseconds 100000), .new "guard" (milliseconds 100000),
    .new "planner" (milliseconds 100000)]
  taskExecutors := [("follow", 5), ("find", 4), ("planner", 3), ("guard", 2), ("scout", 1)]
  maxIterations := none
  iterationInterval := none
  taskLimits := .default
  iterationRetention := defaultIterationRetention

theorem crewDefinition_accepted : crewDefinition.Accepted :=
  .new (show JobDefinition.new 7 "crew"
    [(.new "scout" (milliseconds 100000), 1), (.new "guard" (milliseconds 100000), 2),
      (.new "planner" (milliseconds 100000), 3)] [("find", 4), ("follow", 5)] []
    .default = .ok crewDefinition from rfl)

/-- The second worker executes the scout, which finds a task; the first one's save of the
guard loses its race to that result and is merged onto the copy the cache kept of it. -/
def crewMerge : List Action :=
  [.move 101 .readNothing, .move 101 (.create 0 900 [1, 2, 3]), .put 101 "v1" true,
    .move 101 (.pick (.at 0 [2, 1, 3]) 0), .put 101 "v2" true,
    .move 102 (.read 1 none), .move 102 (.pick (.at 0 [1, 2, 3]) 0), .put 102 "v3" true,
    .move 102 (.call 0 (.addTask (.new "find" (milliseconds 100000)) 50)),
    .move 102 (.finish (.completed []) 0 0), .put 102 "v4" true,
    .move 101 (.finish (.completed []) 0 0), .move 101 .refused,
    .move 101 (.reread 1 (some 0)), .move 101 (.merge 0 0), .put 101 "v5" true]

theorem crewMerge_never_deadlocks :
    ∃ s, runAdmitted (step .shared crewDefinition) keepsCreators System.init crewMerge = some s ∧
      s.history.length = 5 ∧ ∀ e ∈ s.history, DependenciesClosed e.tasks ∧ Acyclic e.tasks := by
  have hruns : (runAdmitted (step .shared crewDefinition) keepsCreators System.init
      crewMerge).map (fun s => s.history.length) = some 5 := by
    decide +kernel
  obtain ⟨s, hs, hlength⟩ := Option.map_eq_some_iff.mp hruns
  exact ⟨s, hs, hlength, (iteration_never_deadlocks crewDefinition_accepted
    (reachableUnder_of_runAdmitted .init hs)).1⟩

/-- The first worker fails the scout and starts the guard.  The second one starts the scout
again, which finds a task and skips its branch; that is saved before the first one re-reads
what its save of the guard lost to, and the merge lays its old failure of the scout over the
skip.  The third worker's planner has a task follow the one found; the fourth starts the
scout once more, and its failure drops what was found. -/
def crewLoss : List Action :=
  [.move 101 .readNothing, .move 101 (.create 0 900 [1, 2, 3]), .put 101 "v1" true,
    .move 101 (.pick (.at 0 [1, 2, 3]) 0), .put 101 "v2" true,
    .move 101 (.finish (.error "out of reach") 0 0), .put 101 "v3" true,
    .tick (milliseconds 2000),
    .move 101 (.read 1 none),
    .move 101 (.pick (.at (milliseconds 2000) [2, 1, 3]) (milliseconds 2000)),
    .put 101 "v4" true,
    .move 102 (.read 1 none),
    .move 102 (.pick (.at (milliseconds 2000) [1, 2, 3]) (milliseconds 2000)),
    .put 102 "v5" true,
    .move 102 (.call (milliseconds 2000) (.addTask (.new "find" (milliseconds 100000)) 50)),
    .move 102 (.finish (.skippedBranch "found") (milliseconds 2000) (milliseconds 2000)),
    .move 101 (.finish (.completed []) (milliseconds 2000) (milliseconds 2000)),
    .move 101 .refused, .put 102 "v6" true, .move 101 (.reread 1 (some 0)),
    .move 101 (.merge (milliseconds 2000) (milliseconds 2000)), .put 101 "v7" true,
    .move 103 (.read 1 (some 0)),
    .move 103 (.pick (.at (milliseconds 2000) [3, 1, 2, 50]) (milliseconds 2000)),
    .put 103 "v8" true,
    .move 103 (.call (milliseconds 2000) (.addTask
      { TaskDefinition.new "follow" (milliseconds 100000) with dependsOn := [.created 50] } 60)),
    .move 103 (.finish (.completed []) (milliseconds 2000) (milliseconds 2000)),
    .put 103 "v9" true,
    .move 104 (.read 1 (some 0)),
    .move 104 (.pick (.at (milliseconds 2000) [1, 2, 3, 50, 60]) (milliseconds 2000)),
    .put 104 "v10" true,
    .move 104 (.finish (.terminallyFailed "lost") (milliseconds 2000) (milliseconds 2000)),
    .put 104 "v11" true]

/-- Whether the newest version waits for a task it does not hold, and a settlement of what
the store keeps of it reports a deadlock. -/
def newestDeadlocks (jobDef : JobDefinition) (w id d : Uuid) (now : Nat) : History → Bool
  | e :: _ =>
      (e.tasks.get id).any (d ∈ ·.dependsOn) && (e.tasks.get d).isNone &&
        match (Job.trySettleIteration w now (e.load jobDef)).1 with
        | .error (.iterationDeadlock _ _) => true
        | _ => false
  | [] => false

/-- A version found so is deadlocked. -/
theorem deadlocks_of_newestDeadlocks {jobDef : JobDefinition} {w id d : Uuid} {now : Nat}
    {h : History} (hdeadlocks : newestDeadlocks jobDef w id d now h = true) :
    ∃ e ∈ h, ¬ DependenciesClosed e.tasks ∧ ∃ jobCode tasks job',
      Job.trySettleIteration w now (e.load jobDef) =
        (.error (.iterationDeadlock jobCode tasks), job') := by
  cases h with
  | nil => cases hdeadlocks
  | cons e h =>
      simp only [newestDeadlocks, Bool.and_eq_true] at hdeadlocks
      obtain ⟨⟨hwaits, hgone⟩, hreports⟩ := hdeadlocks
      refine ⟨e, by simp, ?_, ?_⟩
      · intro hclosed
        obtain ⟨t, ht, hd⟩ := (Option.any_eq_true _ _).mp hwaits
        obtain ⟨dep, hdep⟩ := hclosed id t ht d (by simpa using hd)
        rw [hdep] at hgone
        cases hgone
      · rcases hresult : Job.trySettleIteration w now (e.load jobDef) with ⟨r, job'⟩
        rw [hresult] at hreports
        cases r with
        | ok _ => cases hreports
        | error err =>
            cases err with
            | iterationDeadlock jobCode tasks => exact ⟨jobCode, tasks, job', rfl⟩
            | _ => cases hreports

/-- An iteration can be stored with a task that waits for one it no longer holds, and then
deadlocks. -/
theorem iteration_deadlocks : crewDefinition.Accepted ∧
    ∃ s, Reachable (step .shared crewDefinition) System.init s ∧
      ∃ e ∈ s.history, ¬ DependenciesClosed e.tasks ∧ ∃ jobCode tasks job',
        Job.trySettleIteration 105 (milliseconds 2000) (e.load crewDefinition) =
          (.error (.iterationDeadlock jobCode tasks), job') := by
  have hruns : (runActions (step .shared crewDefinition) System.init crewLoss).any
      (fun s => newestDeadlocks crewDefinition 105 60 50 (milliseconds 2000) s.history) = true := by
    decide +kernel
  refine ⟨crewDefinition_accepted, ?_⟩
  obtain ⟨s, hs, hdeadlocks⟩ := (Option.any_eq_true _ _).mp hruns
  exact ⟨s, reachable_of_runActions .init hs, deadlocks_of_newestDeadlocks hdeadlocks⟩

/-! ## What a failure drops -/

/-- Along runs whose merges keep the creators done, the execution that the write of a start
begins is all or nothing. -/
theorem begun_allOrNothing {jobDef : JobDefinition} (hdef : jobDef.Accepted) {s : System}
    (h : ReachableUnder (step κ jobDef) (fun s a => keepsCreators s a = true) System.init s)
    {w taskId : Uuid} {job : Job} (hphase : (s.workers w).phase = .saving job (.start taskId))
    (version : String) :
    ∃ t, job.task? taskId = some t ∧ AllOrNothing (job.updateVersion version) w taskId t := by
  obtain ⟨⟨g, hinv⟩, hcalm, -⟩ := reachable_calm (P := fun _ => True) hdef.wellFormed trivial
    (fun _ _ _ hkeeps => hkeeps) (fun _ _ _ _ _ => trivial) h
  have hok := hinv.workers w
  have hknows := hcalm.workers w
  rw [hphase] at hok hknows
  obtain ⟨-, -, -, -, t, ht, hstarted, howner⟩ := hok
  refine ⟨t, ht, allOrNothing_of_noneCreatedBy ?_ ht hstarted howner⟩
  intro id u hu hmark
  -- whoever created a task of the copy is done, and what starts is not
  obtain ⟨c, hc, hconcluded⟩ := hknows.1.creators id u taskId hu hmark
  rw [show job.tasksById.get taskId = some t from ht] at hc
  cases hc
  rcases hconcluded.done with hdone | ⟨_, hdone⟩ <;> simp [hstarted] at hdone

/-- Whether the worker executes the task on a copy that holds another one bearing its mark. -/
def executesMarked (w taskId id : Uuid) (s : System) : Bool :=
  match (s.workers w).phase with
  | .executing job executed => executed = taskId &&
      (job.task? taskId).any (fun t => t.status = .started && t.processingByWorker = some w) &&
      (job.task? id).any (·.createdByTask = some taskId)
  | _ => false

/-- The execution the crew ends with is not all or nothing. -/
theorem execution_drops_stored : crewDefinition.Accepted ∧
    ∃ s job t, Reachable (step .shared crewDefinition) System.init s ∧
      (s.workers 104).phase = .executing job 1 ∧ job.task? 1 = some t ∧ t.status = .started ∧
      t.processingByWorker = some 104 ∧ ¬ AllOrNothing job 104 1 t := by
  have hruns : (runActions (step .shared crewDefinition) System.init
      crewLoss.dropLast.dropLast).any (executesMarked 104 1 50) = true := by
    decide +kernel
  refine ⟨crewDefinition_accepted, ?_⟩
  obtain ⟨s, hs, hmarked⟩ := (Option.any_eq_true _ _).mp hruns
  unfold executesMarked at hmarked
  split at hmarked
  · rename_i job executed hphase
    simp only [Bool.and_eq_true, decide_eq_true_eq, Option.any_eq_true] at hmarked
    obtain ⟨⟨rfl, t, ht, hstarted, howner⟩, u, hu, hmark⟩ := hmarked
    refine ⟨s, job, t, reachable_of_runActions .init hs, hphase, ht, hstarted, howner, ?_⟩
    intro hall
    exact noneCreatedBy_of_allOrNothing hall ht hstarted howner 50 u hu hmark
  · cases hmarked

end JobManager
