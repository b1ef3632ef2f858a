import JobManager.Core.Creations
import JobManager.Protocol.Invariant

/-!
# Runs that keep the creators done

A copy a cache kept still names the executions that created its tasks.  As long as every
creator is done there, no later failure drops a stored task, and no dependency is left
behind.  Only a merge can lay the open entry of a creator beside what it created; along runs
whose merges do not, every copy stays as whole as the version it was read as.

Main definitions:

- {lit}`keepsCreators`: the merges that keep the creators done.
- {lit}`Calm`: what holds along runs whose merges do.

Main results:

- Theorem {lit}`Calm.step`: it survives every action that keeps the creators done.
- Theorem {lit}`reachable_calm`: the invariant rule for such runs.
-/

namespace JobManager

variable {κ : Clocks}

/-! ## The condition -/

/-- Whether the task was executed and is done. -/
def Task.isConcluded (t : Task) : Bool :=
  (t.isCompleted || t.isSkipped) && t.processingByWorker.isSome

theorem Task.isConcluded_eq_true {t : Task} : t.isConcluded = true ↔ Concluded t := by
  have hdone : (t.isCompleted || t.isSkipped) = true ↔ IsDone t := by
    unfold isCompleted isSkipped skipCause IsDone
    cases t.status <;> simp
  rw [isConcluded, Bool.and_eq_true, hdone, Option.isSome_iff_ne_none]
  exact ⟨fun h => ⟨h.1, h.2⟩, fun h => ⟨h.done, h.owned⟩⟩

namespace Job

/-- Whether the merge takes the entry of a task from the worker's copy. -/
def carries (saved job : Job) (w id : Uuid) : Bool :=
  (job.task? id).any (isCarried saved.tasksById w)

/-- The entry of a task a merge of a result takes. -/
def takesResult (saved job : Job) (w id : Uuid) : Option Task :=
  if saved.carries job w id then job.task? id else saved.task? id

/-- The entry of a task a merge of a started task takes. -/
def takesStart (saved job : Job) (taskId id : Uuid) : Option Task :=
  if id = taskId then job.task? id else saved.task? id

theorem task?_carryTasks (saved job : Job) (w id : Uuid) :
    (saved.carryTasks job w).task? id = saved.takesResult job w id := by
  rw [get_carryTasks, takesResult, carries]
  cases job.task? id with
  | none => rfl
  | some t => rfl

end Job

/-- Whether whoever created one of the given tasks is done, among the entries taken. -/
def creatorsConcluded (ids : List Uuid) (taken : Uuid → Option Task) : Bool :=
  ids.all fun id => (taken id).all fun t =>
    t.createdByTask.all fun p => (taken p).any Task.isConcluded

/-- Whether a merge that goes through keeps the creators done: whoever created a task is
done among the entries the merge takes from the two copies. -/
def keepsCreators (s : System) : Action → Bool
  | .move w (.merge _ _) =>
      match (s.workers w).phase with
      | .merging job saved (.start taskId) =>
          !saved.acceptsStart job w taskId ||
            creatorsConcluded (saved.tasks.map Task.id) (saved.takesStart job taskId)
      | .merging job saved (.result taskId) =>
          !saved.acceptsResult job w taskId ||
            creatorsConcluded ((saved.tasks ++ job.tasks).map Task.id) (saved.takesResult job w)
      | _ => true
  | _ => true

section

variable {s : System} {w taskId : Uuid} {first second : Nat} {job saved : Job}

theorem keepsCreators_start (hphase : (s.workers w).phase = .merging job saved (.start taskId))
    (haccepts : saved.acceptsStart job w taskId = true) :
    keepsCreators s (.move w (.merge first second)) =
      creatorsConcluded (saved.tasks.map Task.id) (saved.takesStart job taskId) := by
  rw [keepsCreators, hphase]
  simp [haccepts]

theorem keepsCreators_result (hphase : (s.workers w).phase = .merging job saved (.result taskId))
    (haccepts : saved.acceptsResult job w taskId = true) :
    keepsCreators s (.move w (.merge first second)) =
      creatorsConcluded ((saved.tasks ++ job.tasks).map Task.id) (saved.takesResult job w) := by
  rw [keepsCreators, hphase]
  simp [haccepts]

end

theorem concluded_of_creatorsConcluded {ids : List Uuid} {taken : Uuid → Option Task}
    (h : creatorsConcluded ids taken = true) {id p : Uuid} {t : Task} (hid : id ∈ ids)
    (ht : taken id = some t) (hparent : t.createdByTask = some p) :
    ∃ c, taken p = some c ∧ Concluded c := by
  rw [creatorsConcluded, List.all_eq_true] at h
  have hall := h id hid
  rw [ht, Option.all_some, hparent, Option.all_some, Option.any_eq_true] at hall
  obtain ⟨c, hc, hconcluded⟩ := hall
  exact ⟨c, hc, Task.isConcluded_eq_true.mp hconcluded⟩

theorem Job.mem_ids_of_task? {job : Job} {id : Uuid} {t : Task} (h : job.task? id = some t) :
    id ∈ job.tasks.map Task.id :=
  List.mem_map.mpr ⟨t, mem_tasks_of_task? h, id_of_task? h⟩

/-- A merge of a result that keeps the creators done leaves them done. -/
theorem creatorsDone_carry {saved job : Job} {w : Uuid}
    (h : creatorsConcluded ((saved.tasks ++ job.tasks).map Task.id) (saved.takesResult job w) =
      true) : CreatorsDone (saved.carryTasks job w).tasksById := by
  intro id t p ht hparent
  have htaken : saved.takesResult job w id = some t := by
    rw [← Job.task?_carryTasks]
    exact ht
  have hid : id ∈ (saved.tasks ++ job.tasks).map Task.id := by
    rw [List.map_append, List.mem_append]
    rcases carry_cases ht with ⟨hjob, -⟩ | ⟨hsaved, -⟩
    · exact Or.inr (Job.mem_ids_of_task? hjob)
    · exact Or.inl (Job.mem_ids_of_task? hsaved)
  obtain ⟨c, hc, hconcluded⟩ := concluded_of_creatorsConcluded h hid htaken hparent
  exact ⟨c, by rwa [← Job.task?_carryTasks] at hc, hconcluded⟩

/-- What a merge of a started task that keeps the creators done lays over the stored state:
an entry whose creator is done, and that created nothing. -/
theorem creatorsConcluded_start {saved job : Job} {taskId : Uuid} {stored t : Task}
    (h : creatorsConcluded (saved.tasks.map Task.id) (saved.takesStart job taskId) = true)
    (hstored : saved.task? taskId = some stored) (ht : job.task? taskId = some t)
    (hstarted : t.status = .started) :
    (∀ p, t.createdByTask = some p → ∃ c, saved.task? p = some c ∧ Concluded c) ∧
      ∀ id u, saved.task? id = some u → id ≠ taskId → u.createdByTask ≠ some taskId := by
  have hself : saved.takesStart job taskId taskId = some t := by
    rw [Job.takesStart, if_pos rfl, ht]
  have hopen : ¬ Concluded t := by
    rintro ⟨hdone | ⟨cause, hdone⟩, -⟩ <;> simp [hstarted] at hdone
  have hcreator : ∀ {id p : Uuid} {u : Task}, id ∈ saved.tasks.map Task.id →
      saved.takesStart job taskId id = some u → u.createdByTask = some p →
      p ≠ taskId ∧ ∃ c, saved.task? p = some c ∧ Concluded c := by
    intro id p u hid hu hparent
    obtain ⟨c, hc, hconcluded⟩ := concluded_of_creatorsConcluded h hid hu hparent
    rw [Job.takesStart] at hc
    split at hc <;> rename_i hp
    · rw [hp, ht] at hc
      cases hc
      exact absurd hconcluded hopen
    · exact ⟨hp, c, hc, hconcluded⟩
  refine ⟨fun p hparent => (hcreator (Job.mem_ids_of_task? hstored) hself hparent).2, ?_⟩
  intro id u hu hne hparent
  have htaken : saved.takesStart job taskId id = some u := by
    rw [Job.takesStart, if_neg hne, hu]
  exact (hcreator (Job.mem_ids_of_task? hu) htaken hparent).1 rfl

/-! ## The invariant -/

/-- Nothing a failure could drop is left on the copy, and every dependency is on it. -/
structure CalmCopy (m : TaskMap) : Prop where
  creators : CreatorsDone m
  closed : DependenciesClosed m

/-- The copy holds every task of the version it is to replace. -/
def KeepsTasks (h : History) (job : Job) : Prop :=
  ∃ e ∈ h, e.iterNum = job.iterNum ∧ e.version = job.version ∧
    ∀ id t, e.tasks.get id = some t → ∃ t', job.task? id = some t'

/-- What the worker's copy holds, the state that won holds too, or the worker created it
and has not stored it. -/
def KnowsTasks (w : Uuid) (job saved : Job) : Prop :=
  saved.iterNum = job.iterNum → ∀ id t, job.task? id = some t →
    (∃ t', saved.task? id = some t') ∨ IsOwnCreation w t

/-- What holds of a worker, by what it is doing. -/
def CalmPhase (h : History) (w : Uuid) : Phase → Prop
  | .idle => True
  | .missing => True
  | .loaded job => CalmCopy job.tasksById
  | .executing job taskId => ∃ e ∈ h, e.iterNum = job.iterNum ∧ e.version = job.version ∧
      Midway e.kept.tasksById taskId job.tasksById
  | .saving job _ => CalmCopy job.tasksById ∧ (job.version ≠ "" → KeepsTasks h job)
  | .conflicted job _ => CalmCopy job.tasksById ∧ (job.version ≠ "" → KeepsTasks h job)
  | .merging job saved _ =>
      CalmCopy job.tasksById ∧ CalmCopy saved.tasksById ∧ KnowsTasks w job saved

/-- Every version keeps the tasks of the earlier ones of its iteration. -/
def GrowsOnly (h : History) : Prop :=
  h.Pairwise fun later earlier => later.iterNum = earlier.iterNum →
    ∀ id t, earlier.tasks.get id = some t → ∃ t', later.tasks.get id = some t'

/-- What holds along runs whose merges keep the creators done. -/
structure Calm (s : System) : Prop where
  entries : ∀ e ∈ s.history, CalmCopy e.kept.tasksById
  grows : GrowsOnly s.history
  workers : ∀ w, CalmPhase s.history w (s.workers w).phase

/-- Nothing is stored before anything happened. -/
theorem calm_init : Calm System.init where
  entries := by simp [System.init]
  grows := List.Pairwise.nil
  workers := fun _ => trivial

/-- What every version shares with the earlier ones of its iteration, the current one shares
with all of them. -/
theorem current_of_pairwise {R : Entry → Entry → Prop} (hrefl : ∀ e, R e e) {h : History}
    (hpairwise : h.Pairwise fun later earlier => later.iterNum = earlier.iterNum →
      R later earlier) {n : Nat} {c e : Entry} (hc : h.current n = some c) (he : e ∈ h)
    (hiter : e.iterNum = n) : R c e := by
  induction h with
  | nil => cases he
  | cons e' h ih =>
      rw [current_cons] at hc
      rw [List.pairwise_cons] at hpairwise
      split at hc <;> rename_i hn
      · cases hc
        rcases List.mem_cons.mp he with rfl | he
        · exact hrefl _
        · exact hpairwise.1 e he (hn.trans hiter.symm)
      · rcases List.mem_cons.mp he with rfl | he
        · exact absurd hiter hn
        · exact ih hpairwise.2 hc he

/-- What some version of an iteration holds, the current one holds. -/
theorem GrowsOnly.current {h : History} (hgrows : GrowsOnly h) {n : Nat} {c : Entry}
    (hc : h.current n = some c) {id : Uuid} (hstored : IsStored h n id) :
    ∃ t, c.tasks.get id = some t := by
  obtain ⟨e, he, hiter, t, ht⟩ := hstored
  exact current_of_pairwise (R := fun c e => ∀ id t, e.tasks.get id = some t →
    ∃ t', c.tasks.get id = some t') (fun _ _ t ht => ⟨t, ht⟩) hgrows hc he hiter id t ht

/-- What the store keeps of a calm copy is calm. -/
theorem CalmCopy.tasks {e : Entry} (h : CalmCopy e.kept.tasksById) : CalmCopy e.tasks where
  creators := by
    refine creatorsDone_of_unmarked fun id t ht => ?_
    rw [← e.restored ht]
    rfl
  closed := by
    intro id t ht d hd
    rw [e.get_tasks, Option.map_eq_some_iff] at ht
    obtain ⟨t₀, ht₀, rfl⟩ := ht
    obtain ⟨dep, hdep⟩ := h.closed id t₀ ht₀ d hd
    exact ⟨dep.persisted, by rw [e.get_tasks, show e.kept.task? d = some dep from hdep]; rfl⟩

/-- Deriving keeps a copy calm. -/
theorem CalmCopy.derived {w : Uuid} {lo hi : Nat} {m m' : TaskMap} (h : CalmCopy m)
    (hrun : DerivedRun κ w lo hi m m') : CalmCopy m' :=
  ⟨DerivedRun.creatorsDone hrun h.creators, DerivedRun.dependenciesClosed hrun h.closed⟩

section Calm

variable {jobDef : JobDefinition} {g : Pedigree} {s s' : System} {w : Uuid} {job : Job}
  {purpose : Purpose} {version : String}

/-- What a reader of a calm version gets is calm. -/
theorem Calm.serves (hcalm : Calm s) {e : Entry} (he : e ∈ s.history)
    (hserves : s.history.Serves jobDef e job) : CalmCopy job.tasksById := by
  rcases hserves with rfl | ⟨e', he', -, -, rfl⟩
  · exact (hcalm.entries e he).tasks
  · exact hcalm.entries e' he'

/-- A copy derived from a loaded one holds every task of the version. -/
theorem keepsTasks_of_loaded {e : Entry} {job' : Job} (he : e ∈ s.history)
    (hloaded : LoadedFrom jobDef e job) (hframe : Frame job job')
    (hforward : ∀ id t, job.task? id = some t → ∃ t', job'.task? id = some t') :
    KeepsTasks s.history job' := by
  refine ⟨e, he, hloaded.iter.trans hframe.iterNum.symm, hloaded.version.trans hframe.version.symm,
    ?_⟩
  intro id t ht
  obtain ⟨t₀, ht₀, -⟩ := hloaded.exists_get ht
  exact hforward id t₀ ht₀

/-- A planned iteration has created nothing yet. -/
theorem calmCopy_of_planned {ids : List Uuid} (hdef : jobDef.WellFormed)
    (hplanned : job.Planned jobDef w ids) : CalmCopy job.tasksById where
  creators := by
    refine creatorsDone_of_unmarked fun id t ht => ?_
    obtain ⟨p, taskDef, resolved, -, -, -, hnew⟩ := hplanned.planned id t ht
    rw [hnew]
    rfl
  closed := hplanned.dependenciesClosed hdef

/-- A start of a loaded copy. -/
theorem CalmPhase.start {job' : Job} {m : TaskMap} {t t' : Task} {lo now : Nat}
    (hok : PhaseOk κ jobDef g s w (.loaded job)) (hcopy : CalmCopy job.tasksById)
    (hrun : DerivedRun κ w lo now job.tasksById m) (ht : m.get t.id = some t)
    (hstart : t.start w now = .ok t') (htasks : job'.tasksById = m.insert t')
    (hframe : Frame job job') : CalmPhase s.history w (.saving job' (.start t.id)) := by
  obtain ⟨hheld, e, he, hloaded⟩ := hok
  have hm := hcopy.derived hrun
  have hparent := (DerivedRun.fits hrun hheld.fits).parents t.id t ht
  have hmove : TaskMove w now t (.taken t.id) t' := .start hstart
  have hid : t'.id = t.id := hmove.kin.id
  refine ⟨⟨?_, ?_⟩, fun _ => keepsTasks_of_loaded he hloaded hframe ?_⟩
  · rw [htasks]
    exact hm.creators.start hparent ht hstart
  · rw [htasks]
    exact closed_insert hm.closed (hid.symm ▸ ht) hmove.kin.dependsOn
  · intro id u hu
    rw [Job.task?, htasks]
    exact (get_of_start hrun ht hstart).2 id u hu

/-- A start repeated on top of the state that won. -/
theorem CalmPhase.mergeStart {saved job' : Job} {taskId : Uuid} {stored workerTask : Task}
    {m : TaskMap} {first second : Nat}
    (hok : PhaseOk κ jobDef g s w (.merging job saved (.start taskId)))
    (hcopy : CalmCopy saved.tasksById)
    (hkeeps : creatorsConcluded (saved.tasks.map Task.id) (saved.takesStart job taskId) = true)
    (hstored : saved.task? taskId = some stored) (hworker : job.task? taskId = some workerTask)
    (hstarted : workerTask.status = .started)
    (hrun : DerivedRun κ w first second saved.tasksById m)
    (htasks : job'.tasksById = m.insert workerTask) (hframe : Frame saved job') :
    CalmPhase s.history w (.saving job' (.start taskId)) := by
  obtain ⟨hheld, -, -, hsaved, e, he, hloaded⟩ := hok
  have hm := hcopy.derived hrun
  have hid : workerTask.id = taskId := Job.id_of_task? hworker
  have hiter : saved.iterNum = job.iterNum :=
    sameIteration hheld.fits hsaved.fits hworker hstored
  obtain ⟨hmark, hnone⟩ := creatorsConcluded_start hkeeps hstored hworker hstarted
  obtain ⟨stored', hstored', hkin⟩ := DerivedRun.forward hrun taskId stored hstored
  have hm' : ∀ id t, m.get id = some t → ∃ t', (m.insert workerTask).get id = some t' := by
    intro id t ht
    rcases get_insert_cases m workerTask id with ⟨-, hself⟩ | ⟨-, hother⟩
    · exact ⟨workerTask, hself⟩
    · exact ⟨t, hother.trans ht⟩
  refine ⟨⟨?_, ?_⟩, fun _ => keepsTasks_of_loaded he hloaded hframe ?_⟩
  · rw [htasks]
    refine hm.creators.insert ?_ ?_ ?_
    · rw [hid]
      exact hheld.fits.parents taskId workerTask hworker
    · intro p hparent
      obtain ⟨c, hc, hconcluded⟩ := hmark p hparent
      exact ⟨c, DerivedRun.keeps_done hrun hc hconcluded.done, hconcluded⟩
    · intro id u hu hne
      obtain ⟨u₀, hu₀, hkin₀⟩ := DerivedRun.backward hrun id u hu
      rw [hkin₀.createdByTask, hid]
      exact hnone id u₀ hu₀ (hid ▸ hne)
  · rw [htasks]
    refine closed_insert hm.closed (hid.symm ▸ hstored') ?_
    rw [hkin.dependsOn, hheld.fits.deps taskId workerTask hworker,
      hsaved.fits.deps taskId stored hstored]
  · intro id u hu
    obtain ⟨u', hu', -⟩ := DerivedRun.forward hrun id u hu
    rw [Job.task?, htasks]
    exact hm' id u' hu'

/-- A result repeated on top of the state that won. -/
theorem CalmPhase.mergeResult {saved base job' : Job} {taskId : Uuid} {stored : Task} {now : Nat}
    (hok : PhaseOk κ jobDef g s w (.merging job saved (.result taskId)))
    (hcalm : CalmPhase s.history w (.merging job saved (.result taskId)))
    (hkeeps : creatorsConcluded ((saved.tasks ++ job.tasks).map Task.id)
      (saved.takesResult job w) = true)
    (hstored : saved.task? taskId = some stored)
    (htasks : base.tasksById = (saved.carryTasks job w).tasksById) (hframe : Frame saved base)
    (hfrom : Job.SettledFrom base w now job') :
    CalmPhase s.history w (.saving job' (.result taskId)) := by
  obtain ⟨hheld, -, ⟨-, t, ht⟩, hsaved, e, he, hloaded⟩ := hok
  obtain ⟨hjob, hcopy, hknows⟩ := hcalm
  have hiter : saved.iterNum = job.iterNum := sameIteration hheld.fits hsaved.fits ht hstored
  have hrun : DerivedRun κ w now now (saved.carryTasks job w).tasksById job'.tasksById :=
    htasks ▸ hfrom.run.relax
  have hcarry : CalmCopy (saved.carryTasks job w).tasksById :=
    ⟨creatorsDone_carry hkeeps, closed_carry hcopy.closed hjob.closed (hknows hiter)⟩
  refine ⟨hcarry.derived hrun,
    fun _ => keepsTasks_of_loaded he hloaded (hframe.trans hfrom.frame) ?_⟩
  intro id u hu
  obtain ⟨u₁, hu₁⟩ := carry_of_saved job w hu
  obtain ⟨u', hu', -⟩ := DerivedRun.forward hrun id u₁ hu₁
  exact ⟨u', hu'⟩

/-- A call of an execution's handle. -/
theorem Midway.serve {base : TaskMap} {job' : Job} {taskId : Uuid} {now : Nat}
    {call : HandleCall} (h : Midway base taskId job.tasksById)
    (hnew : ∀ id ∈ call.minted, job.task? id = none)
    (hserve : call.serve w taskId now job = (.ok (), job')) :
    Midway base taskId job'.tasksById ∧
      SteadyRun .shared w (call.touches taskId) now now job.tasksById job'.tasksById := by
  have hworked := HandleCall.serve_worked w taskId now hnew
  rw [hserve] at hworked
  cases call with
  | addTask taskDef mintedId =>
      obtain ⟨r, job₁, hadd, hpure⟩ := Mutation.bind_eq_ok.mp hserve
      cases hpure
      obtain ⟨-, hparent, -, resolved, hresolved, rfl⟩ := Job.addTask_eq_ok hadd
      have hadds : LocalStep w now job.tasksById (.added mintedId taskId)
          (job.setTask (.new mintedId w (some taskId) taskDef resolved)).tasksById :=
        .add (hnew mintedId (by simp [HandleCall.minted])) (Job.resolveCreated_eq_ok hresolved).2
      refine ⟨h.add hadds fun c hc => Job.not_failed_of_checkParent hparent hc,
        LocalRun.steady ?_ hworked.run⟩
      simp [HandleCall.touches]
  | completeTask id output => exact h.run (fun _ htouch => ⟨id, htouch⟩) hworked.run
  | failTask id errorMsg retry => exact h.run (fun _ htouch => ⟨id, htouch⟩) hworked.run
  | skipTaskBranch reason => exact h.run (fun _ htouch => ⟨taskId, htouch⟩) hworked.run
  | setNextStartAt nextStartAt => exact h.run (fun _ htouch => htouch.elim) hworked.run

/-- What an execution leaves once its outcome is recorded and the iteration settled. -/
theorem Midway.finish {base : TaskMap} {job₁ job' : Job} {taskId : Uuid}
    {outcome : ExecutorOutcome} {resolution : TaskResolution} {now settleAt : Nat}
    (h : Midway base taskId job.tasksById)
    (hparent : ∀ t, job.task? taskId = some t → t.createdByTask ≠ some taskId)
    (hresult : applyExecutorOutcome w taskId outcome now job = (.ok resolution, job₁))
    (hworked : Worked w (· = .resolved taskId) now job job₁)
    (hfrom : Job.SettledFrom job₁ w settleAt job') :
    Midway base taskId job₁.tasksById ∧ CalmCopy job'.tasksById := by
  obtain ⟨h₁, -⟩ := h.run (fun _ htouch => ⟨taskId, htouch⟩) hworked.run
  obtain ⟨t, ht, hresolution⟩ := applyExecutorOutcome_resolves hparent hresult
  have hcreators : CreatorsDone job₁.tasksById := by
    refine h₁.creatorsDone fun c hc hstarted => ?_
    rw [show job₁.tasksById.get taskId = some t from ht] at hc
    cases hc
    rw [Task.resolution, hstarted] at hresolution
    cases hresolution
  exact ⟨h₁, CalmCopy.derived ⟨hcreators, h₁.closed⟩ hfrom.run⟩

/-- Every move that keeps the creators done keeps what holds of its worker. -/
theorem Calm.moves (hdef : jobDef.WellFormed) (hinv : Inv κ jobDef g s) (hcalm : Calm s)
    {p p' : Phase} {action : WorkerAction} {ids : List Uuid} (hphase : (s.workers w).phase = p)
    (hkeeps : keepsCreators s (.move w action) = true)
    (hmoves : Moves κ jobDef s w p action p' ids) : CalmPhase s.history w p' := by
  have hok := hinv.workers w
  have hknows := hcalm.workers w
  rw [hphase] at hok hknows
  cases hmoves with
  | idle => trivial
  | missing _ => trivial
  | read hread hserves => exact hcalm.serves (current_mem (readable_current hread).1).1 hserves
  | create _ _ hplanned _ =>
      exact ⟨calmCopy_of_planned hdef hplanned, fun h => absurd hplanned.version h⟩
  | advance _ _ _ _ _ hplanned _ =>
      exact ⟨calmCopy_of_planned hdef hplanned, fun h => absurd hplanned.version h⟩
  | start _ hrun _ ht hstart htasks hframe _ =>
      exact CalmPhase.start hok hknows hrun ht hstart htasks hframe
  | settle _ hrun _ hframe _ _ _ _ =>
      obtain ⟨-, e, he, hloaded⟩ := hok
      refine ⟨hknows.derived hrun, fun _ => keepsTasks_of_loaded he hloaded hframe ?_⟩
      intro id t ht
      obtain ⟨t', ht', -⟩ := DerivedRun.forward hrun id t ht
      exact ⟨t', ht'⟩
  | refused => exact hknows
  | @reread job saved purpose n kept e hread hserves =>
      obtain ⟨hcurrent, hmem, hn, hloaded, -⟩ := read_loaded (w := w) hinv hread hserves
      refine ⟨hknows.1, hcalm.serves hmem hserves, ?_⟩
      intro hiter id t ht
      refine (hok.1.known id t ht).imp_left fun hstored => ?_
      rw [← hiter, ← hloaded.iter, hn] at hstored
      obtain ⟨t', ht'⟩ := hcalm.grows.current hcurrent hstored
      obtain ⟨t₀, ht₀, -⟩ := hloaded.exists_get ht'
      exact ⟨t₀, ht₀⟩
  | adopt _ => exact hknows.2.1
  | mergeStart _ _ hstored _ hworker hstarted _ hrun _ _ htasks hframe _ haccepts =>
      rw [keepsCreators_start hphase haccepts] at hkeeps
      exact CalmPhase.mergeStart hok hknows.2.1 hkeeps hstored hworker hstarted hrun htasks hframe
  | mergeResult _ _ _ hstored _ htasks hframe _ hfrom haccepts =>
      rw [keepsCreators_result hphase haccepts] at hkeeps
      exact CalmPhase.mergeResult hok hknows hkeeps hstored htasks hframe hfrom
  | call _ _ hfresh hserve =>
      obtain ⟨e, he, hiter, hversion, hunder⟩ := hknows
      have hframe := (call_worked hok.1 hfresh hserve).frame
      exact ⟨e, he, hiter.trans hframe.iterNum.symm, hversion.trans hframe.version.symm,
        (hunder.serve (hok.1.lacks_fresh hfresh) hserve).1⟩
  | callRefused => exact hknows
  | @finish job job₁ job' taskId _ _ _ _ _ _ _ hresult hworked hfrom =>
      obtain ⟨e, he, hiter, hversion, hunder⟩ := hknows
      obtain ⟨hunder₁, hcopy⟩ :=
        hunder.finish (hok.1.fits.parents taskId) hresult hworked hfrom
      have hframe := hworked.frame.trans hfrom.frame
      refine ⟨hcopy, fun _ => ⟨e, he, hiter.trans hframe.iterNum.symm,
        hversion.trans hframe.version.symm, ?_⟩⟩
      intro id t ht
      rw [e.get_tasks, Option.map_eq_some_iff] at ht
      obtain ⟨t₀, ht₀, -⟩ := ht
      obtain ⟨t₁, ht₁, -⟩ := hunder₁.grown.keeps id t₀ ht₀
      obtain ⟨t', ht', -⟩ := DerivedRun.forward hfrom.run id t₁ ht₁
      exact ⟨t', ht'⟩

theorem KeepsTasks.mono {h h' : History} (hsub : ∀ e ∈ h, e ∈ h') (hkeeps : KeepsTasks h job) :
    KeepsTasks h' job := by
  obtain ⟨e, he, hrest⟩ := hkeeps
  exact ⟨e, hsub e he, hrest⟩

/-- What holds of a worker survives the writes of others. -/
theorem CalmPhase.mono {h h' : History} {p : Phase} (hsub : ∀ e ∈ h, e ∈ h')
    (hcalm : CalmPhase h w p) : CalmPhase h' w p := by
  cases p with
  | idle => trivial
  | missing => trivial
  | loaded job => exact hcalm
  | executing job taskId =>
      obtain ⟨e, he, hrest⟩ := hcalm
      exact ⟨e, hsub e he, hrest⟩
  | saving job purpose => exact ⟨hcalm.1, fun h => (hcalm.2 h).mono hsub⟩
  | conflicted job purpose => exact ⟨hcalm.1, fun h => (hcalm.2 h).mono hsub⟩
  | merging job saved purpose => exact hcalm

/-- An accepted write of a calm copy keeps the tasks stored so far. -/
theorem GrowsOnly.put (hinv : Inv κ jobDef g s) (hgrows : GrowsOnly s.history)
    (haccepts : s.history.accepts job = true)
    (hkeeps : job.version ≠ "" → KeepsTasks s.history job) :
    GrowsOnly (.ofJob job version w purpose s.clock :: s.history) := by
  refine List.Pairwise.cons ?_ hgrows
  intro earlier hmem hiter id t ht
  obtain ⟨c, hc⟩ := current_of_mem hmem
  have hiter' : earlier.iterNum = job.iterNum := hiter.symm
  rw [hiter'] at hc
  obtain ⟨hversion, hcversion⟩ := accepts_current haccepts hc
  obtain ⟨hcmem, hciter⟩ := current_mem hc
  -- the copy rests on the current version, which holds what any earlier one held
  obtain ⟨e, he, heiter, heversion, hholds⟩ := hkeeps hversion
  have hstate : e.state = c.state := hinv.versions e he c hcmem (heiter.trans hciter.symm)
    (heversion.trans hcversion.symm)
  obtain ⟨t₁, ht₁⟩ := hgrows.current hc ⟨earlier, hmem, hiter', t, ht⟩
  have ht₂ : e.tasks.get id = some t₁ := by
    unfold Entry.tasks at ht₁ ⊢
    rwa [hstate]
  obtain ⟨t', ht'⟩ := hholds id t₁ ht₂
  exact ⟨t'.persisted, by rw [get_ofJob, ht']; rfl⟩

/-- Where an accepted write leaves its own worker. -/
theorem CalmPhase.afterPut (hinv : Inv κ jobDef g s)
    (hphase : (s.workers w).phase = .saving job purpose)
    (hcalm : CalmPhase s.history w (.saving job purpose)) (delivered : Bool) :
    CalmPhase (.ofJob job version w purpose s.clock :: s.history) w
      (afterPut job purpose version delivered) := by
  obtain ⟨hcopy, hkeeps⟩ := hcalm
  cases delivered with
  | false =>
      exact ⟨hcopy, fun h => (hkeeps h).mono fun e he => List.mem_cons_of_mem _ he⟩
  | true =>
      cases purpose with
      | create => exact hcopy
      | nextIteration readyAt => exact hcopy
      | start taskId =>
          have hok := hinv.workers w
          rw [hphase] at hok
          obtain ⟨-, -, -, -, t, ht, hstarted, howner⟩ := hok
          exact ⟨_, List.mem_cons_self .., rfl, rfl,
            .refl ⟨hcopy.creators, hcopy.closed, t, ht, hstarted, by simp [howner]⟩⟩
      | result taskId => trivial
      | settle => trivial

/-- The invariant survives every action that keeps the creators done. -/
theorem Calm.step (hdef : jobDef.WellFormed) (hinv : Inv κ jobDef g s) (hcalm : Calm s)
    {a : Action} (hkeeps : keepsCreators s a = true) (h : step κ jobDef s a = some s') :
    Calm s' := by
  rcases step_cases h with ⟨elapsed, rfl, rfl⟩ | ⟨w, action, phase, ids, rfl, hmoves, rfl⟩ |
    ⟨w, version, delivered, job, purpose, rfl, hphase, haccepts, hissue, rfl⟩
  · exact ⟨hcalm.entries, hcalm.grows, hcalm.workers⟩
  · refine ⟨hcalm.entries, hcalm.grows, ?_⟩
    intro w'
    by_cases hw : w' = w
    · subst hw
      rw [System.enter_self]
      exact hcalm.moves hdef hinv rfl hkeeps hmoves
    · rw [System.enter_of_ne _ _ _ _ hw]
      exact hcalm.workers w'
  · have hknows := hcalm.workers w
    rw [hphase] at hknows
    refine ⟨?_, hcalm.grows.put hinv haccepts hknows.2, ?_⟩
    · intro e he
      rcases List.mem_cons.mp he with rfl | he
      · exact hknows.1
      · exact hcalm.entries e he
    · intro w'
      by_cases hw : w' = w
      · subst hw
        rw [System.commit_self]
        exact CalmPhase.afterPut hinv hphase hknows delivered
      · rw [System.commit_of_ne _ _ _ _ hw]
        exact (hcalm.workers w').mono fun e he => List.mem_cons_of_mem _ he

end Calm

/-- The invariant rule for runs whose merges keep the creators done, for whatever such an
action keeps as long as the structural invariant holds and the copies are calm.  That the
admitted merges keep the creators done may rest on what is shown to hold. -/
theorem reachable_calm {jobDef : JobDefinition} {s : System}
    {admits : System → Action → Prop} {P : System → Prop} (hdef : jobDef.WellFormed)
    (hinit : P System.init)
    (hcreators : ∀ {g s a}, Inv κ jobDef g s → Calm s → P s → admits s a →
      keepsCreators s a = true)
    (hkeeps : ∀ {g s a s'}, Inv κ jobDef g s → Calm s → P s → admits s a →
      step κ jobDef s a = some s' → P s')
    (h : ReachableUnder (step κ jobDef) admits System.init s) :
    (∃ g, Inv κ jobDef g s) ∧ Calm s ∧ P s := by
  refine reachable_beside (P := fun s => Calm s ∧ P s) hdef ⟨calm_init, hinit⟩ ?_ h
  rintro g s a s' hinv ⟨hcalm, hP⟩ hadmits hstep
  exact ⟨hcalm.step hdef hinv (hcreators hinv hcalm hP hadmits) hstep,
    hkeeps hinv hcalm hP hadmits hstep⟩

end JobManager
