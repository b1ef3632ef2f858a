import JobManager.Core.Entry

/-!
# Settlement and pick-up, as runs of elementary steps

What a settlement and a pick-up do to the task map, what they assign to the job
beside it, and how each can end.

Main results:

- Theorem {lit}`trySettleIteration_end`: the four ways a settlement can end.
- Theorem {lit}`trySettleIteration_ne_deadlock`: over a closed, acyclic dependency
  graph a settlement never reports a deadlock.
- Theorem {lit}`pickTaskToExecute_end`: the ways a pick-up can end.
- Theorem {lit}`pickTaskToExecute_waiting_none`: at one clock reading, a pick-up that
  knows no moment to come back at has seen a task running.
-/

namespace JobManager

variable {κ : Clocks}

/-! ## What the unblocking leaves -/

namespace Release

variable {now : Nat} {m m' : TaskMap}

theorem get_eq_some (h : Release now m m') {id : Uuid} {t : Task} (ht : m.get id = some t) :
    m'.get id = some t ∨ (t.status = .blocked ∧ Satisfied m t now ∧
      m'.get id = some { t with status := .todo }) := by
  by_cases hhit : t.status = .blocked ∧ Satisfied m t now
  · exact Or.inr ⟨hhit.1, hhit.2, h.hit id t ht hhit.1 hhit.2⟩
  · left
    rw [h.kept id, ht]
    intro t₀ ht₀ hb₀ hsat
    rw [ht] at ht₀
    cases ht₀
    exact hhit ⟨hb₀, hsat⟩

/-- Any task the unblocking leaves that is not to do was there before it. -/
theorem get_of_ne_todo (h : Release now m m') {id : Uuid} {t : Task}
    (ht : m'.get id = some t) (hs : t.status ≠ .todo) :
    m.get id = some t ∧ (t.status = .blocked → ¬ Satisfied m t now) := by
  have hkept : ∀ t₀, m.get id = some t₀ → t₀.status = .blocked → ¬ Satisfied m t₀ now := by
    intro t₀ ht₀ hb₀ hsat
    rw [h.hit id t₀ ht₀ hb₀ hsat] at ht
    cases ht
    exact hs rfl
  have hsame := h.kept id hkept
  rw [ht] at hsame
  exact ⟨hsame.symm, hkept t hsame.symm⟩

end Release

/-- The cascade followed by the unblocking leaves nothing for either to do. -/
theorem settled_of_release {now : Nat} {m m' : TaskMap}
    (hreachable : ∀ id t, m.get id = some t → t.status = .blocked →
      ∀ cause, ¬ UnreachableFor m t now cause)
    (h : Release now m m') : Settled m' now := by
  have hdep : ∀ {t dep : Task} {d : Uuid}, m'.get d = some dep →
      t.judgeDependency dep now ≠ .blocked → m.get d = some dep := by
    intro t dep d hd hjudge
    refine (h.get_of_ne_todo hd ?_).1
    have hresolved := Task.isResolved_of_judgeDependency hjudge
    rw [Task.isResolved_eq_true] at hresolved
    rcases hresolved with hs | hs | ⟨c, hs⟩ <;> simp [hs]
  constructor
  · rintro id t ht hblocked cause ⟨d, hd, dep, hget, hjudge⟩
    have ht₀ := (h.get_of_ne_todo ht (by simp [hblocked])).1
    exact hreachable id t ht₀ hblocked cause
      ⟨d, hd, dep, hdep hget (t := t) (by simp [hjudge]), hjudge⟩
  · intro id t ht hblocked hsat
    refine (h.get_of_ne_todo ht (by simp [hblocked])).2 hblocked ?_
    intro d hd
    obtain ⟨dep, hget, hjudge⟩ := hsat d hd
    exact ⟨dep, hdep hget (t := t) (by simp [hjudge]), hjudge⟩

namespace Job

/-! ## How a settlement ends -/

/-- Whether something of the iteration runs or may still be picked up. -/
def isMoving (job : Job) (now : Nat) : Bool :=
  job.hasStartedTask || job.tasks.any (isStillComing · now)

/-- The ways a settlement can end, once it has derived the task map {lit}`m`. -/
inductive SettleEnd (w : Uuid) (now : Nat) (job : Job) (m : TaskMap) :
    Except JobError Bool × Job → Prop
  | moving : (job.withTasks m).isMoving now = true →
      SettleEnd w now job m (.ok false, job.withTasks m)
  | deadlock : (job.withTasks m).isMoving now = false →
      (job.withTasks m).allTasksResolved = false →
      SettleEnd w now job m
        (.error (.iterationDeadlock job.code (job.withTasks m).tasksAsString),
          job.withTasks m)
  | refused {e : JobError} : (job.withTasks m).isMoving now = false →
      (job.withTasks m).allTasksResolved = true →
      job.status.allows ((job.withTasks m).deriveIterationVerdict now).toStatus = false →
      e = .invalidStatusTransition job.status
        ((job.withTasks m).deriveIterationVerdict now).toStatus →
      SettleEnd w now job m (.error e, job.withTasks m)
  | closed : (job.withTasks m).isMoving now = false →
      (job.withTasks m).allTasksResolved = true →
      job.status.allows ((job.withTasks m).deriveIterationVerdict now).toStatus = true →
      SettleEnd w now job m (.ok true, { job.withTasks m with
        status := ((job.withTasks m).deriveIterationVerdict now).toStatus
        updatedByWorkerId := w
        completedAt := some now })

/-- The task map the cascade and the unblocking leave at {lit}`now`. -/
def DerivesState (now : Nat) (job : Job) (m : TaskMap) : Prop :=
  ∃ n m₁, skipUnreachableTasks now job = (.ok n, job.withTasks m₁) ∧
    unblockSatisfiedTasks now (job.withTasks m₁) = (.ok (), job.withTasks m)

/-- The cascade and the unblocking are never refused and leave nothing to derive. -/
theorem exists_derivesState (w : Uuid) (now : Nat) (job : Job) :
    ∃ m, DerivesState now job m ∧ DerivedRun .shared w now now job.tasksById m ∧
      Derives now job.tasksById m ∧ Settled m now := by
  obtain ⟨n, m₁, hskip, hrun₁, hgens, hreachable⟩ := skipUnreachableTasks_spec w now job
  obtain ⟨m, hunblock, hrun₂, hrelease⟩ := unblockSatisfiedTasks_spec w now (job.withTasks m₁)
  rw [withTasks_withTasks] at hunblock
  exact ⟨m, ⟨n, m₁, hskip, hunblock⟩, hrun₁.trans hrun₂, ⟨m₁, hgens, hreachable, hrelease⟩,
    settled_of_release hreachable hrelease⟩

/-- Once the state is derived, a settlement ends in one of four ways. -/
theorem DerivesState.settleEnd {now : Nat} {job : Job} {m : TaskMap}
    (h : DerivesState now job m) (w : Uuid) :
    SettleEnd w now job m (trySettleIteration w now job) := by
  obtain ⟨n, m₁, hskip, hunblock⟩ := h
  unfold trySettleIteration
  rw [Mutation.bind_apply, hskip]
  dsimp only
  rw [Mutation.bind_apply, hunblock]
  dsimp only
  rw [Mutation.current_bind_apply]
  split <;> rename_i hmoving
  · exact .moving hmoving
  · have hstill : (job.withTasks m).isMoving now = false := by simpa [isMoving] using hmoving
    split <;> rename_i hresolved
    · exact .deadlock hstill (by simpa using hresolved)
    · have hall : (job.withTasks m).allTasksResolved = true := by simpa using hresolved
      rw [Mutation.bind_apply, Mutation.ofExcept_apply, JobStatus.transitionTo,
        JobStatus.canTransitionTo, status_withTasks]
      cases hallows :
          job.status.allows ((job.withTasks m).deriveIterationVerdict now).toStatus with
      | true => exact .closed hstill hall hallows
      | false => exact .refused hstill hall hallows rfl

/-- A settlement derives what the state implies, and then ends in one of four ways. -/
theorem trySettleIteration_end (w : Uuid) (now : Nat) (job : Job) :
    ∃ m, DerivedRun .shared w now now job.tasksById m ∧ Derives now job.tasksById m ∧
      Settled m now ∧ SettleEnd w now job m (trySettleIteration w now job) := by
  obtain ⟨m, hstate, hrun, hderives, hsettled⟩ := exists_derivesState w now job
  exact ⟨m, hrun, hderives, hsettled, hstate.settleEnd w⟩

/-- When the verdict is a failure. -/
theorem deriveIterationVerdict_eq_failed {job : Job} {now : Nat} :
    job.deriveIterationVerdict now = .failed ↔
      (∃ id t, job.task? id = some t ∧ t.status = .skipped .failedDependency) ∨
      ∃ id t, job.task? id = some t ∧ t.isTerminallyFailedAt now = true ∧
        ∀ id' t', job.task? id' = some t' → handlesFailures t' = true → id ∉ t'.dependsOn := by
  have hcause : (job.tasks.any fun task => task.skipCause.any SkipCause.carriesFailure) = true ↔
      ∃ id t, job.task? id = some t ∧ t.status = .skipped .failedDependency := by
    rw [List.any_eq_true]
    constructor
    · rintro ⟨t, ht, hany⟩
      obtain ⟨cause, hcause, hcarries⟩ := (Option.any_eq_true _ _).mp hany
      cases cause <;> simp [SkipCause.carriesFailure] at hcarries
      exact ⟨t.id, t, mem_tasks_iff.mp ht, Task.skipCause_eq_some.mp hcause⟩
    · rintro ⟨id, t, ht, hs⟩
      refine ⟨t, mem_tasks_of_task? ht, ?_⟩
      rw [Task.skipCause_eq_some.mpr hs]
      rfl
  unfold deriveIterationVerdict
  split <;> rename_i hany
  · exact iff_of_true rfl (Or.inl (hcause.mp hany))
  · rw [or_iff_right fun h => hany (hcause.mpr h)]
    constructor
    · intro h
      dsimp only at h
      split at h <;> rename_i hempty
      · cases h
      · rw [List.isEmpty_iff] at hempty
        obtain ⟨id, hid⟩ := List.exists_mem_of_ne_nil _ hempty
        simp only [List.mem_filter, List.mem_map] at hid
        obtain ⟨⟨t, ⟨ht, hfailed⟩, rfl⟩, hnone⟩ := hid
        refine ⟨t.id, t, mem_tasks_iff.mp ht, hfailed, ?_⟩
        intro id' t' ht' hhandles hmem
        rw [Bool.not_eq_true', List.any_eq_false] at hnone
        exact hnone t' (mem_tasks_of_task? ht') (by simp [hhandles, hmem])
    · rintro ⟨id, t, ht, hfailed, hnone⟩
      rw [if_neg]
      rw [List.isEmpty_iff]
      refine List.ne_nil_of_mem (a := id) ?_
      simp only [List.mem_filter, List.mem_map]
      refine ⟨⟨t, ⟨mem_tasks_of_task? ht, hfailed⟩, id_of_task? ht⟩, ?_⟩
      rw [Bool.not_eq_true', List.any_eq_false]
      intro t' ht' hhandles
      rw [Bool.and_eq_true, List.contains_iff_mem] at hhandles
      exact hnone t'.id t' (mem_tasks_iff.mp ht') hhandles.1 hhandles.2

end Job

/-! ## No deadlock over a closed, acyclic graph -/

/-- Every dependency ranks below the task that waits for it. -/
def DependenciesRanked (rank : Uuid → Nat) (m : TaskMap) : Prop :=
  ∀ id t, m.get id = some t → ∀ d ∈ t.dependsOn, rank d < rank id

/-- Task {lit}`id` waits for {lit}`d`. -/
def DependsOn (m : TaskMap) (id d : Uuid) : Prop := ∃ t, m.get id = some t ∧ d ∈ t.dependsOn

/-- No task waits for itself, however indirectly. -/
def Acyclic (m : TaskMap) : Prop := ∀ id, ¬ Relation.TransGen (DependsOn m) id id

theorem rank_lt_of_transGen {rank : Uuid → Nat} {m : TaskMap} (hranked : DependenciesRanked rank m)
    {id d : Uuid} (h : Relation.TransGen (DependsOn m) id d) : rank d < rank id := by
  induction h with
  | single hd =>
      obtain ⟨t, ht, hd⟩ := hd
      exact hranked id t ht _ hd
  | tail _ hd ih =>
      obtain ⟨t, ht, hd⟩ := hd
      exact Nat.lt_trans (hranked _ t ht _ hd) ih

theorem acyclic_of_ranked {rank : Uuid → Nat} {m : TaskMap} (hranked : DependenciesRanked rank m) :
    Acyclic m := fun _ h => Nat.lt_irrefl _ (rank_lt_of_transGen hranked h)

/-- A closed graph without cycles can be ranked: by how many tasks each waits for. -/
theorem exists_ranked_of_acyclic {m : TaskMap} (hclosed : DependenciesClosed m)
    (hacyclic : Acyclic m) : ∃ rank, DependenciesRanked rank m := by
  classical
  refine ⟨fun id => (m.keys.toFinset.filter (Relation.TransGen (DependsOn m) id)).card, ?_⟩
  intro id t ht d hd
  have hedge : DependsOn m id d := ⟨t, ht, hd⟩
  refine Finset.card_lt_card (Finset.ssubset_iff_subset_ne.mpr ⟨?_, ?_⟩)
  · intro k hk
    rw [Finset.mem_filter] at hk ⊢
    exact ⟨hk.1, hk.2.head hedge⟩
  · intro heq
    have hmem : d ∈ m.keys.toFinset.filter (Relation.TransGen (DependsOn m) id) := by
      rw [Finset.mem_filter, List.mem_toFinset, KeyedMap.mem_keys_iff]
      exact ⟨hclosed id t ht d hd, .single hedge⟩
    rw [← heq, Finset.mem_filter] at hmem
    exact hacyclic d hmem.2

namespace Job

theorem isMoving_eq_false {job : Job} {now : Nat} :
    job.isMoving now = false ↔
      ∀ id t, job.task? id = some t → t.status ≠ .started ∧ isStillComing t now = false := by
  unfold isMoving hasStartedTask
  rw [Bool.or_eq_false_iff, List.any_eq_false, List.any_eq_false]
  constructor
  · rintro ⟨hstarted, hcoming⟩ id t ht
    have hmem := mem_tasks_of_task? ht
    exact ⟨by simpa [Task.isStarted] using hstarted t hmem, by simpa using hcoming t hmem⟩
  · intro h
    constructor
    · intro t ht
      simpa [Task.isStarted] using (h t.id t (mem_tasks_iff.mp ht)).1
    · intro t ht
      simpa using (h t.id t (mem_tasks_iff.mp ht)).2

theorem allTasksResolved_eq_true {job : Job} :
    job.allTasksResolved = true ↔
      (∃ id t, job.task? id = some t) ∧
        ∀ id t, job.task? id = some t → t.isResolved = true := by
  unfold allTasksResolved
  rw [Bool.and_eq_true, List.all_eq_true]
  refine and_congr ?_ ?_
  · cases hts : job.tasks with
    | nil =>
        simp only [List.isEmpty_nil, Bool.not_true, Bool.false_eq_true, false_iff]
        rintro ⟨id, t, ht⟩
        have := mem_tasks_of_task? ht
        simp [hts] at this
    | cons t ts =>
        simp only [List.isEmpty_cons, Bool.not_false, true_iff]
        exact ⟨t.id, t, mem_tasks_iff.mp (by simp [hts])⟩
  · constructor
    · intro h id t ht
      exact h t (mem_tasks_of_task? ht)
    · intro h t ht
      exact h t.id t (mem_tasks_iff.mp ht)

end Job

theorem isStillComing_of_todo {t : Task} {now : Nat} (h : t.status = .todo) :
    Job.isStillComing t now = true := by
  simp [Job.isStillComing, Task.checkAvailabilityAt, h]

/-- A failed task nobody is to pick up again is terminally failed. -/
theorem isTerminallyFailedAt_of_not_coming {t : Task} {now : Nat} (hs : t.status = .failed)
    (h : Job.isStillComing t now = false) : t.isTerminallyFailedAt now = true := by
  by_contra hterm
  rw [Bool.not_eq_true] at hterm
  unfold Job.isStillComing at h
  rcases Task.checkAvailabilityAt_of_failed hs hterm with hav | ⟨retryAt, hav⟩ <;>
    simp [hav] at h

/-- A resolved dependency that will not be picked up again has settled for every task
that waits for it, one way or the other. -/
theorem judgeDependency_of_resolved {t dep : Task} {now : Nat}
    (hresolved : dep.isResolved = true) (hcoming : Job.isStillComing dep now = false) :
    t.judgeDependency dep now ≠ .blocked := by
  rw [Task.isResolved_eq_true] at hresolved
  unfold Task.judgeDependency Task.isCompleted
  rcases hresolved with hs | hs | ⟨cause, hs⟩
  · simp [hs]
  · have hterm := isTerminallyFailedAt_of_not_coming hs hcoming
    simp only [hs, hterm]
    cases t.tolerance.allowsFailed <;> simp
  · have hterm : dep.isTerminallyFailedAt now = false := by
      simp [Task.isTerminallyFailedAt, Task.isFailed, hs]
    simp only [hs, hterm, Task.skipCause]
    cases t.tolerance.allowsSkipped <;> cases cause <;> simp [SkipCause.carriesFailure]

/-- Where nothing runs, nothing may be picked up and nothing is left to derive, every
task of a closed and acyclic graph is resolved. -/
theorem resolved_of_settled {m : TaskMap} {now : Nat} {rank : Uuid → Nat}
    (hsettled : Settled m now) (hclosed : DependenciesClosed m)
    (hranked : DependenciesRanked rank m)
    (hstill : ∀ id t, m.get id = some t →
      t.status ≠ .started ∧ Job.isStillComing t now = false) :
    ∀ id t, m.get id = some t → t.isResolved = true := by
  -- by induction on the rank: a blocked task of least rank waits for resolved tasks only
  suffices h : ∀ n id t, rank id = n → m.get id = some t → t.isResolved = true from
    fun id t ht => h (rank id) id t rfl ht
  intro n
  induction n using Nat.strong_induction_on with
  | _ n ih =>
      intro id t hrank ht
      obtain ⟨hstarted, hcoming⟩ := hstill id t ht
      rw [Task.isResolved_eq_true]
      cases hs : t.status with
      | completed => simp
      | failed => simp
      | skipped cause => simp
      | started => exact absurd hs hstarted
      | todo =>
          rw [isStillComing_of_todo hs] at hcoming
          cases hcoming
      | blocked =>
          exfalso
          refine hsettled.unsatisfied id t ht hs ?_
          intro d hd
          obtain ⟨dep, hdep⟩ := hclosed id t ht d hd
          have hlt : rank d < n := hrank ▸ hranked id t ht d hd
          have hjudge := judgeDependency_of_resolved (t := t) (ih _ hlt d dep rfl hdep)
            (hstill d dep hdep).2
          refine ⟨dep, hdep, ?_⟩
          cases hv : t.judgeDependency dep now with
          | unblocked => rfl
          | blocked => exact absurd hv hjudge
          | skipped cause =>
              exact absurd ⟨d, hd, dep, hdep, hv⟩ (hsettled.reachable id t ht hs cause)

namespace Job

/-- Over a closed, acyclic graph that holds a task, a settlement never reports a
deadlock. -/
theorem trySettleIteration_ne_deadlock (rank : Uuid → Nat) {w : Uuid} {now : Nat}
    {job job' : Job} {jobCode tasks : String}
    (hclosed : DependenciesClosed job.tasksById)
    (hranked : DependenciesRanked rank job.tasksById)
    (hnonempty : ∃ id t, job.task? id = some t) :
    trySettleIteration w now job ≠ (.error (.iterationDeadlock jobCode tasks), job') := by
  intro h
  obtain ⟨m, hrun, -, hsettled, hend⟩ := trySettleIteration_end w now job
  rw [h] at hend
  cases hend with
  | deadlock hmoving hresolved =>
      rw [isMoving_eq_false] at hmoving
      have hranked' : DependenciesRanked rank m := by
        intro id t ht d hd
        obtain ⟨t₀, ht₀, hkin⟩ := DerivedRun.backward hrun id t ht
        exact hranked id t₀ ht₀ d (hkin.dependsOn ▸ hd)
      have hall := resolved_of_settled hsettled (DerivedRun.dependenciesClosed hrun hclosed)
        hranked' hmoving
      obtain ⟨id, t, ht⟩ := hnonempty
      obtain ⟨t', ht', -⟩ := DerivedRun.forward hrun id t ht
      have hyes : (job.withTasks m).allTasksResolved = true :=
        allTasksResolved_eq_true.mpr ⟨⟨id, t', ht'⟩, hall⟩
      rw [hyes] at hresolved
      cases hresolved
  | refused _ _ _ he => cases he

/-! ## How a pick-up ends -/

/-- The readings of a pick-up are taken in order. -/
structure PickMoments.Ordered (κ : Clocks) (p : PickMoments) : Prop where
  work_le : κ.Before p.work p.lifetime
  lifetime_le : κ.Before p.lifetime p.firstLook
  firstLook_le : κ.Before p.firstLook p.settle
  settle_le : κ.Before p.settle p.secondLook
  secondLook_le : κ.Before p.secondLook p.retry

/-- The job a pick-up leaves: in work, over the task map it derived. -/
def inWork (job : Job) (m : TaskMap) (updatedBy : Uuid) (runningAt : Option Nat) : Job :=
  { job with
    tasksById := m, status := .running, updatedByWorkerId := updatedBy,
    runningAt := runningAt }

theorem findPickableTask_eq_some {job : Job} {visited : List Uuid} {now : Nat} {id : Uuid}
    (h : job.findPickableTask visited now = some id) :
    ∃ t, job.task? id = some t ∧ t.canBePickedUpAt now = true := by
  have hfound := List.find?_some h
  split at hfound
  · rename_i t ht
    exact ⟨t, ht, hfound⟩
  · cases hfound

/-- The ways a pick-up can end. -/
inductive PickEnd (κ : Clocks) (w : Uuid) (p : PickMoments) (job : Job) :
    Except JobError TaskPickup × Job → Prop
  | refused : job.isProcessed = true →
      PickEnd κ w p job (.error (.invalidStatusTransition job.status .running), job)
  | ready {m : TaskMap} {look : Nat} {updatedBy : Uuid} {runningAt : Option Nat} {t : Task} :
      job.isProcessed = false → DerivedRun κ w p.lifetime look job.tasksById m →
      κ.Before look p.secondLook → m.get t.id = some t → t.canBePickedUpAt look = true →
      PickEnd κ w p job (.ok (.ready t.id), job.inWork m updatedBy runningAt)
  | waiting {m : TaskMap} {updatedBy : Uuid} {runningAt : Option Nat} :
      job.isProcessed = false → DerivedRun κ w p.lifetime p.settle job.tasksById m →
      Settled m p.settle → (job.withTasks m).isMoving p.settle = true →
      (job.withTasks m).findPickableTask p.secondOrder p.secondLook = none →
      PickEnd κ w p job
        (.ok (.waiting ((job.withTasks m).findEarliestRetryAt p.retry)),
          job.inWork m updatedBy runningAt)
  | deadlock {m : TaskMap} {updatedBy : Uuid} {runningAt : Option Nat}
      {jobCode tasks : String} :
      job.isProcessed = false →
      (∃ m₁, DerivedRun κ w p.lifetime p.settle job.tasksById m₁ ∧
        trySettleIteration w p.settle (job.inWork m₁ updatedBy runningAt) =
          (.error (.iterationDeadlock jobCode tasks), job.inWork m updatedBy runningAt)) →
      PickEnd κ w p job
        (.error (.iterationDeadlock jobCode tasks), job.inWork m updatedBy runningAt)
  | settled {m : TaskMap} {runningAt : Option Nat} {status : JobStatus} :
      job.isProcessed = false → DerivedRun κ w p.lifetime p.settle job.tasksById m →
      (job.withTasks m).isMoving p.settle = false →
      (job.withTasks m).allTasksResolved = true → status = .completed ∨ status = .failed →
      PickEnd κ w p job (.ok .iterationSettled,
        { job.inWork m w runningAt with status := status, completedAt := some p.settle })

/-- A pick-up fails the outlived tasks, looks for work, settles and looks again. -/
theorem pickTaskToExecute_end (w : Uuid) {p : PickMoments} (hp : p.Ordered κ) (job : Job) :
    PickEnd κ w p job (pickTaskToExecute w p job) := by
  unfold pickTaskToExecute
  rw [Mutation.bind_apply]
  cases hprocessed : job.isProcessed with
  | true =>
      rw [ensureRunning_of_closed w p.work hprocessed]
      exact .refused hprocessed
  | false =>
      obtain ⟨job₁, hensure⟩ := ensureRunning_of_open w p.work hprocessed
      obtain ⟨-, -, updatedBy, runningAt, rfl⟩ := ensureRunning_eq_ok hensure
      rw [hensure]
      dsimp only
      obtain ⟨m₁, hfail, hrun₁, -⟩ := failTasksByLifetime_spec w p.lifetime
        (job.inWork job.tasksById updatedBy runningAt)
      have hfail' : failTasksByLifetime p.lifetime
          { job with status := .running, updatedByWorkerId := updatedBy, runningAt } =
          (.ok (), job.inWork m₁ updatedBy runningAt) := hfail
      rw [Mutation.bind_apply, hfail']
      dsimp only
      rw [Mutation.current_bind_apply]
      cases hfirst : (job.inWork m₁ updatedBy runningAt).findPickableTask p.firstOrder
          p.firstLook with
      | some id =>
          obtain ⟨t, ht, hpick⟩ := findPickableTask_eq_some hfirst
          obtain rfl := id_of_task? ht
          exact .ready hprocessed (hrun₁.relax.spread (refl_of κ.Before _) hp.lifetime_le)
            (trans_of κ.Before hp.firstLook_le hp.settle_le) ht hpick
      | none =>
          dsimp only
          rw [Mutation.bind_apply]
          obtain ⟨m, hrun₂, -, hsettled, hend⟩ := trySettleIteration_end w p.settle
            (job.inWork m₁ updatedBy runningAt)
          have hspan : κ.Before p.lifetime p.settle :=
            trans_of κ.Before hp.lifetime_le hp.firstLook_le
          have hrun : DerivedRun κ w p.lifetime p.settle job.tasksById m :=
            (hrun₁.relax.spread (refl_of κ.Before _) hspan).trans hrun₂.relax
          generalize hresult : trySettleIteration w p.settle
            (job.inWork m₁ updatedBy runningAt) = result at hend
          cases hend with
          | moving hmoving =>
              dsimp only
              rw [if_neg (by simp), Mutation.current_bind_apply]
              cases hsecond : (job.inWork m updatedBy runningAt).findPickableTask p.secondOrder
                  p.secondLook with
              | some id =>
                  obtain ⟨t, ht, hpick⟩ := findPickableTask_eq_some hsecond
                  obtain rfl := id_of_task? ht
                  rw [show ((job.inWork m₁ updatedBy runningAt).withTasks m).findPickableTask
                    p.secondOrder p.secondLook = some t.id from hsecond]
                  exact .ready hprocessed (hrun.spread (refl_of κ.Before _) hp.settle_le)
                    (refl_of κ.Before _) ht hpick
              | none =>
                  rw [show ((job.inWork m₁ updatedBy runningAt).withTasks m).findPickableTask
                    p.secondOrder p.secondLook = none from hsecond]
                  exact .waiting hprocessed hrun hsettled hmoving hsecond
          | deadlock _ _ =>
              exact .deadlock hprocessed
                ⟨m₁, hrun₁.relax.spread (refl_of κ.Before _) hspan, hresult⟩
          | refused _ _ hallows _ =>
              rw [show (job.inWork m₁ updatedBy runningAt).status = .running from rfl,
                JobStatus.running_allows_verdict] at hallows
              cases hallows
          | closed hmoving hresolved _ =>
              refine .settled hprocessed hrun hmoving hresolved ?_
              cases ((job.inWork m₁ updatedBy runningAt).withTasks
                m).deriveIterationVerdict p.settle <;> simp [IterationVerdict.toStatus]

/-- Over a closed, acyclic graph that holds a task, a pick-up never reports a
deadlock. -/
theorem pickTaskToExecute_ne_deadlock (rank : Uuid → Nat) {w : Uuid} {p : PickMoments}
    (hp : p.Ordered κ) {job job' : Job} {jobCode tasks : String}
    (hclosed : DependenciesClosed job.tasksById)
    (hranked : DependenciesRanked rank job.tasksById)
    (hnonempty : ∃ id t, job.task? id = some t) :
    pickTaskToExecute w p job ≠ (.error (.iterationDeadlock jobCode tasks), job') := by
  intro h
  have hend := pickTaskToExecute_end w hp job
  generalize hresult : pickTaskToExecute w p job = result at hend
  rw [hresult] at h
  cases hend with
  | refused _ => cases h
  | ready _ _ _ _ _ => cases h
  | waiting _ _ _ _ _ => cases h
  | settled _ _ _ _ _ => cases h
  | deadlock _ hsettle =>
      obtain ⟨m₁, hrun, hsettle⟩ := hsettle
      refine trySettleIteration_ne_deadlock rank ?_ ?_ ?_ hsettle
      · exact DerivedRun.dependenciesClosed hrun hclosed
      · intro id t ht d hd
        obtain ⟨t₀, ht₀, hkin⟩ := DerivedRun.backward hrun id t ht
        exact hranked id t₀ ht₀ d (hkin.dependsOn ▸ hd)
      · obtain ⟨id, t, ht⟩ := hnonempty
        obtain ⟨t', ht', -⟩ := DerivedRun.forward hrun id t ht
        exact ⟨id, t', ht'⟩

/-- And no such task may be started before it. -/
theorem findEarliestRetryAt_le {job : Job} {now retryAt : Nat} {id : Uuid} {t : Task}
    (ht : job.task? id = some t) (hawaits : t.checkAvailabilityAt now = .awaitingRetry retryAt) :
    ∃ first ≤ retryAt, job.findEarliestRetryAt now = some first := by
  rw [findEarliestRetryAt]
  generalize hmoments : (job.tasks.filterMap fun task => _) = moments
  have hmem : retryAt ∈ moments := by
    rw [← hmoments]
    exact List.mem_filterMap.mpr ⟨t, mem_tasks_of_task? ht, by simp only [hawaits]⟩
  cases hfirst : moments.min? with
  | none =>
      rw [List.min?_eq_none_iff.mp hfirst] at hmem
      cases hmem
  | some first => exact ⟨first, (List.min?_eq_some_iff.mp hfirst).2 _ hmem, rfl⟩

/-- The map is visited whole. -/
def Visits (order : List Uuid) (m : TaskMap) : Prop :=
  ∀ id t, m.get id = some t → id ∈ order

/-- At one clock reading, a pick-up that names no moment to come back at has seen a
task running. -/
theorem pickTaskToExecute_waiting_none {w : Uuid} {now : Nat} {order : List Uuid}
    {job job' : Job} (hvisits : Visits order job.tasksById)
    (h : pickTaskToExecute w (.at now order) job = (.ok (.waiting none), job')) :
    ∃ id t, job'.task? id = some t ∧ t.status = .started := by
  have hordered : (PickMoments.at now order).Ordered .shared := by
    constructor <;> exact Nat.le_refl now
  have hend := pickTaskToExecute_end w hordered job
  generalize hresult : pickTaskToExecute w (.at now order) job = result at hend
  rw [hresult] at h
  cases hend with
  | refused _ => cases h
  | ready _ _ _ _ _ => cases h
  | settled _ _ _ _ _ => cases h
  | deadlock _ _ => cases h
  | @waiting m updatedBy runningAt _ hrun _ hmoving hnone =>
      rw [Prod.mk.injEq, Except.ok.injEq, TaskPickup.waiting.injEq] at h
      obtain ⟨hretry, rfl⟩ := h
      by_contra hnot
      have hstarted : ∀ id t, m.get id = some t → t.status ≠ .started := by
        intro id t ht hs
        exact hnot ⟨id, t, ht, hs⟩
      refine absurd hmoving ?_
      rw [Bool.not_eq_true, isMoving_eq_false]
      intro id t ht
      refine ⟨hstarted id t ht, ?_⟩
      unfold isStillComing
      cases hav : t.checkAvailabilityAt now with
      | pickable =>
          obtain ⟨t₀, ht₀, -⟩ := DerivedRun.backward hrun id t ht
          have hseen := List.find?_eq_none.mp hnone id (hvisits id t₀ ht₀)
          rw [ht] at hseen
          have hpick : t.canBePickedUpAt now = true := by simp [Task.canBePickedUpAt, hav]
          exact absurd hpick hseen
      | awaitingRetry retryAt =>
          exfalso
          have hheld : (job.withTasks m).task? id = some t := ht
          obtain ⟨first, -, hfirst⟩ := findEarliestRetryAt_le hheld hav
          rw [show (job.withTasks m).findEarliestRetryAt now = none from hretry] at hfirst
          cases hfirst
      | expiredPastLifetime => simp [PickMoments.at, hav]
      | unavailable => simp [PickMoments.at, hav]

end Job

end JobManager
