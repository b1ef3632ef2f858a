import Mathlib.Data.Finset.Card
import JobManager.Core.Settle
import JobManager.Library.Transition

/-!
# What one worker does to its own copy

Every operation a worker performs on the copy of the iteration it holds is a
sequence of elementary assignments to the task map.  They are listed once, with
everything each of them requires, and every operation of the domain is shown to
be a run of them at non-decreasing moments; invariants are then proved about the
elementary steps alone.

Main results:

- Theorem {lit}`skipUnreachableTasks_spec`: the cascade never fails, puts out
  blocked tasks only and leaves none it could still put out.
- Theorem {lit}`unblockSatisfiedTasks_spec`: the unblocking releases exactly the blocked
  tasks whose dependencies are satisfied.
- Theorem {lit}`failTasksByLifetime_spec`: expiry fails exactly the running tasks that
  outlived their lifetime.
-/

namespace JobManager

/-- Every dependency of a task has settled in a way the task accepts. -/
def Satisfied (tasks : TaskMap) (t : Task) (now : Nat) : Prop :=
  ∀ d ∈ t.dependsOn, ∃ dep, tasks.get d = some dep ∧ t.judgeDependency dep now = .unblocked

/-- Some dependency of a task can no longer be satisfied, and hands down {lit}`cause`. -/
def UnreachableFor (tasks : TaskMap) (t : Task) (now : Nat) (cause : SkipCause) : Prop :=
  ∃ d ∈ t.dependsOn, ∃ dep, tasks.get d = some dep ∧
    t.judgeDependency dep now = .skipped cause

/-- No blocked task is left that the cascade would put out or the unblocking would
release. -/
structure Settled (tasks : TaskMap) (now : Nat) : Prop where
  reachable : ∀ id t, tasks.get id = some t → t.status = .blocked →
    ∀ cause, ¬ UnreachableFor tasks t now cause
  unsatisfied : ∀ id t, tasks.get id = some t → t.status = .blocked →
    ¬ Satisfied tasks t now

/-- One generation of the cascade: every blocked task with an unreachable dependency
is put out under the strongest cause the generation before it left, and nothing else
changes. -/
structure Generation (now : Nat) (m m' : TaskMap) : Prop where
  hit : ∀ id t, m.get id = some t → t.status = .blocked →
    (∃ cause, UnreachableFor m t now cause) →
    ∃ reason cause, m'.get id = some (t.skippedWith reason cause now) ∧
      UnreachableFor m t now cause ∧
      (UnreachableFor m t now .failedDependency → cause = .failedDependency)
  kept : ∀ id, (∀ t, m.get id = some t → t.status = .blocked →
    ∀ cause, ¬ UnreachableFor m t now cause) → m'.get id = m.get id

/-- The unblocking: every blocked task whose dependencies have settled the way it
accepts is released, and nothing else changes. -/
structure Release (now : Nat) (m m' : TaskMap) : Prop where
  hit : ∀ id t, m.get id = some t → t.status = .blocked → Satisfied m t now →
    m'.get id = some { t with status := .todo }
  kept : ∀ id, (∀ t, m.get id = some t → t.status = .blocked → ¬ Satisfied m t now) →
    m'.get id = m.get id

/-- The lifetime failures: every started task past its lifetime is failed, and nothing
else changes. -/
structure Outlived (now : Nat) (m m' : TaskMap) : Prop where
  hit : ∀ id t, m.get id = some t → t.status = .started →
    t.isLifetimeExpiredAt now = true →
    m'.get id =
      some (t.failedWith (Job.describeOutlivedLifetime t) .whileBudgetLasts now)
  kept : ∀ id, (∀ t, m.get id = some t → t.status = .started →
    t.isLifetimeExpiredAt now = false) → m'.get id = m.get id

/-- What a settlement derives: the cascade to its end, then the unblocking. -/
def Derives (now : Nat) (m m' : TaskMap) : Prop :=
  ∃ m₁, Relation.ReflTransGen (Generation now) m m₁ ∧
    (∀ id t, m₁.get id = some t → t.status = .blocked →
      ∀ cause, ¬ UnreachableFor m₁ t now cause) ∧ Release now m₁ m'

/-! ## Elementary steps -/

/-- What an elementary step is about: a fact the state implies on its own, a task
handed to the worker, a task the worker resolves, or a task it creates. -/
inductive Touch where
  | derived
  | taken (taskId : Uuid)
  | resolved (taskId : Uuid)
  | added (taskId parent : Uuid)
deriving DecidableEq

/-- One assignment worker {lit}`w` makes to its copy of the task map at {lit}`now`. -/
inductive LocalStep (w : Uuid) (now : Nat) (m : TaskMap) : Touch → TaskMap → Prop
  | outlive {t : Task} :
      m.get t.id = some t → t.status = .started → t.isLifetimeExpiredAt now = true →
      LocalStep w now m .derived
        (m.insert (t.failedWith (Job.describeOutlivedLifetime t) .whileBudgetLasts now))
  | putOut {t dep : Task} {d : Uuid} {cause : SkipCause} :
      m.get t.id = some t → t.status = .blocked → d ∈ t.dependsOn → m.get d = some dep →
      t.judgeDependency dep now = .skipped cause →
      LocalStep w now m .derived
        (m.insert (t.skippedWith s!"dependency '{d}' is unreachable" cause now))
  | release {t : Task} :
      m.get t.id = some t → t.status = .blocked → Satisfied m t now →
      LocalStep w now m .derived (m.insert { t with status := .todo })
  | start {t t' : Task} :
      m.get t.id = some t → t.start w now = .ok t' →
      LocalStep w now m (.taken t.id) (m.insert t')
  | complete {t : Task} {output : Bytes} :
      m.get t.id = some t → t.processingByWorker = none ∨ t.processingByWorker = some w →
      t.status = .started → t.isLifetimeExpiredAt now = false →
      LocalStep w now m (.resolved t.id) (m.insert (t.completedWith output now))
  | fail {t : Task} {errorMsg : String} {retry : TaskRetry} :
      m.get t.id = some t → t.processingByWorker = none ∨ t.processingByWorker = some w →
      t.status = .started →
      LocalStep w now m (.resolved t.id)
        ((m.insert (t.failedWith errorMsg retry now)).filter
          (·.createdByTask ≠ some t.id))
  | skip {t : Task} {reason : String} :
      m.get t.id = some t → t.processingByWorker = none ∨ t.processingByWorker = some w →
      (t.status = .started ∧ t.isLifetimeExpiredAt now = false) ∨ t.status = .blocked →
      LocalStep w now m (.resolved t.id)
        (m.insert (t.skippedWith reason .executorDecision now))
  | add {taskId parent : Uuid} {taskDef : TaskDefinition} {resolved : List Uuid} :
      m.get taskId = none → (∀ d ∈ resolved, ∃ dep, m.get d = some dep) →
      LocalStep w now m (.added taskId parent)
        (m.insert (Task.new taskId w (some parent) taskDef resolved))

/-- A run of elementary steps of worker {lit}`w`, each about something {lit}`touches`
admits, at moments from {lit}`lo` to {lit}`hi`. -/
def LocalRun (κ : Clocks) (w : Uuid) (touches : Touch → Prop) (lo hi : Nat) (m m' : TaskMap) :
    Prop :=
  TimedRun κ.Before (fun now m m' => ∃ touch, touches touch ∧ LocalStep w now m touch m') lo hi
    m m'

/-- A run of what the state implies on its own. -/
abbrev DerivedRun (κ : Clocks) (w : Uuid) (lo hi : Nat) (m m' : TaskMap) : Prop :=
  LocalRun κ w (· = .derived) lo hi m m'

namespace LocalRun

variable {κ : Clocks} {w : Uuid} {touches : Touch → Prop} {lo mid hi : Nat}
  {m m' m'' : TaskMap}

/-- Nothing happens between two readings. -/
theorem refl (h : κ.Before lo hi) : LocalRun κ w touches lo hi m m := TimedRun.refl h

/-- One step is a run. -/
theorem single {now : Nat} {touch : Touch} (ht : touches touch)
    (h : LocalStep w now m touch m') : LocalRun κ w touches now now m m' :=
  TimedRun.single ⟨touch, ht, h⟩

/-- Runs follow one another. -/
theorem trans (h₁ : LocalRun κ w touches lo mid m m') (h₂ : LocalRun κ w touches mid hi m' m'') :
    LocalRun κ w touches lo hi m m'' := TimedRun.trans h₁ h₂

/-- A run may be taken to span more time. -/
theorem spread {lo' hi' : Nat} (hlo : κ.Before lo' lo) (hhi : κ.Before hi hi')
    (h : LocalRun κ w touches lo hi m m') : LocalRun κ w touches lo' hi' m m' :=
  TimedRun.earlier hlo (TimedRun.widen h hhi)

theorem widen {touches' : Touch → Prop} (hsub : ∀ touch, touches touch → touches' touch)
    (h : LocalRun κ w touches lo hi m m') : LocalRun κ w touches' lo hi m m' :=
  TimedRun.weaken (fun _ _ _ ⟨touch, ht, hs⟩ => ⟨touch, hsub touch ht, hs⟩) h

/-- A run on one clock is a run whatever the clocks. -/
theorem relax (h : LocalRun .shared w touches lo hi m m') : LocalRun κ w touches lo hi m m' :=
  TimedRun.relax (fun _ _ => Clocks.before_of_le) h

end LocalRun

/-- What a pick-up touches: what the state implies, and the task it takes. -/
def Touch.IsPickup (touch : Touch) : Prop := touch = .derived ∨ ∃ id, touch = .taken id

/-- A pick-up and the start that follows it are one run. -/
theorem localRun_of_start {κ : Clocks} {w : Uuid} {lo now : Nat} {m m₁ m' : TaskMap} {t t' : Task}
    (hrun : DerivedRun κ w lo now m m₁) (ht : m₁.get t.id = some t)
    (hstart : t.start w now = .ok t') (htasks : m' = m₁.insert t') :
    LocalRun κ w Touch.IsPickup lo now m m' := by
  rw [htasks]
  exact (hrun.widen fun _ h => Or.inl h).trans
    (LocalRun.single (Or.inr ⟨t.id, rfl⟩) (.start ht hstart))

namespace Job

/-! ## Updating several tasks in turn -/

/-- Updates of distinct tasks, each accepted on the job they begin with, are all
accepted; each lands, nothing else changes, and the whole is a run of whatever
steps the single updates are. -/
theorem updateEach_spec {ι : Type} (taskId : ι → Uuid) (f : ι → Task → Except JobError Task)
    (step : Nat → TaskMap → TaskMap → Prop) (now : Nat) (items : List ι) (job : Job)
    (hnodup : (items.map taskId).Nodup)
    (haccepted : ∀ i ∈ items, ∃ t t', job.task? (taskId i) = some t ∧ f i t = .ok t' ∧
      t'.id = t.id)
    (hstep : ∀ i ∈ items, ∀ t t' (m : TaskMap), job.task? (taskId i) = some t →
      f i t = .ok t' → m.get (taskId i) = some t →
      (∀ k, k ∉ items.map taskId → m.get k = job.task? k) → step now m (m.insert t')) :
    ∃ m', updateEach taskId f items job = (.ok (), job.withTasks m') ∧
      TimedRun (· ≤ ·) step now now job.tasksById m' ∧
      (∀ i ∈ items, ∀ t t', job.task? (taskId i) = some t → f i t = .ok t' →
        m'.get (taskId i) = some t') ∧
      (∀ k, k ∉ items.map taskId → m'.get k = job.task? k) := by
  induction items generalizing job with
  | nil =>
      exact ⟨job.tasksById, rfl, .refl (Nat.le_refl now), by simp, fun _ _ => rfl⟩
  | cons i items ih =>
      obtain ⟨t, t', ht, ht', hid⟩ := haccepted i (by simp)
      have hkey : t'.id = taskId i := hid.trans (id_of_task? ht)
      rw [List.map_cons, List.nodup_cons] at hnodup
      have hother : ∀ j ∈ items, (job.setTask t').task? (taskId j) = job.task? (taskId j) := by
        intro j hj
        refine task?_setTask_of_ne ?_
        rw [hkey]
        intro heq
        exact hnodup.1 (heq ▸ List.mem_map_of_mem hj)
      obtain ⟨m', hrun, hsteps, hlanded, hkept⟩ := ih (job.setTask t') hnodup.2
        (by
          intro j hj
          rw [hother j hj]
          exact haccepted j (by simp [hj]))
        (by
          intro j hj u u' m hu hu' hm hagree
          rw [hother j hj] at hu
          refine hstep j (by simp [hj]) u u' m hu hu' hm ?_
          intro k hk
          rw [List.map_cons, List.mem_cons, not_or] at hk
          rw [hagree k hk.2, task?_setTask_of_ne (by rw [hkey]; exact fun h => hk.1 h.symm)])
      have hhead : m'.get (taskId i) = some t' := by
        rw [hkept _ hnodup.1, ← hkey, task?_setTask_self]
      refine ⟨m', ?_, ?_, ?_, ?_⟩
      · rw [updateEach, Mutation.bind_apply, (updateTask_eq_ok (u := ())).mpr ⟨t, t', ht, ht', rfl⟩]
        exact hrun
      · refine TimedRun.trans (TimedRun.single ?_) hsteps
        exact hstep i (by simp) t t' job.tasksById ht ht' ht (fun _ _ => rfl)
      · intro j hj u u' hu hu'
        rcases List.mem_cons.mp hj with rfl | hj
        · rw [ht] at hu
          cases hu
          rw [ht'] at hu'
          cases hu'
          exact hhead
        · exact hlanded j hj u u' (by rw [hother j hj]; exact hu) hu'
      · intro k hk
        rw [List.map_cons, List.mem_cons, not_or] at hk
        rw [hkept k hk.2, task?_setTask_of_ne (by rw [hkey]; exact fun h => hk.1 h.symm)]

/-! ## The cascade -/

/-- Nothing is chosen of nothing only. -/
theorem maxByCarriesFailure_eq_none {us : List UnreachableTask} :
    maxByCarriesFailure us = none ↔ us = [] := by
  cases us with
  | nil => simp [maxByCarriesFailure]
  | cons u us =>
      simp only [maxByCarriesFailure, reduceCtorEq, iff_false]
      split
      · simp
      · split <;> simp

/-- The candidate chosen is one of those given, and carries a failure if any does. -/
theorem maxByCarriesFailure_eq_some {us : List UnreachableTask} {best : UnreachableTask}
    (h : maxByCarriesFailure us = some best) :
    best ∈ us ∧ ∀ u ∈ us, u.cause.carriesFailure = true → best.cause.carriesFailure = true := by
  induction us generalizing best with
  | nil => simp [maxByCarriesFailure] at h
  | cons u us ih =>
      rw [maxByCarriesFailure] at h
      split at h
      · rename_i hnone
        rw [maxByCarriesFailure_eq_none] at hnone
        subst hnone
        cases h
        simp
      · rename_i best' hbest
        obtain ⟨hmem, hstrong⟩ := ih hbest
        split at h <;> rename_i hcause <;> cases h
        · refine ⟨by simp, ?_⟩
          intro v hv hfailure
          simp_all
        · refine ⟨by simp [hmem], ?_⟩
          intro v hv hfailure
          rcases List.mem_cons.mp hv with rfl | hv
          · simpa [hfailure] using hcause
          · exact hstrong v hv hfailure

/-- What makes a task unreachable, read off the list of its dependencies. -/
theorem mem_unreachableDependencies {job : Job} {task : Task} {now : Nat}
    {u : UnreachableTask} :
    u ∈ (task.dependsOn.filterMap fun dependencyId =>
      match job.task? dependencyId with
      | none => none
      | some dependency =>
          match task.judgeDependency dependency now with
          | .skipped cause => some (⟨task.id, cause, dependencyId⟩ : UnreachableTask)
          | .unblocked | .blocked => none) ↔
      u.taskId = task.id ∧ u.dependencyId ∈ task.dependsOn ∧
        ∃ dep, job.task? u.dependencyId = some dep ∧
          task.judgeDependency dep now = .skipped u.cause := by
  rw [List.mem_filterMap]
  constructor
  · rintro ⟨d, hd, h⟩
    split at h
    · cases h
    · rename_i dep hdep
      split at h
      · rename_i cause hjudge
        cases h
        exact ⟨rfl, hd, dep, hdep, hjudge⟩
      · cases h
      · cases h
  · rintro ⟨hid, hd, dep, hdep, hjudge⟩
    refine ⟨u.dependencyId, hd, ?_⟩
    simp only [hdep, hjudge, ← hid]

/-- The dependency found puts the task out, for a failure if any does. -/
theorem findUnreachableDependencyOf_eq_some {job : Job} {task : Task} {now : Nat}
    {u : UnreachableTask} (h : job.findUnreachableDependencyOf task now = some u) :
    u.taskId = task.id ∧ u.dependencyId ∈ task.dependsOn ∧
      (∃ dep, job.task? u.dependencyId = some dep ∧
        task.judgeDependency dep now = .skipped u.cause) ∧
      (UnreachableFor job.tasksById task now .failedDependency →
        u.cause = .failedDependency) := by
  unfold findUnreachableDependencyOf at h
  obtain ⟨hmem, hstrong⟩ := maxByCarriesFailure_eq_some h
  obtain ⟨hid, hd, dep, hdep, hjudge⟩ := mem_unreachableDependencies.mp hmem
  refine ⟨hid, hd, ⟨dep, hdep, hjudge⟩, ?_⟩
  rintro ⟨d, hd', dep', hdep', hjudge'⟩
  have hcause := hstrong ⟨task.id, .failedDependency, d⟩
    (mem_unreachableDependencies.mpr ⟨rfl, hd', dep', hdep', hjudge'⟩) rfl
  cases hu : u.cause <;> simp_all [SkipCause.carriesFailure]

/-- None is found where none puts the task out. -/
theorem findUnreachableDependencyOf_eq_none {job : Job} {task : Task} {now : Nat} :
    job.findUnreachableDependencyOf task now = none ↔
      ∀ cause, ¬ UnreachableFor job.tasksById task now cause := by
  unfold findUnreachableDependencyOf
  rw [maxByCarriesFailure_eq_none, List.eq_nil_iff_forall_not_mem]
  constructor
  · rintro h cause ⟨d, hd, dep, hdep, hjudge⟩
    exact h ⟨task.id, cause, d⟩
      (mem_unreachableDependencies.mpr ⟨rfl, hd, dep, hdep, hjudge⟩)
  · intro h u hu
    obtain ⟨-, hd, dep, hdep, hjudge⟩ := mem_unreachableDependencies.mp hu
    exact h u.cause ⟨u.dependencyId, hd, dep, hdep, hjudge⟩

/-- Values that name the element they were made from come in the order of the
elements, each at most once. -/
theorem map_filterMap_sublist {α β κ : Type} {f : α → Option β} {g : β → κ} {k : α → κ}
    (h : ∀ a b, f a = some b → g b = k a) (l : List α) :
    ((l.filterMap f).map g).Sublist (l.map k) := by
  induction l with
  | nil => simp
  | cons a l ih =>
      cases hf : f a with
      | none => simpa [hf] using ih.cons (k a)
      | some b => simpa [hf, h a b hf] using ih

/-- The list names exactly the blocked tasks with an unreachable dependency, each once
and with what the scan of its dependencies answers. -/
structure ListsUnreachable (job : Job) (now : Nat) (us : List UnreachableTask) : Prop where
  nodup : (us.map UnreachableTask.taskId).Nodup
  sound : ∀ u ∈ us, ∃ t, job.task? u.taskId = some t ∧ t.status = .blocked ∧
    job.findUnreachableDependencyOf t now = some u
  complete : ∀ id t, job.task? id = some t → t.status = .blocked →
    (∃ cause, UnreachableFor job.tasksById t now cause) → id ∈ us.map UnreachableTask.taskId

/-- And one is found where some does. -/
theorem findUnreachableDependencyOf_isSome {job : Job} {task : Task} {now : Nat}
    (h : ∃ cause, UnreachableFor job.tasksById task now cause) :
    ∃ u, job.findUnreachableDependencyOf task now = some u := by
  obtain ⟨cause, hcause⟩ := h
  cases hfind : job.findUnreachableDependencyOf task now with
  | none => exact absurd hcause (findUnreachableDependencyOf_eq_none.mp hfind cause)
  | some u => exact ⟨u, rfl⟩

/-- The tasks found are the blocked ones that something puts out. -/
theorem findUnreachableTasks_lists (job : Job) (now : Nat) :
    job.ListsUnreachable now (job.findUnreachableTasks now) where
  nodup := by
    have hids : ((job.tasks.filter Task.isBlocked).map Task.id).Nodup :=
      job.tasksById.nodup.sublist (List.filter_sublist.map Task.id)
    refine hids.sublist (map_filterMap_sublist ?_ _)
    intro t u hfind
    exact (findUnreachableDependencyOf_eq_some hfind).1
  sound := by
    intro u hu
    obtain ⟨t, ht, hfind⟩ := List.mem_filterMap.mp hu
    obtain ⟨hmem, hblocked⟩ := List.mem_filter.mp ht
    refine ⟨t, ?_, by simpa [Task.isBlocked] using hblocked, hfind⟩
    rw [(findUnreachableDependencyOf_eq_some hfind).1]
    exact mem_tasks_iff.mp hmem
  complete := by
    intro id t ht hblocked hunreachable
    obtain ⟨u, hu⟩ := findUnreachableDependencyOf_isSome hunreachable
    refine List.mem_map.mpr ⟨u, List.mem_filterMap.mpr ⟨t, List.mem_filter.mpr
      ⟨mem_tasks_of_task? ht, by simp [Task.isBlocked, hblocked]⟩, hu⟩, ?_⟩
    rw [(findUnreachableDependencyOf_eq_some hu).1, id_of_task? ht]

/-- A dependency that settled is not blocked itself. -/
theorem not_blocked_of_judge {t dep : Task} {now : Nat} {verdict : DependencyVerdict}
    (h : t.judgeDependency dep now = verdict) (hverdict : verdict ≠ .blocked) :
    dep.status ≠ .blocked := by
  intro hblocked
  have hresolved := Task.isResolved_of_judgeDependency (h ▸ hverdict)
  simp [Task.isResolved_eq_true, hblocked] at hresolved

/-- Putting out a generation is never refused. -/
theorem skipGeneration_spec {job : Job} {now : Nat} {us : List UnreachableTask} (w : Uuid)
    (hlist : job.ListsUnreachable now us) :
    ∃ m', skipGeneration now us job = (.ok (), job.withTasks m') ∧
      DerivedRun .shared w now now job.tasksById m' ∧ Generation now job.tasksById m' := by
  have hblockedOf : ∀ u ∈ us, ∀ t, job.task? u.taskId = some t → t.status = .blocked := by
    intro u hu t ht
    obtain ⟨t', ht', hblocked, -⟩ := hlist.sound u hu
    rw [ht] at ht'
    cases ht'
    exact hblocked
  obtain ⟨m', hrun, hsteps, hlanded, hkept⟩ := updateEach_spec UnreachableTask.taskId
    (fun u task => task.skip s!"dependency '{u.dependencyId}' is unreachable" u.cause now)
    (fun now m m' => ∃ touch, touch = Touch.derived ∧ LocalStep w now m touch m') now
    us job hlist.nodup
    (by
      intro u hu
      obtain ⟨t, ht, hblocked, -⟩ := hlist.sound u hu
      exact ⟨t, _, ht, Task.skip_eq_ok.mpr ⟨Or.inr hblocked, rfl⟩, rfl⟩)
    (by
      intro u hu t t' m ht ht' hm hagree
      obtain ⟨-, rfl⟩ := Task.skip_eq_ok.mp ht'
      obtain ⟨t₀, ht₀, hblocked, hfind⟩ := hlist.sound u hu
      rw [ht] at ht₀
      cases ht₀
      obtain ⟨hid, hd, ⟨dep, hdep, hjudge⟩, -⟩ := findUnreachableDependencyOf_eq_some hfind
      have hdep' : u.dependencyId ∉ us.map UnreachableTask.taskId := by
        intro hmem
        obtain ⟨v, hv, hveq⟩ := List.mem_map.mp hmem
        exact not_blocked_of_judge hjudge (by simp) (hblockedOf v hv dep (hveq ▸ hdep))
      refine ⟨.derived, rfl, .putOut (hid ▸ hm) hblocked hd ?_ hjudge⟩
      rw [hagree _ hdep', hdep])
  refine ⟨m', hrun, hsteps, ?_, ?_⟩
  · intro id t ht hblocked hunreachable
    obtain ⟨u, hu, rfl⟩ := List.mem_map.mp (hlist.complete id t ht hblocked hunreachable)
    obtain ⟨t₀, ht₀, -, hfind⟩ := hlist.sound u hu
    rw [show job.task? u.taskId = some t from ht] at ht₀
    cases ht₀
    obtain ⟨-, hd, ⟨dep, hdep, hjudge⟩, hstrong⟩ := findUnreachableDependencyOf_eq_some hfind
    exact ⟨_, u.cause, hlanded u hu t _ ht (Task.skip_eq_ok.mpr ⟨Or.inr hblocked, rfl⟩),
      ⟨u.dependencyId, hd, dep, hdep, hjudge⟩, hstrong⟩
  · intro id hreachable
    refine hkept id ?_
    intro hmem
    obtain ⟨u, hu, rfl⟩ := List.mem_map.mp hmem
    obtain ⟨t, ht, hblocked, hfind⟩ := hlist.sound u hu
    obtain ⟨-, hd, ⟨dep, hdep, hjudge⟩, -⟩ := findUnreachableDependencyOf_eq_some hfind
    exact hreachable t ht hblocked u.cause ⟨u.dependencyId, hd, dep, hdep, hjudge⟩

end Job

namespace Generation

variable {now : Nat} {m m' : TaskMap}

/-- A task blocked after a generation was blocked before it, and unchanged by it. -/
theorem get_of_blocked (h : Generation now m m') {id : Uuid} {t : Task}
    (ht : m'.get id = some t) (hblocked : t.status = .blocked) : m.get id = some t := by
  by_cases hhit : ∃ t₀, m.get id = some t₀ ∧ t₀.status = .blocked ∧
      ∃ cause, UnreachableFor m t₀ now cause
  · obtain ⟨t₀, ht₀, hb₀, hunreachable⟩ := hhit
    obtain ⟨reason, cause, hskipped, -⟩ := h.hit id t₀ ht₀ hb₀ hunreachable
    rw [ht] at hskipped
    cases hskipped
    cases hblocked
  · rw [← h.kept id, ht]
    intro t₀ ht₀ hb₀ cause hcause
    exact hhit ⟨t₀, ht₀, hb₀, cause, hcause⟩

/-- What a task depends on survives a generation. -/
theorem get_eq_some (h : Generation now m m') {id : Uuid} {t : Task}
    (ht : m.get id = some t) :
    m'.get id = some t ∨ (t.status = .blocked ∧ (∃ cause, UnreachableFor m t now cause) ∧
      ∃ reason cause, m'.get id = some (t.skippedWith reason cause now)) := by
  by_cases hhit : t.status = .blocked ∧ ∃ cause, UnreachableFor m t now cause
  · obtain ⟨reason, cause, hskipped, -⟩ := h.hit id t ht hhit.1 hhit.2
    exact Or.inr ⟨hhit.1, hhit.2, reason, cause, hskipped⟩
  · left
    rw [h.kept id, ht]
    intro t₀ ht₀ hb₀ cause hcause
    rw [ht] at ht₀
    cases ht₀
    exact hhit ⟨hb₀, cause, hcause⟩

theorem get_isSome_iff (h : Generation now m m') (id : Uuid) :
    (m'.get id).isSome ↔ (m.get id).isSome := by
  cases ht : m.get id with
  | some t =>
      rcases h.get_eq_some ht with h' | ⟨-, -, _, _, h'⟩ <;> simp [h']
  | none =>
      rw [h.kept id, ht]
      intro t ht'
      rw [ht] at ht'
      cases ht'

end Generation

/-- Identifiers of the blocked tasks. -/
def blockedIds (m : TaskMap) : Finset Uuid :=
  m.keys.toFinset.filter fun id => ∃ t, m.get id = some t ∧ t.status = .blocked

/-- The blocked identifiers are those of blocked tasks. -/
theorem mem_blockedIds {m : TaskMap} {id : Uuid} :
    id ∈ blockedIds m ↔ ∃ t, m.get id = some t ∧ t.status = .blocked := by
  unfold blockedIds
  rw [Finset.mem_filter, List.mem_toFinset, KeyedMap.mem_keys_iff]
  constructor
  · exact fun h => h.2
  · rintro ⟨t, ht, hb⟩
    exact ⟨by simp [ht], t, ht, hb⟩

namespace Job

/-- What was blocked when the cascade began is found through the index of dependents. -/
def IndexesDependents (job : Job) (dependents : Uuid → List Uuid) : Prop :=
  ∀ id t, job.task? id = some t → t.status = .blocked → ∀ d ∈ t.dependsOn, id ∈ dependents d

/-- The index holds who waits for whom. -/
theorem indexBlockedDependents_indexes (job : Job) :
    job.IndexesDependents job.indexBlockedDependents := by
  intro id t ht hblocked d hd
  refine List.mem_flatMap.mpr ⟨t, List.mem_filter.mpr ⟨mem_tasks_of_task? ht, ?_⟩, ?_⟩
  · simp [Task.isBlocked, hblocked]
  · refine List.mem_map.mpr ⟨d, List.mem_filter.mpr ⟨hd, by simp⟩, id_of_task? ht⟩

/-- A task a generation newly made unreachable depends on a task that generation put
out, so the next generation is found among the dependents of the last. -/
theorem nextGeneration_lists {job : Job} {now : Nat} {us : List UnreachableTask}
    {dependents : Uuid → List Uuid} {m' : TaskMap} (hlist : job.ListsUnreachable now us)
    (hindex : job.IndexesDependents dependents) (hgen : Generation now job.tasksById m') :
    (job.withTasks m').ListsUnreachable now
      ((job.withTasks m').nextGeneration dependents us now) where
  nodup := by
    unfold nextGeneration
    dsimp only
    refine List.Nodup.sublist (map_filterMap_sublist (k := fun id => id) ?_ _) ?_
    · intro id u hu
      split at hu
      · rename_i t ht
        rw [(findUnreachableDependencyOf_eq_some hu).1, id_of_task? ht]
      · cases hu
    · rw [List.map_id']
      exact (List.nodup_dedup _).sublist List.filter_sublist
  sound := by
    intro u hu
    obtain ⟨id, hid, hfind⟩ := List.mem_filterMap.mp hu
    have hblocked := (List.mem_filter.mp hid).2
    split at hfind
    · rename_i t ht
      simp only [ht, Task.isBlocked, decide_eq_true_eq] at hblocked
      refine ⟨t, ?_, hblocked, hfind⟩
      rw [(findUnreachableDependencyOf_eq_some hfind).1, id_of_task? ht, ht]
    · cases hfind
  complete := by
    intro id t ht hblocked hunreachable
    have ht₀ : job.task? id = some t := hgen.get_of_blocked ht hblocked
    have hkept : ∀ cause, ¬ UnreachableFor job.tasksById t now cause := by
      intro cause hcause
      obtain ⟨reason, cause', hskipped, -⟩ := hgen.hit id t ht₀ hblocked ⟨cause, hcause⟩
      rw [show m'.get id = some t from ht] at hskipped
      have hs := congrArg (Option.map Task.status) hskipped
      simp [Task.skippedWith, hblocked] at hs
    obtain ⟨u, hu⟩ := findUnreachableDependencyOf_isSome hunreachable
    obtain ⟨huid, hd, ⟨dep, hdep, hjudge⟩, -⟩ := findUnreachableDependencyOf_eq_some hu
    -- the dependency that put the task out changed, so the generation put it out
    have hput : u.dependencyId ∈ us.map UnreachableTask.taskId := by
      by_contra hnot
      have hsame : m'.get u.dependencyId = job.tasksById.get u.dependencyId := by
        refine hgen.kept _ ?_
        intro dep₀ hdep₀ hb₀ cause hcause
        exact hnot (hlist.complete _ dep₀ hdep₀ hb₀ ⟨cause, hcause⟩)
      exact hkept u.cause ⟨u.dependencyId, hd, dep, hsame ▸ hdep, hjudge⟩
    obtain ⟨v, hv, hveq⟩ := List.mem_map.mp hput
    refine List.mem_map.mpr ⟨u, List.mem_filterMap.mpr ⟨id, List.mem_filter.mpr ⟨?_, ?_⟩, ?_⟩,
      huid.trans (id_of_task? ht)⟩
    · rw [List.mem_dedup]
      exact List.mem_flatMap.mpr ⟨v, hv, hveq ▸ hindex id t ht₀ hblocked _ hd⟩
    · simp [ht, Task.isBlocked, hblocked]
    · simp [ht, hu]

/-- Each task a generation puts out is one blocked task less. -/
theorem length_add_card_blockedIds {job : Job} {now : Nat} {us : List UnreachableTask}
    {m' : TaskMap} (hlist : job.ListsUnreachable now us)
    (hgen : Generation now job.tasksById m') :
    us.length + (blockedIds m').card = (blockedIds job.tasksById).card := by
  have hout : ∀ id ∈ us.map UnreachableTask.taskId, ∃ t reason cause, job.task? id = some t ∧
      t.status = .blocked ∧ m'.get id = some (t.skippedWith reason cause now) := by
    intro id hid
    obtain ⟨u, hu, rfl⟩ := List.mem_map.mp hid
    obtain ⟨t, ht, hblocked, hfind⟩ := hlist.sound u hu
    obtain ⟨-, hd, ⟨dep, hdep, hjudge⟩, -⟩ := findUnreachableDependencyOf_eq_some hfind
    obtain ⟨reason, cause, hget, -⟩ := hgen.hit u.taskId t ht hblocked
      ⟨u.cause, u.dependencyId, hd, dep, hdep, hjudge⟩
    exact ⟨t, reason, cause, ht, hblocked, hget⟩
  have hunion : blockedIds job.tasksById =
      (us.map UnreachableTask.taskId).toFinset ∪ blockedIds m' := by
    ext id
    rw [Finset.mem_union, List.mem_toFinset, mem_blockedIds, mem_blockedIds]
    constructor
    · rintro ⟨t, ht, hblocked⟩
      rcases hgen.get_eq_some ht with hget | ⟨-, hunreachable, -⟩
      · exact Or.inr ⟨t, hget, hblocked⟩
      · exact Or.inl (hlist.complete id t ht hblocked hunreachable)
    · rintro (hid | ⟨t, ht, hblocked⟩)
      · obtain ⟨t, -, -, ht, hblocked, -⟩ := hout id hid
        exact ⟨t, ht, hblocked⟩
      · exact ⟨t, hgen.get_of_blocked ht hblocked, hblocked⟩
  have hdisjoint : Disjoint (us.map UnreachableTask.taskId).toFinset (blockedIds m') := by
    rw [Finset.disjoint_left]
    intro id hid hblocked
    obtain ⟨t, reason, cause, -, -, hget⟩ := hout id (List.mem_toFinset.mp hid)
    obtain ⟨t', ht', hb'⟩ := mem_blockedIds.mp hblocked
    rw [hget] at ht'
    cases ht'
    cases hb'
  rw [hunion, Finset.card_union_of_disjoint hdisjoint, List.toFinset_card_of_nodup hlist.nodup,
    List.length_map]

theorem ListsUnreachable.perm {job : Job} {now : Nat} {us us' : List UnreachableTask}
    (h : job.ListsUnreachable now us) (hperm : us'.Perm us) : job.ListsUnreachable now us' where
  nodup := (hperm.map _).nodup_iff.mpr h.nodup
  sound u hu := h.sound u (hperm.mem_iff.mp hu)
  complete id t ht hblocked hunreachable :=
    (hperm.map _).mem_iff.mpr (h.complete id t ht hblocked hunreachable)

/-- The cascade's loop with every generation collected in an order of its own: it is
collected from a hash map, and later from a hash set, whose order is not a contract. -/
def skipGenerationsIn (arrange : Nat → List UnreachableTask → List UnreachableTask) (now : Nat)
    (dependentsByDependency : Uuid → List Uuid) :
    Nat → List UnreachableTask → Nat → JobM Nat
  | 0, _, skippedCount => pure skippedCount
  | fuel + 1, unreachable, skippedCount =>
      if unreachable.isEmpty then pure skippedCount
      else do
        let arranged := arrange skippedCount unreachable
        skipGeneration now arranged
        let job ← Mutation.current
        skipGenerationsIn arrange now dependentsByDependency fuel
          (job.nextGeneration dependentsByDependency arranged now)
          (skippedCount + arranged.length)

/-- The cascade with every generation collected in an order of its own. -/
def skipUnreachableTasksIn (arrange : Nat → List UnreachableTask → List UnreachableTask)
    (now : Nat) : JobM Nat := do
  let job ← Mutation.current
  skipGenerationsIn arrange now job.indexBlockedDependents (job.tasksById.size + 1)
    (job.findUnreachableTasks now) 0

theorem skipGenerationsIn_id (now : Nat) (dependents : Uuid → List Uuid) (fuel : Nat)
    (us : List UnreachableTask) (count : Nat) (job : Job) :
    skipGenerationsIn (fun _ us => us) now dependents fuel us count job =
      skipGenerations now dependents fuel us count job := by
  induction fuel generalizing us count job with
  | zero => rfl
  | succ fuel ih =>
      rw [skipGenerationsIn, skipGenerations]
      split
      · rfl
      · rw [Mutation.bind_apply, Mutation.bind_apply]
        split
        · exact ih _ _ _
        · rfl

/-- The cascade's loop, given fuel for every blocked task, ends with nothing left to
put out, having counted what it put out. -/
theorem skipGenerationsIn_spec (w : Uuid) {now : Nat} {dependents : Uuid → List Uuid}
    {arrange : Nat → List UnreachableTask → List UnreachableTask}
    (harrange : ∀ count us, (arrange count us).Perm us) :
    ∀ (bound : Nat) (us : List UnreachableTask) (count : Nat) (job : Job),
      job.ListsUnreachable now us → job.IndexesDependents dependents →
      (blockedIds job.tasksById).card < bound →
      ∃ n m', (∀ fuel, bound ≤ fuel →
          skipGenerationsIn arrange now dependents fuel us count job =
            (.ok n, job.withTasks m')) ∧
        n + (blockedIds m').card = count + (blockedIds job.tasksById).card ∧
        DerivedRun .shared w now now job.tasksById m' ∧
        Relation.ReflTransGen (Generation now) job.tasksById m' ∧
        ∀ id t, m'.get id = some t → t.status = .blocked →
          ∀ cause, ¬ UnreachableFor m' t now cause := by
  intro bound
  induction bound with
  | zero =>
      intro us count job _ _ hbound
      omega
  | succ bound ih =>
      intro us count job hlist hindex hbound
      cases us with
      | nil =>
          refine ⟨count, job.tasksById, ?_, rfl, LocalRun.refl (Nat.le_refl now), .refl, ?_⟩
          · intro fuel hfuel
            obtain ⟨fuel, rfl⟩ := Nat.exists_eq_succ_of_ne_zero (by omega : fuel ≠ 0)
            rfl
          · intro id t ht hblocked cause hcause
            have := hlist.complete id t ht hblocked ⟨cause, hcause⟩
            simp at this
      | cons u us =>
          have hlist₁ := hlist.perm (harrange count (u :: us))
          obtain ⟨m₁, hskip, hrun₁, hgen⟩ := skipGeneration_spec w hlist₁
          have hlist' := nextGeneration_lists hlist₁ hindex hgen
          have hindex' : (job.withTasks m₁).IndexesDependents dependents := by
            intro id t ht hblocked d hd
            exact hindex id t (hgen.get_of_blocked ht hblocked) hblocked d hd
          have hcount := length_add_card_blockedIds hlist₁ hgen
          have hlength : 0 < (arrange count (u :: us)).length := by
            rw [(harrange count (u :: us)).length_eq]
            simp
          obtain ⟨n, m', hloop, hn, hrun₂, hgens, hdone⟩ :=
            ih _ (count + (arrange count (u :: us)).length) (job.withTasks m₁) hlist' hindex'
              (by rw [tasksById_withTasks]; omega)
          refine ⟨n, m', ?_, ?_, hrun₁.trans hrun₂, .head hgen hgens, hdone⟩
          · intro fuel hfuel
            obtain ⟨fuel, rfl⟩ := Nat.exists_eq_succ_of_ne_zero (by omega : fuel ≠ 0)
            rw [skipGenerationsIn, if_neg (by simp), Mutation.bind_apply, hskip]
            exact hloop fuel (by omega)
          · rw [tasksById_withTasks] at hn
            omega

theorem card_blockedIds_le (m : TaskMap) : (blockedIds m).card ≤ m.size := by
  refine (Finset.card_filter_le _ _).trans ((List.toFinset_card_le _).trans ?_)
  simp [KeyedMap.keys, KeyedMap.size]

/-- The cascade, in whatever order its generations are collected: it is never refused,
no fuel beyond the one given changes it, and it counts what it puts out. -/
theorem skipUnreachableTasksIn_spec (w : Uuid) (now : Nat) (job : Job)
    {arrange : Nat → List UnreachableTask → List UnreachableTask}
    (harrange : ∀ count us, (arrange count us).Perm us) :
    ∃ n m', (∀ fuel, job.tasksById.size < fuel →
        skipGenerationsIn arrange now job.indexBlockedDependents fuel
          (job.findUnreachableTasks now) 0 job = (.ok n, job.withTasks m')) ∧
      n + (blockedIds m').card = (blockedIds job.tasksById).card ∧
      DerivedRun .shared w now now job.tasksById m' ∧
      Relation.ReflTransGen (Generation now) job.tasksById m' ∧
      ∀ id t, m'.get id = some t → t.status = .blocked →
        ∀ cause, ¬ UnreachableFor m' t now cause := by
  have hle := card_blockedIds_le job.tasksById
  obtain ⟨n, m', hloop, hn, hrest⟩ := skipGenerationsIn_spec w harrange
    (job.tasksById.size + 1) _ 0 job (findUnreachableTasks_lists job now)
    (indexBlockedDependents_indexes job) (by omega)
  exact ⟨n, m', hloop, by omega, hrest⟩

/-- The cascade never fails, puts out blocked tasks only and leaves none it could
still put out. -/
theorem skipUnreachableTasks_spec (w : Uuid) (now : Nat) (job : Job) :
    ∃ n m', skipUnreachableTasks now job = (.ok n, job.withTasks m') ∧
      DerivedRun .shared w now now job.tasksById m' ∧
      Relation.ReflTransGen (Generation now) job.tasksById m' ∧
      ∀ id t, m'.get id = some t → t.status = .blocked →
        ∀ cause, ¬ UnreachableFor m' t now cause := by
  obtain ⟨n, m', hloop, -, hrest⟩ := skipUnreachableTasksIn_spec w now job
    (fun _ us => List.Perm.refl us)
  refine ⟨n, m', ?_, hrest⟩
  rw [← hloop (job.tasksById.size + 1) (Nat.lt_succ_self _), skipGenerationsIn_id]
  rfl

/-! ## Unblocking and lifetime failures -/

theorem dependenciesSatisfied_eq_true {job : Job} {t : Task} {now : Nat} :
    job.dependenciesSatisfied t now = true ↔ Satisfied job.tasksById t now := by
  unfold dependenciesSatisfied Satisfied
  rw [List.all_eq_true]
  refine forall₂_congr fun d _ => ?_
  rw [show job.tasksById.get d = job.task? d from rfl]
  cases job.task? d <;> simp

/-- Identifiers of the tasks a predicate selects are distinct. -/
theorem nodup_map_id_filter (job : Job) (p : Task → Bool) :
    (((job.tasks.filter p).map Task.id).map fun taskId => taskId).Nodup := by
  rw [List.map_id']
  exact job.tasksById.nodup.sublist (List.filter_sublist.map Task.id)

theorem mem_map_id_filter {job : Job} {p : Task → Bool} {id : Uuid} :
    id ∈ (job.tasks.filter p).map Task.id ↔ ∃ t, job.task? id = some t ∧ p t = true := by
  rw [List.mem_map]
  constructor
  · rintro ⟨t, ht, rfl⟩
    obtain ⟨hmem, hp⟩ := List.mem_filter.mp ht
    exact ⟨t, mem_tasks_iff.mp hmem, hp⟩
  · rintro ⟨t, ht, hp⟩
    exact ⟨t, List.mem_filter.mpr ⟨mem_tasks_of_task? ht, hp⟩, id_of_task? ht⟩

/-- A released task is judged as the blocked one it was. -/
theorem satisfied_of_agree {m m' : TaskMap} {t : Task} {now : Nat}
    (hagree : ∀ d ∈ t.dependsOn, ∀ dep, m.get d = some dep →
      t.judgeDependency dep now = .unblocked → m'.get d = some dep)
    (h : Satisfied m t now) : Satisfied m' t now := by
  intro d hd
  obtain ⟨dep, hdep, hjudge⟩ := h d hd
  exact ⟨dep, hagree d hd dep hdep hjudge, hjudge⟩

/-- Releasing tasks is a derived run that releases exactly the satisfied ones. -/
theorem unblockSatisfiedTasks_spec (w : Uuid) (now : Nat) (job : Job) :
    ∃ m', unblockSatisfiedTasks now job = (.ok (), job.withTasks m') ∧
      DerivedRun .shared w now now job.tasksById m' ∧ Release now job.tasksById m' := by
  have hmem : ∀ {id}, id ∈ (job.tasks.filter fun task =>
        task.isBlocked && job.dependenciesSatisfied task now).map Task.id ↔
      ∃ t, job.task? id = some t ∧ t.status = .blocked ∧ Satisfied job.tasksById t now := by
    intro id
    rw [mem_map_id_filter]
    simp only [Bool.and_eq_true, dependenciesSatisfied_eq_true, Task.isBlocked,
      decide_eq_true_eq]
  obtain ⟨m', hrun, hsteps, hlanded, hkept⟩ := updateEach_spec (fun taskId => taskId)
    (fun _ task => .ok task.unblock)
    (fun now m m' => ∃ touch, touch = Touch.derived ∧ LocalStep w now m touch m') now
    ((job.tasks.filter fun task =>
      task.isBlocked && job.dependenciesSatisfied task now).map Task.id) job
    (nodup_map_id_filter job _)
    (by
      intro id hid
      obtain ⟨t, ht, -, -⟩ := hmem.mp hid
      refine ⟨t, t.unblock, ht, rfl, ?_⟩
      unfold Task.unblock
      split <;> rfl)
    (by
      intro id hid t t' m ht ht' hm hagree
      cases ht'
      obtain ⟨t₀, ht₀, hblocked, hsat⟩ := hmem.mp hid
      rw [ht] at ht₀
      cases ht₀
      have hid' : t.id = id := id_of_task? ht
      rw [Task.unblock, if_pos hblocked]
      refine ⟨.derived, rfl, .release (hid' ▸ hm) hblocked (satisfied_of_agree ?_ hsat)⟩
      intro d _ dep hdep hjudge
      rw [hagree d, ← hdep]
      · rfl
      · rw [List.map_id']
        intro hd
        obtain ⟨dep', hdep', hb', -⟩ := hmem.mp hd
        rw [show job.task? d = some dep from hdep] at hdep'
        cases hdep'
        exact not_blocked_of_judge hjudge (by simp) hb')
  refine ⟨m', hrun, hsteps, ?_, ?_⟩
  · intro id t ht hblocked hsat
    have := hlanded id (hmem.mpr ⟨t, ht, hblocked, hsat⟩) t _ ht rfl
    rwa [Task.unblock, if_pos hblocked] at this
  · intro id hnot
    refine hkept id ?_
    rw [List.map_id']
    intro hid
    obtain ⟨t, ht, hblocked, hsat⟩ := hmem.mp hid
    exact hnot t ht hblocked hsat

/-- Failing tasks by lifetime is a derived run that fails exactly the outlived ones. -/
theorem failTasksByLifetime_spec (w : Uuid) (now : Nat) (job : Job) :
    ∃ m', failTasksByLifetime now job = (.ok (), job.withTasks m') ∧
      DerivedRun .shared w now now job.tasksById m' ∧ Outlived now job.tasksById m' := by
  have hmem : ∀ {id}, id ∈ (job.tasks.filter fun task =>
        task.checkAvailabilityAt now = .expiredPastLifetime).map Task.id ↔
      ∃ t, job.task? id = some t ∧ t.status = .started ∧
        t.isLifetimeExpiredAt now = true := by
    intro id
    rw [mem_map_id_filter]
    simp only [decide_eq_true_eq, Task.checkAvailabilityAt_eq_expiredPastLifetime]
  obtain ⟨m', hrun, hsteps, hlanded, hkept⟩ := updateEach_spec (fun taskId => taskId)
    (fun _ task => task.fail (describeOutlivedLifetime task) .whileBudgetLasts now)
    (fun now m m' => ∃ touch, touch = Touch.derived ∧ LocalStep w now m touch m') now
    ((job.tasks.filter fun task =>
      task.checkAvailabilityAt now = .expiredPastLifetime).map Task.id) job
    (nodup_map_id_filter job _)
    (by
      intro id hid
      obtain ⟨t, ht, hs, -⟩ := hmem.mp hid
      exact ⟨t, _, ht, Task.fail_eq_ok.mpr ⟨hs, rfl⟩, rfl⟩)
    (by
      intro id hid t t' m ht ht' hm _
      obtain ⟨hs, rfl⟩ := Task.fail_eq_ok.mp ht'
      obtain ⟨t₀, ht₀, -, hl⟩ := hmem.mp hid
      rw [ht] at ht₀
      cases ht₀
      have hid' : t.id = id := id_of_task? ht
      exact ⟨.derived, rfl, .outlive (hid' ▸ hm) hs hl⟩)
  refine ⟨m', hrun, hsteps, ?_, ?_⟩
  · intro id t ht hs hl
    exact hlanded id (hmem.mpr ⟨t, ht, hs, hl⟩) t _ ht (Task.fail_eq_ok.mpr ⟨hs, rfl⟩)
  · intro id hnot
    refine hkept id ?_
    rw [List.map_id']
    intro hid
    obtain ⟨t, ht, hs, hl⟩ := hmem.mp hid
    rw [hnot t ht hs] at hl
    cases hl

end Job

end JobManager
