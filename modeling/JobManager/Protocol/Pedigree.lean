import JobManager.Protocol.Moves

/-!
# Where tasks come from

Identifiers are minted once, so what a task was created with is a function of its
identifier: the iteration it belongs to, what it waits for, ranked below it, and what
it tolerates.
Every copy of an iteration, stored or held, fits that function, and a worker's own
steps keep it so.

Main results:

- Theorem {lit}`LocalStep.fits`: a worker's own steps keep a copy fitting.
- Theorem {lit}`fits_carry`: so does carrying a worker's entries onto a stored copy.
- Theorem {lit}`exists_pedigree_of_planned`: a freshly planned iteration fits an
  extended pedigree.
-/

namespace JobManager

variable {κ : Clocks}

/-- What the identifiers minted so far were created with, and a rank for each. -/
structure Pedigree where
  iter : Uuid → Nat
  deps : Uuid → List Uuid
  tolerance : Uuid → DependencyTolerance
  rank : Uuid → Nat

/-- A later pedigree agrees on what was already minted. -/
structure Pedigree.Extends (g g' : Pedigree) (minted : List Uuid) : Prop where
  iter : ∀ id ∈ minted, g'.iter id = g.iter id
  deps : ∀ id ∈ minted, g'.deps id = g.deps id
  tolerance : ∀ id ∈ minted, g'.tolerance id = g.tolerance id
  rank : ∀ id ∈ minted, g'.rank id = g.rank id

theorem Pedigree.Extends.refl (g : Pedigree) (minted : List Uuid) : g.Extends g minted :=
  ⟨fun _ _ => rfl, fun _ _ => rfl, fun _ _ => rfl, fun _ _ => rfl⟩

/-- What is minted waits for what was minted before, ranked below it. -/
def Pedigree.Ranked (g : Pedigree) (minted : List Uuid) : Prop :=
  ∀ id ∈ minted, ∀ d ∈ g.deps id, d ∈ minted ∧ g.rank d < g.rank id

/-- The task was put out by the cascade. -/
def IsCascaded (t : Task) : Prop := ∃ cause, t.status = .skipped cause ∧ cause ≠ .executorDecision

/-- A task's own record is consistent: what runs or completed has an owner, what was never
released has none, and what runs has a deadline within its lifetime. -/
structure Sound (t : Task) : Prop where
  owned : t.status = .started ∨ t.status = .completed → t.processingByWorker ≠ none
  unowned : t.status = .blocked ∨ IsCascaded t → t.processingByWorker = none
  deadline : t.status = .started → ∃ d l, t.deadlineAt = some d ∧
    t.lifetimeDeadlineAt = some l ∧ d ≤ l

/-- A new task is sound. -/
theorem sound_new (id w : Uuid) (parent : Option Uuid) (taskDef : TaskDefinition)
    (resolved : List Uuid) : Sound (Task.new id w parent taskDef resolved) := by
  have hstatus : (Task.new id w parent taskDef resolved).status = .todo ∨
      (Task.new id w parent taskDef resolved).status = .blocked := by
    simp only [Task.new]
    cases resolved.isEmpty <;> simp
  constructor
  · intro h
    rcases hstatus with hs | hs <;> simp [hs] at h
  · intro _
    rfl
  · intro h
    rcases hstatus with hs | hs <;> simp [hs] at h

/-- And stays so with every move. -/
theorem Sound.move {w : Uuid} {now : Nat} {t t' : Task} {touch : Touch} (hsound : Sound t)
    (h : TaskMove w now t touch t') : Sound t' := by
  cases h with
  | outlive _ _ =>
      exact ⟨by simp [Task.failedWith], by simp [Task.failedWith, IsCascaded],
        by simp [Task.failedWith]⟩
  | putOut hb _ =>
      exact ⟨by simp [Task.skippedWith], fun _ => hsound.unowned (Or.inl hb),
        by simp [Task.skippedWith]⟩
  | release _ => exact ⟨by simp, by simp [IsCascaded], by simp⟩
  | complete _ hs _ =>
      exact ⟨fun _ => hsound.owned (Or.inl hs), by simp [Task.completedWith, IsCascaded],
        by simp [Task.completedWith]⟩
  | fail _ _ =>
      exact ⟨by simp [Task.failedWith], by simp [Task.failedWith, IsCascaded],
        by simp [Task.failedWith]⟩
  | skip _ _ =>
      refine ⟨by simp [Task.skippedWith], ?_, by simp [Task.skippedWith]⟩
      rintro (hb | ⟨cause, hs, hne⟩)
      · simp [Task.skippedWith] at hb
      · simp only [Task.skippedWith, TaskStatus.skipped.injEq] at hs
        exact absurd hs.symm hne
  | start hstart =>
      obtain ⟨-, lifetime, timeout, -, -, rfl⟩ := Task.start_eq_ok hstart
      exact ⟨by simp, by simp [IsCascaded], fun _ => ⟨_, _, rfl, rfl, Nat.min_le_right _ _⟩⟩

/-- And as it is stored. -/
theorem Sound.persisted {t : Task} (h : Sound t) : Sound t.persisted :=
  ⟨h.owned, h.unowned, h.deadline⟩

/-- A copy of iteration {lit}`n` fits the pedigree. -/
structure Fits (g : Pedigree) (minted : List Uuid) (n : Nat) (m : TaskMap) : Prop where
  minted : ∀ id t, m.get id = some t → id ∈ minted
  iter : ∀ id t, m.get id = some t → g.iter id = n
  deps : DependenciesAre g.deps m
  tolerance : ∀ id t, m.get id = some t → t.tolerance = g.tolerance id
  parents : ∀ id t, m.get id = some t → t.createdByTask ≠ some id
  sound : ∀ id t, m.get id = some t → Sound t

/-- A copy still fits when more was minted. -/
theorem Fits.mono {g g' : Pedigree} {minted minted' : List Uuid} {n : Nat} {m : TaskMap}
    (h : Fits g minted n m) (hext : g.Extends g' minted)
    (hsub : ∀ id ∈ minted, id ∈ minted') : Fits g' minted' n m where
  minted id t ht := hsub id (h.minted id t ht)
  iter id t ht := (hext.iter id (h.minted id t ht)).trans (h.iter id t ht)
  deps id t ht := (h.deps id t ht).trans (hext.deps id (h.minted id t ht)).symm
  tolerance id t ht := (h.tolerance id t ht).trans (hext.tolerance id (h.minted id t ht)).symm
  parents := h.parents
  sound := h.sound

/-- The tasks of a map that fits are ranked. -/
theorem Fits.ranked {g : Pedigree} {minted : List Uuid} {n : Nat} {m : TaskMap}
    (h : Fits g minted n m) (hranked : g.Ranked minted) : DependenciesRanked g.rank m := by
  intro id t ht d hd
  rw [h.deps id t ht] at hd
  exact (hranked id (h.minted id t ht) d hd).2

section Steps

variable {w : Uuid} {now : Nat} {m m' : TaskMap} {touch : Touch}

/-- A worker's own steps keep its copy fitting, as long as what they create does. -/
theorem LocalStep.fits {g : Pedigree} {minted : List Uuid} {n : Nat}
    (h : LocalStep w now m touch m')
    (hadded : ∀ id p t, touch = .added id p → m'.get id = some t →
      id ∈ minted ∧ g.iter id = n ∧ t.dependsOn = g.deps id ∧ t.tolerance = g.tolerance id ∧
        p ≠ id)
    (hfits : Fits g minted n m) : Fits g minted n m' where
  minted id t' ht' := by
    rcases h.predecessor ht' with ⟨t, ht, -⟩ | ⟨p, _, _, htouch, -⟩
    · exact hfits.minted id t ht
    · exact (hadded id p t' htouch ht').1
  iter id t' ht' := by
    rcases h.predecessor ht' with ⟨t, ht, -⟩ | ⟨p, _, _, htouch, -⟩
    · exact hfits.iter id t ht
    · exact (hadded id p t' htouch ht').2.1
  deps := h.dependenciesAre (fun id p t htouch ht => (hadded id p t htouch ht).2.2.1) hfits.deps
  tolerance id t' ht' := by
    rcases h.predecessor ht' with ⟨t, ht, rfl | hmove⟩ | ⟨p, _, _, htouch, -⟩
    · exact hfits.tolerance id _ ht
    · exact hmove.kin.tolerance.trans (hfits.tolerance id t ht)
    · exact (hadded id p t' htouch ht').2.2.2.1
  parents id t' ht' := by
    rcases h.predecessor ht' with ⟨t, ht, rfl | hmove⟩ | ⟨p, _, _, htouch, -, -, rfl⟩
    · exact hfits.parents id _ ht
    · rw [hmove.kin.createdByTask]
      exact hfits.parents id t ht
    · intro hsame
      exact (hadded id p _ htouch ht').2.2.2.2 (Option.some.inj hsame)
  sound id t' ht' := by
    rcases h.predecessor ht' with ⟨t, ht, rfl | hmove⟩ | ⟨_, _, _, -, -, -, rfl⟩
    · exact hfits.sound id _ ht
    · exact (hfits.sound id t ht).move hmove
    · exact sound_new _ _ _ _ _

end Steps

/-- Runs that create nothing keep a copy fitting. -/
theorem LocalRun.fits {w : Uuid} {touches : Touch → Prop} {lo hi : Nat} {m m' : TaskMap}
    {g : Pedigree} {minted : List Uuid} {n : Nat}
    (h : LocalRun κ w touches lo hi m m') (hnone : ∀ id p, ¬ touches (.added id p))
    (hfits : Fits g minted n m) : Fits g minted n m' := by
  refine TimedRun.preserves_untimed (P := Fits g minted n) ?_ h hfits
  rintro now m₁ m₂ ⟨touch, htouch, hstep⟩ hfits
  refine hstep.fits ?_ hfits
  rintro id p t rfl
  exact absurd htouch (hnone id p)

/-- What the state implies on its own keeps a copy fitting. -/
theorem DerivedRun.fits {w : Uuid} {lo hi : Nat} {m m' : TaskMap} {g : Pedigree}
    {minted : List Uuid} {n : Nat} (h : DerivedRun κ w lo hi m m') (hfits : Fits g minted n m) :
    Fits g minted n m' := LocalRun.fits h (by simp) hfits

/-! ## Carrying entries over -/

/-- Whether a task of a worker's copy is its own creation, not stored yet. -/
def IsOwnCreation (w : Uuid) (t : Task) : Prop :=
  t.createdByWorker = w ∧ t.processingByWorker = none

section Carry

variable {saved job : Job} {w : Uuid}

/-- An entry of the combined state is the worker's, where the filter let it through, or
the stored one. -/
theorem carry_cases {id : Uuid} {t : Task}
    (h : (saved.carryTasks job w).tasksById.get id = some t) :
    (job.task? id = some t ∧ Job.isCarried saved.tasksById w t = true) ∨
      (saved.task? id = some t ∧
        ∀ t', job.task? id = some t' → Job.isCarried saved.tasksById w t' = false) := by
  have hget := Job.get_carryTasks saved job w id
  rw [show (saved.carryTasks job w).task? id = some t from h] at hget
  cases hjob : job.task? id with
  | none =>
      rw [hjob] at hget
      exact Or.inr ⟨hget.symm, fun t' ht' => by cases ht'⟩
  | some t' =>
      rw [hjob] at hget
      dsimp only at hget
      split at hget <;> rename_i hcarried
      · cases hget
        exact Or.inl ⟨rfl, hcarried⟩
      · refine Or.inr ⟨hget.symm, ?_⟩
        intro t'' ht''
        cases ht''
        simpa using hcarried

/-- What the stored state holds, the merge keeps. -/
theorem carry_of_saved {saved : Job} (job : Job) (w : Uuid) {id : Uuid} {t : Task}
    (h : saved.task? id = some t) :
    ∃ t', (saved.carryTasks job w).tasksById.get id = some t' := by
  have hget := Job.get_carryTasks saved job w id
  cases hjob : job.task? id with
  | none => exact ⟨t, by rw [hjob] at hget; exact hget.trans h⟩
  | some t' =>
      rw [hjob] at hget
      dsimp only at hget
      split at hget
      · exact ⟨t', hget⟩
      · exact ⟨t, hget.trans h⟩

/-- What the worker created, it carries. -/
theorem carry_of_own {id : Uuid} {t : Task} (h : job.task? id = some t)
    (hown : IsOwnCreation w t) : ∃ t', (saved.carryTasks job w).tasksById.get id = some t' := by
  cases hsaved : saved.task? id with
  | some t₀ => exact carry_of_saved job w hsaved
  | none =>
      have hget := Job.get_carryTasks saved job w id
      have hid := Job.id_of_task? h
      have hcarried : Job.isCarried saved.tasksById w t = true := by
        simp only [Job.isCarried, Job.isCreatedNow, hown.1, hown.2, hid]
        rw [show saved.tasksById.get id = none from hsaved]
        rfl
      rw [h] at hget
      dsimp only at hget
      rw [if_pos hcarried] at hget
      exact ⟨t, hget⟩

/-- Carrying a worker's entries onto a stored copy of the same iteration leaves a fitting
copy. -/
theorem fits_carry {g : Pedigree} {minted : List Uuid} {n : Nat}
    (hsaved : Fits g minted n saved.tasksById) (hjob : Fits g minted n job.tasksById) :
    Fits g minted n (saved.carryTasks job w).tasksById where
  minted id t ht := by
    rcases carry_cases ht with ⟨h, -⟩ | ⟨h, -⟩
    · exact hjob.minted id t h
    · exact hsaved.minted id t h
  iter id t ht := by
    rcases carry_cases ht with ⟨h, -⟩ | ⟨h, -⟩
    · exact hjob.iter id t h
    · exact hsaved.iter id t h
  deps id t ht := by
    rcases carry_cases ht with ⟨h, -⟩ | ⟨h, -⟩
    · exact hjob.deps id t h
    · exact hsaved.deps id t h
  tolerance id t ht := by
    rcases carry_cases ht with ⟨h, -⟩ | ⟨h, -⟩
    · exact hjob.tolerance id t h
    · exact hsaved.tolerance id t h
  parents id t ht := by
    rcases carry_cases ht with ⟨h, -⟩ | ⟨h, -⟩
    · exact hjob.parents id t h
    · exact hsaved.parents id t h
  sound id t ht := by
    rcases carry_cases ht with ⟨h, -⟩ | ⟨h, -⟩
    · exact hjob.sound id t h
    · exact hsaved.sound id t h

/-- Nor does carrying leave a dependency behind, as long as the worker's other entries are
stored. -/
theorem closed_carry (hsaved : DependenciesClosed saved.tasksById)
    (hjob : DependenciesClosed job.tasksById)
    (hknown : ∀ id t, job.task? id = some t →
      (∃ t', saved.task? id = some t') ∨ IsOwnCreation w t) :
    DependenciesClosed (saved.carryTasks job w).tasksById := by
  intro id t ht d hd
  rcases carry_cases ht with ⟨h, -⟩ | ⟨h, -⟩
  · obtain ⟨dep, hdep⟩ := hjob id t h d hd
    rcases hknown d dep hdep with ⟨t', ht'⟩ | hown
    · exact carry_of_saved job w ht'
    · exact carry_of_own hdep hown
  · obtain ⟨dep, hdep⟩ := hsaved id t h d hd
    exact carry_of_saved job w hdep

end Carry

/-! ## Minting -/

/-- A fresh identifier was never minted. -/
theorem mem_of_areFresh {minted ids : List Uuid} (h : areFresh minted ids = true) {id : Uuid}
    (hid : id ∈ ids) : id ∉ minted := by
  unfold areFresh at h
  rw [Bool.and_eq_true, List.all_eq_true] at h
  simpa using h.1 id hid

/-- A pedigree that says of the given identifiers what a fresh copy shows of them. -/
def Pedigree.adopt (g : Pedigree) (ids : List Uuid) (n : Nat) (m : TaskMap)
    (rank : Uuid → Nat) : Pedigree where
  iter id := if id ∈ ids then n else g.iter id
  deps id := if id ∈ ids then ((m.get id).map Task.dependsOn).getD [] else g.deps id
  tolerance id :=
    if id ∈ ids then ((m.get id).map Task.tolerance).getD (g.tolerance id) else g.tolerance id
  rank id := if id ∈ ids then rank id else g.rank id

theorem Pedigree.adopt_extends {g : Pedigree} {ids minted : List Uuid} {n : Nat} {m : TaskMap}
    {rank : Uuid → Nat} (hfresh : areFresh minted ids = true) :
    g.Extends (g.adopt ids n m rank) minted := by
  have hnot : ∀ id ∈ minted, id ∉ ids := fun id hm hid => mem_of_areFresh hfresh hid hm
  constructor <;> intro id hid <;> simp [adopt, hnot id hid]

/-- Every dependency of a freshly planned task is planned with it. -/
theorem Job.Planned.dependenciesClosed {jobDef : JobDefinition} {w : Uuid} {ids : List Uuid}
    {job : Job} (hdef : jobDef.WellFormed) (hplanned : job.Planned jobDef w ids) :
    DependenciesClosed job.tasksById := by
  obtain ⟨rank, hrank⟩ := hdef.ranked
  intro id t ht d hd
  obtain ⟨p, taskDef, resolved, -, hdefp, hresolved, hnew⟩ := hplanned.planned id t ht
  rw [show t.dependsOn = resolved by rw [hnew]; rfl] at hd
  obtain ⟨owner, q, hmem, hq⟩ := hresolved d hd
  obtain ⟨owner', q', heq, hlt, -⟩ := hrank p taskDef hdefp _ hmem
  cases heq
  obtain ⟨id', t', hid', ht'⟩ := hplanned.covers q hlt
  rw [hq] at hid'
  cases hid'
  exact ⟨t', ht'⟩

/-- A freshly planned iteration fits a pedigree that extends the one so far. -/
theorem exists_pedigree_of_planned {jobDef : JobDefinition} {w : Uuid} {ids minted : List Uuid}
    {job : Job} {g : Pedigree} (hdef : jobDef.WellFormed) (hranked : g.Ranked minted)
    (hfresh : areFresh minted ids = true) (hplanned : job.Planned jobDef w ids) :
    ∃ g', g.Extends g' minted ∧ g'.Ranked (ids ++ minted) ∧
      Fits g' (ids ++ minted) job.iterNum job.tasksById := by
  obtain ⟨rank, hrank⟩ := hdef.ranked
  have hnodup : ids.Nodup := by
    unfold areFresh at hfresh
    rw [Bool.and_eq_true] at hfresh
    simpa using hfresh.2
  have hindex : ∀ {q id}, ids[q]? = some id → ids.idxOf id = q := by
    intro q id hq
    obtain ⟨hlt, rfl⟩ := List.getElem?_eq_some_iff.mp hq
    exact hnodup.idxOf_getElem q hlt
  -- every dependency of a planned task stands at a position ranked below its own
  have hdeps : ∀ id t, job.task? id = some t → id ∈ ids ∧
      ∀ d ∈ t.dependsOn, d ∈ ids ∧ rank (ids.idxOf d) < rank (ids.idxOf id) := by
    intro id t ht
    obtain ⟨p, taskDef, resolved, hp, hdefp, hresolved, hnew⟩ := hplanned.planned id t ht
    have hid := Job.id_of_task? ht
    rw [hid] at hp
    refine ⟨List.mem_of_getElem? hp, ?_⟩
    intro d hd
    rw [show t.dependsOn = resolved by rw [hnew]; rfl] at hd
    obtain ⟨owner, q, hmem, hq⟩ := hresolved d hd
    obtain ⟨owner', q', heq, hlt, hrankq⟩ := hrank p taskDef hdefp _ hmem
    cases heq
    rw [hindex hp, hindex hq]
    exact ⟨List.mem_of_getElem? hq, hrankq⟩
  refine ⟨g.adopt ids job.iterNum job.tasksById fun id => rank (ids.idxOf id),
    Pedigree.adopt_extends hfresh, ?_, ?_⟩
  · intro id hid d hd
    by_cases hmem : id ∈ ids
    · simp only [Pedigree.adopt, hmem, if_true] at hd
      cases ht : job.tasksById.get id with
      | none => simp [ht] at hd
      | some t =>
          rw [ht] at hd
          obtain ⟨hdmem, hlt⟩ := (hdeps id t ht).2 d hd
          exact ⟨List.mem_append_left _ hdmem, by simpa [Pedigree.adopt, hmem, hdmem] using hlt⟩
    · have hold : id ∈ minted := (List.mem_append.mp hid).resolve_left hmem
      simp only [Pedigree.adopt, hmem, if_false] at hd
      obtain ⟨hdold, hlt⟩ := hranked id hold d hd
      have hdmem : d ∉ ids := fun h => mem_of_areFresh hfresh h hdold
      exact ⟨List.mem_append_right _ hdold, by simpa [Pedigree.adopt, hmem, hdmem] using hlt⟩
  · constructor
    · intro id t ht
      exact List.mem_append_left _ (hdeps id t ht).1
    · intro id t ht
      simp [Pedigree.adopt, (hdeps id t ht).1]
    · intro id t ht
      simp [Pedigree.adopt, (hdeps id t ht).1, ht]
    · intro id t ht
      simp [Pedigree.adopt, (hdeps id t ht).1, ht]
    · intro id t ht
      obtain ⟨p, taskDef, resolved, -, -, -, hnew⟩ := hplanned.planned id t ht
      rw [hnew]
      simp [Task.new]
    · intro id t ht
      obtain ⟨p, taskDef, resolved, -, -, -, hnew⟩ := hplanned.planned id t ht
      rw [hnew]
      exact sound_new _ _ _ _ _

/-- A task created at runtime fits a pedigree that extends the one so far. -/
theorem exists_pedigree_of_added {minted : List Uuid} {id n : Nat} {t : Task} {m : TaskMap}
    {g : Pedigree} (hranked : g.Ranked minted) (hfresh : areFresh minted [id] = true)
    (hfits : Fits g minted n m) (ht : (m.insert t).get id = some t)
    (hdeps : ∀ d ∈ t.dependsOn, ∃ dep, m.get d = some dep) :
    ∃ g', g.Extends g' minted ∧ g'.Ranked (id :: minted) ∧ g'.iter id = n ∧
      t.dependsOn = g'.deps id ∧ t.tolerance = g'.tolerance id := by
  refine ⟨g.adopt [id] n (m.insert t) fun _ => (t.dependsOn.map g.rank).sum + 1,
    Pedigree.adopt_extends hfresh, ?_, by simp [Pedigree.adopt], by simp [Pedigree.adopt, ht],
    by simp [Pedigree.adopt, ht]⟩
  have hnot : id ∉ minted := mem_of_areFresh hfresh (by simp)
  intro id' hid' d hd
  by_cases heq : id' = id
  · subst heq
    simp only [Pedigree.adopt, List.mem_singleton, if_true, ht, Option.map_some,
      Option.getD_some] at hd
    obtain ⟨dep, hdep⟩ := hdeps d hd
    have hdold := hfits.minted d dep hdep
    have hdne : d ≠ id' := fun h => hnot (h ▸ hdold)
    refine ⟨by simp [hdold], ?_⟩
    have hle : g.rank d ≤ (t.dependsOn.map g.rank).sum :=
      List.le_sum_of_mem (List.mem_map_of_mem hd)
    simp only [Pedigree.adopt, List.mem_singleton, hdne, if_true, if_false]
    omega
  · have hold : id' ∈ minted := (List.mem_cons.mp hid').resolve_left heq
    simp only [Pedigree.adopt, List.mem_singleton, heq, if_false] at hd
    obtain ⟨hdold, hlt⟩ := hranked id' hold d hd
    have hdne : d ≠ id := fun h => hnot (h ▸ hdold)
    exact ⟨by simp [hdold], by simpa [Pedigree.adopt, heq, hdne] using hlt⟩

end JobManager
