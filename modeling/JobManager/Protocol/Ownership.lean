import JobManager.Protocol.Results

/-!
# When a running task stays with its worker

The same outdated entries that lose results also take running tasks away from their
workers; a task whose execution created others, opened again, drops them when it fails; and
a handle call may resolve a task its worker started earlier and no longer executes.  Along
runs that do none of this, a task shown as running keeps its entry until its deadline, or
until its worker saves what came of it.

Main results:

- Theorem {lit}`ownership_violated`: a run of two workers that hands a running task out.
- Theorem {lit}`running_task_exclusive`: a running task stays with its worker along runs
  whose merges and handle calls leave other running tasks alone and keep creators done.
-/

namespace JobManager

/-! ## Running within the deadline -/

/-- The task is running and its deadline has not passed. -/
def Task.isActive (t : Task) (now : Nat) : Bool := t.status = .started && !t.isExpiredAt now

theorem Task.isActive_eq_true {t : Task} {now : Nat} :
    t.isActive now = true ↔ t.status = .started ∧ t.isExpiredAt now = false := by
  simp [isActive]

theorem Task.isActive_earlier {t : Task} {now now' : Nat} (hle : now ≤ now')
    (h : t.isActive now' = true) : t.isActive now = true := by
  rw [isActive_eq_true] at h ⊢
  refine ⟨h.1, ?_⟩
  by_contra hexpired
  obtain ⟨d, hd, hlt⟩ := isExpiredAt_eq_true.mp (by simpa using hexpired)
  have hlater := isExpiredAt_eq_true.mpr ⟨d, hd, Nat.lt_of_lt_of_le hlt hle⟩
  rw [h.2] at hlater
  cases hlater

@[simp] theorem Task.isActive_persisted (t : Task) (now : Nat) :
    t.persisted.isActive now = t.isActive now := rfl

/-- A task running within its deadline makes no move but at the hands of its worker. -/
theorem TaskMove.of_active {w : Uuid} {now : Nat} {t t' : Task} {touch : Touch}
    (h : TaskMove w now t touch t') (hsound : Sound t) (hactive : t.isActive now = true) :
    touch = .resolved t.id ∧ t.processingByWorker = some w := by
  obtain ⟨hstarted, hexpired⟩ := Task.isActive_eq_true.mp hactive
  obtain ⟨d, l, hd, hl, hle⟩ := hsound.deadline hstarted
  have howned := hsound.owned (Or.inl hstarted)
  have hlifetime : t.isLifetimeExpiredAt now = false := by
    by_contra hlapsed
    obtain ⟨l', hl', hlt⟩ := Task.isLifetimeExpiredAt_eq_true.mp (by simpa using hlapsed)
    rw [hl] at hl'
    cases hl'
    have hpast := Task.isExpiredAt_eq_true.mpr ⟨d, hd, Nat.lt_of_le_of_lt hle hlt⟩
    rw [hexpired] at hpast
    cases hpast
  cases h with
  | outlive _ hlapsed =>
      rw [hlifetime] at hlapsed
      cases hlapsed
  | putOut hb _ => simp [hstarted] at hb
  | release hb => simp [hstarted] at hb
  | start hstart =>
      have hpick := (Task.start_eq_ok hstart).1
      simp [Task.canBePickedUpAt, Task.checkAvailabilityAt, hstarted, hlifetime, hexpired] at hpick
  | complete howner _ _ => exact ⟨rfl, howner.resolve_left howned⟩
  | fail howner _ => exact ⟨rfl, howner.resolve_left howned⟩
  | skip howner _ => exact ⟨rfl, howner.resolve_left howned⟩

/-- A run that drops nothing that belongs to a worker leaves a task running within its
deadline as it is, unless its own worker resolves it. -/
theorem SteadyRun.keeps_active {w : Uuid} {touches : Touch → Prop} {lo hi now : Nat}
    {m m' : TaskMap} (h : SteadyRun .shared w touches lo hi m m') (hle : hi ≤ now) {id : Uuid}
    {t : Task} (ht : m.get id = some t) (hsound : Sound t) (hactive : t.isActive now = true) :
    m'.get id = some t ∨ (touches (.resolved id) ∧ t.processingByWorker = some w) := by
  refine TimedRun.preserves
    (P := fun moment m => moment ≤ now → m.get id = some t ∨
      (touches (.resolved id) ∧ t.processingByWorker = some w)) ?_ ?_ h (fun _ => Or.inl ht) hle
  · intro a b m hab hP hb
    exact hP (Nat.le_trans hab hb)
  · rintro moment m₁ m₂ ⟨touch, htouch, hstep⟩ hP hmoment
    rcases hP hmoment with ht₁ | hresolved
    · have howned := hsound.owned (Or.inl (Task.isActive_eq_true.mp hactive).1)
      rcases hstep.stays id t ht₁ howned with hget | ⟨t', hmove, -⟩
      · exact Or.inl hget
      · have hid : t.id = id := KeyedMap.key_of_get ht₁
        obtain ⟨hresolves, howner⟩ :=
          hmove.of_active hsound (Task.isActive_earlier hmoment hactive)
        rw [hresolves, hid] at htouch
        exact Or.inr ⟨htouch, howner⟩
    · exact Or.inr hresolved

/-- A worker's own steps start nothing for another worker. -/
theorem LocalRun.foreign_started {κ : Clocks} {w : Uuid} {touches : Touch → Prop} {lo hi : Nat}
    {m m' : TaskMap} (h : LocalRun κ w touches lo hi m m') :
    ∀ id t', m'.get id = some t' → t'.status = .started → t'.processingByWorker ≠ some w →
      m.get id = some t' := by
  refine TimedRun.preserves_untimed
    (P := fun m' => ∀ id t', m'.get id = some t' → t'.status = .started →
      t'.processingByWorker ≠ some w → m.get id = some t')
    ?_ h (fun id t ht _ _ => ht)
  rintro now m₁ m₂ ⟨touch, -, hstep⟩ ih id t₂ ht₂ hstarted howner
  rcases hstep.predecessor ht₂ with ⟨t₁, ht₁, rfl | hmove⟩ | ⟨_, _, resolved, -, -, -, rfl⟩
  · exact ih id _ ht₁ hstarted howner
  · cases hmove with
    | start hstart =>
        obtain ⟨-, _, _, -, -, rfl⟩ := Task.start_eq_ok hstart
        simp at howner
    | outlive _ _ => simp [Task.failedWith] at hstarted
    | putOut _ _ => simp [Task.skippedWith] at hstarted
    | release _ => simp at hstarted
    | complete _ _ _ => simp [Task.completedWith] at hstarted
    | fail _ _ => simp [Task.failedWith] at hstarted
    | skip _ _ => simp [Task.skippedWith] at hstarted
  · unfold Task.new at hstarted
    cases hempty : resolved.isEmpty <;> simp [hempty] at hstarted

/-! ## What a worker's copy knows of running tasks -/

/-- The copy holds every running task of the version it is to replace, but for the one
whose execution it carries the outcome of; and it shows a task as run by another worker
only as that version does. -/
def KeepsRunning (s : System) (w : Uuid) (executed : Option Uuid) (job : Job) : Prop :=
  ∃ e ∈ s.history, e.iterNum = job.iterNum ∧ e.version = job.version ∧
    (∀ id t, e.tasks.get id = some t → t.isActive s.clock = true →
      (∃ u, job.task? id = some u ∧ u.persisted = t) ∨
        (executed = some id ∧ t.processingByWorker = some w)) ∧
    ∀ id u, job.task? id = some u → u.status = .started → u.processingByWorker ≠ some w →
      e.tasks.get id = some u.persisted

/-- Whatever the store shows the worker itself running is in the copy. -/
def SeesOwn (s : System) (w : Uuid) (job : Job) : Prop :=
  ∀ c, s.history.current job.iterNum = some c → ∀ id t, c.tasks.get id = some t →
    t.processingByWorker = some w → t.isActive s.clock = true →
    ∃ u, job.task? id = some u ∧ u.persisted = t

/-- What holds of a copy about to be written, by what the write is about. -/
def RunningSave (s : System) (w : Uuid) (job : Job) : Purpose → Prop
  | .create => ∀ id t, job.task? id = some t → t.status ≠ .started
  | .nextIteration _ => ∀ id t, job.task? id = some t → t.status ≠ .started
  | .start _ => KeepsRunning s w none job ∧ SeesOwn s w job
  | .result taskId => KeepsRunning s w (some taskId) job
  | .settle => KeepsRunning s w none job

/-- What holds of a worker, by what it is doing. -/
def RunningPhase (s : System) (w : Uuid) : Phase → Prop
  | .idle => True
  | .missing => True
  | .loaded job => KeepsRunning s w none job ∧ SeesOwn s w job
  | .executing job taskId => KeepsRunning s w (some taskId) job
  | .saving job purpose => RunningSave s w job purpose
  | .conflicted job purpose => RunningSave s w job purpose
  | .merging job saved purpose => RunningSave s w job purpose ∧ SeesOwn s w saved ∧
      ∀ taskId, purpose = .start taskId → ∀ t, saved.task? taskId = some t →
        t.processingByWorker = some w → t.isActive s.clock = true →
        ∃ u, job.task? taskId = some u ∧ u.persisted = t.persisted

/-- Until its deadline, a task shown as running keeps its entry, or its worker has saved
what came of its execution. -/
def KeepsEntries (h : History) : Prop :=
  ∀ (newer : History) (later : Entry) (between : History) (earlier : Entry) (older : History),
    h = newer ++ later :: (between ++ earlier :: older) → later.iterNum = earlier.iterNum →
    ∀ id t w, earlier.tasks.get id = some t → t.isActive later.writtenAt = true →
      t.processingByWorker = some w →
      (∃ k ∈ later :: between, k.writer = w ∧ k.purpose = .result id) ∨
        later.tasks.get id = some t

/-- The invariant behind exclusive ownership. -/
structure RunningInv (s : System) : Prop where
  written : ∀ e ∈ s.history, e.writtenAt ≤ s.clock
  kept : KeepsEntries s.history
  workers : ∀ w, RunningPhase s w (s.workers w).phase

/-! ## Runs that leave other running tasks alone -/

/-- The task a handle call names, where it resolves one. -/
def HandleCall.resolves : HandleCall → Option Uuid
  | .completeTask id _ => some id
  | .failTask id _ _ => some id
  | _ => none

/-- Whether a worker's own entry of a task is the stored one, where that shows a running
task. -/
def agreesOnRunning (t : Task) (stored : Option Task) (now : Nat) : Bool :=
  match stored with
  | none => true
  | some stored => t.persisted = stored.persisted || !stored.isActive now

/-- Whether an action leaves other running tasks alone: a merge of a result that goes through
carries no entry of another task that differs from a stored running one, and a handle call
resolves the task that is executed or one that runs no longer. -/
def sparesRunning (s : System) : Action → Bool
  | .move w (.merge _ _) =>
      match (s.workers w).phase with
      | .merging job saved (.result taskId) =>
          !saved.acceptsResult job w taskId ||
            job.tasks.all fun t => t.id = taskId || t.processingByWorker ≠ some w ||
              agreesOnRunning t (saved.task? t.id) s.clock
      | _ => true
  | .move w (.call _ call) =>
      match (s.workers w).phase with
      | .executing job taskId =>
          call.resolves.all fun id => id = taskId || (job.task? id).all (!·.isActive s.clock)
      | _ => true
  | _ => true

/-- Whether an action takes no running task away: it leaves other running tasks alone, and
keeps whoever created a task done. -/
def takesNoRunning (s : System) (a : Action) : Bool := sparesRunning s a && keepsCreators s a

theorem agrees_of_sparesRunning {s : System} {w taskId : Uuid} {first second : Nat}
    {job saved : Job} (hphase : (s.workers w).phase = .merging job saved (.result taskId))
    (h : sparesRunning s (.move w (.merge first second)) = true)
    (haccepts : saved.acceptsResult job w taskId = true) {id : Uuid}
    {t stored : Task} (hid : id ≠ taskId) (ht : job.task? id = some t)
    (howner : t.processingByWorker = some w) (hstored : saved.task? id = some stored)
    (hactive : stored.isActive s.clock = true) : t.persisted = stored.persisted := by
  simp only [sparesRunning, hphase, haccepts, Bool.not_true, Bool.false_or,
    List.all_eq_true] at h
  have hagrees := h t (Job.mem_tasks_of_task? ht)
  rw [Job.id_of_task? ht, hstored] at hagrees
  simpa [hid, howner, agreesOnRunning, hactive] using hagrees

theorem executed_of_sparesRunning {s : System} {w taskId : Uuid} {now : Nat}
    {call : HandleCall} {job : Job} (hphase : (s.workers w).phase = .executing job taskId)
    (h : sparesRunning s (.move w (.call now call)) = true) {id : Uuid} {t : Task}
    (ht : job.task? id = some t) (hactive : t.isActive s.clock = true)
    (htouch : call.touches taskId (.resolved id)) : id = taskId := by
  rw [sparesRunning, hphase] at h
  cases call with
  | completeTask id' output =>
      cases htouch
      simpa [HandleCall.resolves, ht, hactive] using h
  | failTask id' errorMsg retry =>
      cases htouch
      simpa [HandleCall.resolves, ht, hactive] using h
  | skipTaskBranch reason =>
      cases htouch
      rfl
  | addTask taskDef mintedId => cases htouch
  | setNextStartAt nextStartAt => cases htouch

section Copies

variable {jobDef : JobDefinition} {g : Pedigree} {s s' : System} {w : Uuid} {job job' : Job}
  {executed : Option Uuid}

/-- What a copy knows of running tasks survives its worker's steps, if they resolve no
running task but the one executed. -/
theorem KeepsRunning.run {touches : Touch → Prop} {lo hi : Nat}
    (hkeeps : KeepsRunning s w executed job)
    (hrun : SteadyRun .shared w touches lo hi job.tasksById job'.tasksById) (hle : hi ≤ s.clock)
    (hframe : Frame job job') (hsound : ∀ id t, job.task? id = some t → Sound t)
    (hresolves : ∀ id t, job.task? id = some t → t.isActive s.clock = true →
      touches (.resolved id) → executed = some id) :
    KeepsRunning s w executed job' := by
  obtain ⟨e, he, hiter, hversion, hactive, hforeign⟩ := hkeeps
  refine ⟨e, he, hiter.trans hframe.iterNum.symm, hversion.trans hframe.version.symm, ?_, ?_⟩
  · intro id t ht hruns
    rcases hactive id t ht hruns with ⟨u, hu, rfl⟩ | hexecuted
    · rcases SteadyRun.keeps_active hrun hle hu (hsound id u hu) hruns with
        hkept | ⟨htouch, howner⟩
      · exact Or.inl ⟨u, hkept, rfl⟩
      · exact Or.inr ⟨hresolves id u hu hruns htouch, howner⟩
    · exact Or.inr hexecuted
  · intro id u hu hstarted howner
    exact hforeign id u (LocalRun.foreign_started hrun.toLocal id u hu hstarted howner) hstarted
      howner

/-- So does what it sees of the worker's own running tasks, if none of them is resolved. -/
theorem SeesOwn.run {touches : Touch → Prop} {lo hi : Nat} (hsees : SeesOwn s w job)
    (hrun : SteadyRun .shared w touches lo hi job.tasksById job'.tasksById) (hle : hi ≤ s.clock)
    (hframe : Frame job job') (hsound : ∀ id t, job.task? id = some t → Sound t)
    (hnone : ∀ p, ¬ touches (.resolved p)) : SeesOwn s w job' := by
  intro c hc id t ht howner hruns
  rw [hframe.iterNum] at hc
  obtain ⟨u, hu, rfl⟩ := hsees c hc id t ht howner hruns
  rcases SteadyRun.keeps_active hrun hle hu (hsound id u hu) hruns with hkept | ⟨htouch, -⟩
  · exact ⟨u, hkept, rfl⟩
  · exact absurd htouch (hnone id)

/-- What a copy of a version knows of running tasks. -/
theorem keepsRunning_of_loaded {e : Entry} (he : e ∈ s.history)
    (hloaded : LoadedFrom jobDef e job) : KeepsRunning s w none job := by
  refine ⟨e, he, hloaded.iter, hloaded.version, ?_, ?_⟩
  · intro id t ht _
    obtain ⟨u, hu, rfl⟩ := hloaded.exists_get ht
    exact Or.inl ⟨u, hu, rfl⟩
  · intro id u hu _ _
    exact hloaded.get hu

/-- A copy of the current version sees its reader's own running tasks. -/
theorem seesOwn_of_loaded {n : Nat} {e : Entry} (he : s.history.current n = some e)
    (hloaded : LoadedFrom jobDef e job) : SeesOwn s w job := by
  obtain ⟨-, hiter⟩ := current_mem he
  intro c hc id t ht _ _
  rw [← hloaded.iter, hiter, he] at hc
  cases hc
  obtain ⟨u, hu, rfl⟩ := hloaded.exists_get ht
  exact ⟨u, hu, rfl⟩

/-- A stored entry a worker's own task is merged onto belongs to that worker, if it runs. -/
theorem owner_of_active {t : Task} (hsound : Sound t) (hactive : t.isActive s.clock = true)
    (howner : t.processingByWorker = none ∨ t.processingByWorker = some w) :
    t.processingByWorker = some w :=
  howner.resolve_left (hsound.owned (Or.inl (Task.isActive_eq_true.mp hactive).1))

/-- A start repeated on top of the state that won. -/
theorem RunningPhase.mergeStart {saved : Job} {taskId : Uuid} {stored workerTask : Task}
    {m : TaskMap} {first second : Nat}
    (hok : PhaseOk .shared jobDef g s w (.merging job saved (.start taskId)))
    (hknows : RunningPhase s w (.merging job saved (.start taskId)))
    (hstored : saved.task? taskId = some stored)
    (howner : stored.processingByWorker = none ∨ stored.processingByWorker = some w)
    (hworker : job.task? taskId = some workerTask) (hle : second ≤ s.clock)
    (hrun : DerivedRun .shared w first second saved.tasksById m)
    (htasks : job'.tasksById = m.insert workerTask) (hframe : Frame saved job') :
    RunningPhase s w (.saving job' (.start taskId)) := by
  obtain ⟨hcopy, -, ⟨-, -, t₀, ht₀, hstarted, hself⟩, hsaved, e, he, hloaded⟩ := hok
  obtain ⟨⟨-, hsees⟩, hseesSaved, hsame⟩ := hknows
  rw [hworker] at ht₀
  cases ht₀
  have hid : workerTask.id = taskId := Job.id_of_task? hworker
  have hiter : saved.iterNum = job.iterNum :=
    sameIteration hcopy.fits hsaved.fits hworker hstored
  have hother : ∀ {id : Uuid} {t : Task}, saved.task? id = some t →
      t.isActive s.clock = true → id ≠ taskId → job'.task? id = some t := by
    intro id t ht hruns hne
    rcases SteadyRun.keeps_active (LocalRun.steady (by simp) hrun) hle ht
      (hsaved.fits.sound id t ht) hruns with hkept | ⟨htouch, -⟩
    · rw [Job.task?, htasks, KeyedMap.get_insert_of_ne m (by rw [hid]; exact fun h => hne h.symm)]
      exact hkept
    · cases htouch
  have hownEntry : job'.task? taskId = some workerTask := by
    rw [Job.task?, htasks, ← hid]
    exact KeyedMap.get_insert_self m workerTask
  refine ⟨⟨e, he, hloaded.iter.trans hframe.iterNum.symm,
    hloaded.version.trans hframe.version.symm, ?_, ?_⟩, ?_⟩
  · intro id t ht hruns
    left
    obtain ⟨u, hu, rfl⟩ := hloaded.exists_get ht
    by_cases hne : id = taskId
    · subst hne
      rw [hstored] at hu
      cases hu
      obtain ⟨v, hv, hpersisted⟩ := hsame id rfl stored hstored
        (owner_of_active (hsaved.fits.sound id stored hstored) hruns howner) hruns
      rw [hworker] at hv
      cases hv
      exact ⟨workerTask, hownEntry, hpersisted⟩
    · exact ⟨u, hother hu hruns hne, rfl⟩
  · intro id u hu hruns hne
    have hu' : (m.insert workerTask).get id = some u := htasks ▸ hu
    rcases get_insert_cases m workerTask id with ⟨-, hinserted⟩ | ⟨-, hkept⟩
    · rw [hinserted] at hu'
      cases hu'
      exact absurd hself hne
    · exact hloaded.get (LocalRun.foreign_started hrun id u (hkept ▸ hu') hruns hne)
  · intro c hc id t ht hown hruns
    rw [hframe.iterNum] at hc
    by_cases hne : id = taskId
    · subst hne
      obtain ⟨u, hu, hpersisted⟩ := hsees c (hiter ▸ hc) id t ht hown hruns
      rw [hworker] at hu
      cases hu
      exact ⟨workerTask, hownEntry, hpersisted⟩
    · obtain ⟨u, hu, rfl⟩ := hseesSaved c hc id t ht hown hruns
      exact ⟨u, hother hu hruns hne, rfl⟩

/-- A result repeated on top of the state that won, leaving other running tasks alone. -/
theorem RunningPhase.mergeResult {saved base : Job} {taskId : Uuid} {stored : Task} {now : Nat}
    (hok : PhaseOk .shared jobDef g s w (.merging job saved (.result taskId)))
    (hstored : saved.task? taskId = some stored)
    (howner : stored.processingByWorker = none ∨ stored.processingByWorker = some w)
    (htasks : base.tasksById = (saved.carryTasks job w).tasksById) (hframe : Frame saved base)
    (hfrom : Job.SettledFrom base w now job') (hle : now ≤ s.clock)
    (hspares : ∀ id t stored, id ≠ taskId → job.task? id = some t →
      t.processingByWorker = some w → saved.task? id = some stored →
      stored.isActive s.clock = true → t.persisted = stored.persisted) :
    RunningPhase s w (.saving job' (.result taskId)) := by
  obtain ⟨hcopy, -, -, hsaved, e, he, hloaded⟩ := hok
  have hframe' : Frame saved job' := hframe.trans hfrom.frame
  have hrun : DerivedRun .shared w now now (saved.carryTasks job w).tasksById
      job'.tasksById := htasks ▸ hfrom.run
  have hsound : ∀ id t, (saved.carryTasks job w).tasksById.get id = some t → Sound t := by
    intro id t ht
    rcases carry_cases ht with ⟨hin, -⟩ | ⟨hin, -⟩
    · exact hcopy.fits.sound id t hin
    · exact hsaved.fits.sound id t hin
  refine ⟨e, he, hloaded.iter.trans hframe'.iterNum.symm,
    hloaded.version.trans hframe'.version.symm, ?_, ?_⟩
  · intro id t ht hruns
    obtain ⟨t₀, ht₀, rfl⟩ := hloaded.exists_get ht
    by_cases hne : id = taskId
    · subst hne
      rw [hstored] at ht₀
      cases ht₀
      exact Or.inr ⟨rfl, owner_of_active (hsaved.fits.sound id stored hstored).persisted hruns
        howner⟩
    · left
      obtain ⟨u, hu⟩ := carry_of_saved job w ht₀
      have hpersisted : u.persisted = t₀.persisted := by
        rcases carry_cases hu with ⟨hin, hcarried⟩ | ⟨hin, -⟩
        · exact hspares id u t₀ hne hin (isCarried_of_stored hin ht₀ hcarried) ht₀ hruns
        · rw [ht₀] at hin
          cases hin
          rfl
      have hactive : u.isActive s.clock = true := by
        rw [← Task.isActive_persisted, hpersisted]
        exact hruns
      rcases SteadyRun.keeps_active (LocalRun.steady (by simp) hrun) hle hu (hsound id u hu)
        hactive with hkept | ⟨htouch, -⟩
      · exact ⟨u, hkept, hpersisted⟩
      · cases htouch
  · intro id u hu hstarted hne
    have hbefore := LocalRun.foreign_started hrun id u hu hstarted hne
    rcases carry_cases hbefore with ⟨hin, hcarried⟩ | ⟨hin, -⟩
    · -- what the filter lets through is the worker's own or was never started
      have howned := (hcopy.fits.sound id u hin).owned (Or.inl hstarted)
      simp [Job.isCarried, Job.isCreatedNow, Job.isProcessedNow, hne, howned] at hcarried
    · exact hloaded.get hin

end Copies

/-! ## Every action -/

section Actions

variable {jobDef : JobDefinition} {g : Pedigree} {s s' : System} {w : Uuid} {job : Job}
  {purpose : Purpose} {version : String}

/-- A freshly planned iteration shows no task as running. -/
theorem not_started_of_planned {ids : List Uuid} (hplanned : job.Planned jobDef w ids) :
    ∀ id t, job.task? id = some t → t.status ≠ .started := by
  intro id t ht hstarted
  obtain ⟨p, taskDef, resolved, -, -, -, hnew⟩ := hplanned.planned id t ht
  rw [hnew] at hstarted
  unfold Task.new at hstarted
  cases hempty : resolved.isEmpty <;> simp [hempty] at hstarted

/-- Every move keeps what its worker knows of running tasks, if it leaves those of others
alone. -/
theorem RunningPhase.moves (hinv : Inv .shared jobDef g s) (hcalm : Calm s)
    (hrunning : RunningInv s) {p p' : Phase} {action : WorkerAction} {ids : List Uuid}
    (hphase : (s.workers w).phase = p) (hspares : sparesRunning s (.move w action) = true)
    (hmoves : Moves .shared jobDef s w p action p' ids) : RunningPhase s w p' := by
  have hok := hinv.workers w
  have hknows := hrunning.workers w
  have hunder := hcalm.workers w
  rw [hphase] at hok hknows hunder
  cases hmoves with
  | idle => trivial
  | missing _ => trivial
  | read hread hserves =>
      obtain ⟨hcurrent, hmem, -, hloaded, -⟩ := read_loaded (w := w) hinv hread hserves
      exact ⟨keepsRunning_of_loaded hmem hloaded, seesOwn_of_loaded hcurrent hloaded⟩
  | create _ _ hplanned _ => exact not_started_of_planned hplanned
  | advance _ _ _ _ _ hplanned _ => exact not_started_of_planned hplanned
  | @start job job' m t t' moments now _ hrun hle ht hstart htasks hframe _ =>
      have hpickup := localRun_of_start hrun ht hstart htasks
      have hnone : ∀ p, ¬ Touch.IsPickup (.resolved p) := by
        intro p
        simp [Touch.IsPickup]
      have hsteady := LocalRun.steady hnone hpickup
      exact ⟨hknows.1.run hsteady hle hframe hok.1.fits.sound
        (fun id _ _ _ htouch => absurd htouch (hnone id)),
        hknows.2.run hsteady hle hframe hok.1.fits.sound hnone⟩
  | settle _ hrun hle hframe _ _ _ _ =>
      exact hknows.1.run (LocalRun.steady (by simp) hrun) hle hframe hok.1.fits.sound (by simp)
  | refused => exact hknows
  | @reread job saved purpose n kept e hread hserves =>
      obtain ⟨hcurrent, -, hiter, hloaded, hsaved⟩ := read_loaded (w := w) hinv hread hserves
      refine ⟨hknows, seesOwn_of_loaded hcurrent hloaded, ?_⟩
      rintro taskId rfl t ht howner hruns
      obtain ⟨hcopy, -, -, -, t₀, ht₀, -⟩ := hok
      have hsame : saved.iterNum = job.iterNum :=
        sameIteration hcopy.fits hsaved.fits ht₀ ht
      exact hknows.2 e (by rw [← hsame, ← hloaded.iter, hiter]; exact hcurrent) taskId
        t.persisted (hloaded.get ht) howner hruns
  | adopt _ =>
      obtain ⟨-, -, -, -, e, he, hloaded⟩ := hok
      exact ⟨keepsRunning_of_loaded he hloaded, hknows.2.1⟩
  | mergeStart _ hle hstored howner hworker _ _ hrun _ _ htasks hframe _ =>
      exact RunningPhase.mergeStart hok hknows hstored howner hworker hle hrun htasks hframe
  | mergeResult _ hle _ hstored howner htasks hframe _ hfrom haccepts =>
      exact RunningPhase.mergeResult hok hstored howner htasks hframe hfrom hle
        fun id t stored hid ht hself hstored' hactive =>
          agrees_of_sparesRunning hphase hspares haccepts hid ht hself hstored' hactive
  | @call job job' taskId now call _ hle hminted hserve =>
      obtain ⟨e, -, -, -, hworks⟩ := hunder
      refine hknows.run (hworks.serve (hok.1.lacks_fresh hminted) hserve).2 hle
        (call_worked hok.1 hminted hserve).frame hok.1.fits.sound ?_
      intro id t ht hactive htouch
      rw [executed_of_sparesRunning hphase hspares ht hactive htouch]
  | callRefused => exact hknows
  | @finish job job₁ job' taskId _ _ _ _ _ hle hclock _ hworked hfrom =>
      obtain ⟨e, -, -, -, hworks⟩ := hunder
      have hfits := LocalRun.fits hworked.run (by simp) hok.1.fits
      have hsteady := (hworks.run (fun _ htouch => ⟨taskId, htouch⟩) hworked.run).2
      have hrecorded : KeepsRunning s w (some taskId) job₁ := by
        refine KeepsRunning.run hknows hsteady (Nat.le_trans hle hclock) hworked.frame
          hok.1.fits.sound ?_
        intro id t _ _ htouch
        cases htouch
        rfl
      exact hrecorded.run (LocalRun.steady (by simp) hfrom.run) hclock hfrom.frame hfits.sound
        (by simp)

theorem KeepsRunning.later {executed : Option Uuid} (hclock : s.clock ≤ s'.clock)
    (hsub : ∀ e ∈ s.history, e ∈ s'.history) (h : KeepsRunning s w executed job) :
    KeepsRunning s' w executed job := by
  obtain ⟨e, he, hiter, hversion, hactive, hforeign⟩ := h
  exact ⟨e, hsub e he, hiter, hversion,
    fun id t ht hruns => hactive id t ht (Task.isActive_earlier hclock hruns), hforeign⟩

/-- What holds of a worker survives whatever lets it see its own running tasks still. -/
theorem RunningPhase.later {p : Phase} (hclock : s.clock ≤ s'.clock)
    (hsub : ∀ e ∈ s.history, e ∈ s'.history)
    (hsees : ∀ job, SeesOwn s w job → SeesOwn s' w job) (h : RunningPhase s w p) :
    RunningPhase s' w p := by
  have hsave : ∀ {job : Job} {purpose : Purpose}, RunningSave s w job purpose →
      RunningSave s' w job purpose := by
    intro job purpose hsave
    cases purpose with
    | create => exact hsave
    | nextIteration readyAt => exact hsave
    | start taskId => exact ⟨hsave.1.later hclock hsub, hsees job hsave.2⟩
    | result taskId => exact hsave.later hclock hsub
    | settle => exact hsave.later hclock hsub
  cases p with
  | idle => trivial
  | missing => trivial
  | loaded job => exact ⟨h.1.later hclock hsub, hsees job h.2⟩
  | executing job taskId => exact KeepsRunning.later hclock hsub h
  | saving job purpose => exact hsave h
  | conflicted job purpose => exact hsave h
  | merging job saved purpose =>
      refine ⟨hsave h.1, hsees saved h.2.1, ?_⟩
      intro taskId hpurpose t ht howner hruns
      exact h.2.2 taskId hpurpose t ht howner (Task.isActive_earlier hclock hruns)

/-- What a write that was accepted shows as run by another worker, the version it replaced
showed so too. -/
theorem foreign_of_put (hinv : Inv .shared jobDef g s)
    (hbasis : SavingBasis .shared jobDef s w job purpose)
    (haccepts : s.history.accepts job = true) (hsave : RunningSave s w job purpose) {id : Uuid}
    {u : Task} (hu : job.task? id = some u) (hstarted : u.status = .started)
    (howner : u.processingByWorker ≠ some w) :
    ∃ c, s.history.current job.iterNum = some c ∧ c.tasks.get id = some u.persisted := by
  have hkeeps : ∃ executed, KeepsRunning s w executed job := by
    cases purpose with
    | create => exact absurd hstarted (hsave id u hu)
    | nextIteration readyAt => exact absurd hstarted (hsave id u hu)
    | start taskId => exact ⟨none, hsave.1⟩
    | result taskId => exact ⟨some taskId, hsave⟩
    | settle => exact ⟨none, hsave⟩
  obtain ⟨executed, e, he, hiter, hversion, -, hforeign⟩ := hkeeps
  obtain ⟨c, hc⟩ := current_of_mem he
  rw [hiter] at hc
  obtain ⟨-, hcversion⟩ := accepts_current haccepts hc
  obtain ⟨hmem, hciter⟩ := current_mem hc
  have hstate : e.state = c.state := hinv.versions e he c hmem (hiter.trans hciter.symm)
    (hversion.trans hcversion.symm)
  refine ⟨c, hc, ?_⟩
  have hbefore := hforeign id u hu hstarted howner
  unfold Entry.tasks at hbefore ⊢
  rwa [← hstate]

/-- What another worker sees of its own running tasks survives a write. -/
theorem SeesOwn.put (hinv : Inv .shared jobDef g s)
    (hbasis : SavingBasis .shared jobDef s w job purpose)
    (haccepts : s.history.accepts job = true) (hsave : RunningSave s w job purpose)
    {w' : Uuid} (hne : w' ≠ w) {job' : Job} (p : Phase) (hsees : SeesOwn s w' job') :
    SeesOwn (s.commit w (.ofJob job version w purpose s.clock) p) w' job' := by
  intro c hc id t ht howner hruns
  rw [System.history_commit, current_cons] at hc
  split at hc <;> rename_i hiter
  · cases hc
    obtain ⟨u, hu, rfl⟩ := get_ofJob_eq_some ht
    have hother : u.processingByWorker ≠ some w := by
      rw [show u.processingByWorker = some w' from howner]
      simpa using hne
    obtain ⟨c, hc, hbefore⟩ := foreign_of_put hinv hbasis haccepts hsave hu
      (Task.isActive_eq_true.mp hruns).1 hother
    have hcurrent : s.history.current job'.iterNum = some c := by
      rw [← hc, ← hiter]
      rfl
    exact hsees c hcurrent id u.persisted hbefore howner hruns
  · exact hsees c hc id t ht howner hruns

/-- Where an accepted write leaves its own worker. -/
theorem RunningPhase.afterPut (hinv : Inv .shared jobDef g s)
    (hphase : (s.workers w).phase = .saving job purpose)
    (hsave : RunningSave s w job purpose) (delivered : Bool) :
    RunningPhase (s.commit w (.ofJob job version w purpose s.clock)
      (afterPut job purpose version delivered)) w (afterPut job purpose version delivered) := by
  have hok := hinv.workers w
  rw [hphase] at hok
  obtain ⟨-, -, hbasis⟩ := hok
  have hsees : ∀ version' p, SeesOwn (s.commit w (.ofJob job version w purpose s.clock) p) w
      (job.updateVersion version') := by
    intro version' p c hc id t ht _ _
    have hsame : (Entry.ofJob job version w purpose s.clock).iterNum =
        (job.updateVersion version').iterNum := rfl
    rw [System.history_commit, current_cons, if_pos hsame] at hc
    cases hc
    obtain ⟨u, hu, rfl⟩ := get_ofJob_eq_some ht
    exact ⟨u, hu, rfl⟩
  have hkeeps : ∀ executed p, KeepsRunning (s.commit w (.ofJob job version w purpose s.clock) p) w
      executed (job.updateVersion version) := by
    intro executed p
    refine ⟨_, List.mem_cons_self .., rfl, rfl, ?_, ?_⟩
    · intro id t ht _
      obtain ⟨u, hu, rfl⟩ := get_ofJob_eq_some ht
      exact Or.inl ⟨u, hu, rfl⟩
    · intro id u hu _ _
      rw [get_ofJob, show job.task? id = some u from hu]
      rfl
  cases delivered with
  | true =>
      cases purpose with
      | create => exact ⟨hkeeps _ _, hsees _ _⟩
      | nextIteration readyAt => exact ⟨hkeeps _ _, hsees _ _⟩
      | start taskId => exact hkeeps _ _
      | result taskId => trivial
      | settle => trivial
  | false =>
      have hsub : ∀ p, ∀ e ∈ s.history,
          e ∈ (s.commit w (.ofJob job version w purpose s.clock) p).history :=
        fun p e he => List.mem_cons_of_mem _ he
      cases purpose with
      | create => exact hsave
      | nextIteration readyAt => exact hsave
      | start taskId =>
          exact ⟨hsave.1.later (s := s) (Nat.le_refl _) (hsub _), hsees job.version _⟩
      | result taskId => exact KeepsRunning.later (s := s) (Nat.le_refl _) (hsub _) hsave
      | settle => exact KeepsRunning.later (s := s) (Nat.le_refl _) (hsub _) hsave

/-- The current version of an iteration is not older than any version of it. -/
theorem current_split {n : Nat} {c earlier : Entry} {older : History}
    (hiter : earlier.iterNum = n) :
    ∀ {between : History}, History.current (between ++ earlier :: older) n = some c →
      c = earlier ∨ ∃ front back, between = front ++ c :: back := by
  intro between
  induction between with
  | nil =>
      intro hc
      rw [List.nil_append, current_cons, if_pos hiter] at hc
      cases hc
      exact Or.inl rfl
  | cons k between ih =>
      intro hc
      rw [List.cons_append, current_cons] at hc
      split at hc
      · cases hc
        exact Or.inr ⟨[], between, rfl⟩
      · rcases ih hc with heq | ⟨front, back, rfl⟩
        · exact Or.inl heq
        · exact Or.inr ⟨k :: front, back, rfl⟩

/-- An accepted write keeps the entries of running tasks, unless it saves what came of
them. -/
theorem KeepsEntries.put (hinv : Inv .shared jobDef g s) (hrunning : RunningInv s)
    (hbasis : SavingBasis .shared jobDef s w job purpose)
    (haccepts : s.history.accepts job = true) (hsave : RunningSave s w job purpose) :
    KeepsEntries (.ofJob job version w purpose s.clock :: s.history) := by
  intro newer later between earlier older hsplit hiter id t owner ht hruns howner
  cases newer with
  | cons k newer =>
      rw [List.cons_append, List.cons.injEq] at hsplit
      exact hrunning.kept newer later between earlier older hsplit.2 hiter id t owner ht hruns
        howner
  | nil =>
      rw [List.nil_append, List.cons.injEq] at hsplit
      obtain ⟨rfl, hhistory⟩ := hsplit
      have hmem : earlier ∈ s.history := by
        rw [hhistory]
        simp
      obtain ⟨c, hc⟩ := current_of_mem hmem
      obtain ⟨hcmem, hciter⟩ := current_mem hc
      -- the version replaced shows the task as running, or the result was saved before it
      have hcurrent : (∃ k ∈ between, k.writer = owner ∧ k.purpose = .result id) ∨
          c.tasks.get id = some t := by
        have hc' := hc
        rw [hhistory] at hc'
        rcases current_split rfl hc' with rfl | ⟨front, back, rfl⟩
        · exact Or.inr ht
        · have hsplit' : s.history = front ++ c :: (back ++ earlier :: older) := by
            rw [hhistory, List.append_assoc, List.cons_append]
          rcases hrunning.kept front c back earlier older hsplit' hciter id t owner ht
            (Task.isActive_earlier (hrunning.written c hcmem) hruns) howner with
            ⟨k, hk, hresult⟩ | hkept
          · exact Or.inl ⟨k, List.mem_append_right front hk, hresult⟩
          · exact Or.inr hkept
      rcases hcurrent with ⟨k, hk, hresult⟩ | hshows
      · exact Or.inl ⟨k, List.mem_cons_of_mem _ hk, hresult⟩
      have hiter' : earlier.iterNum = job.iterNum := hiter.symm
      rw [hiter'] at hc
      obtain ⟨hversion, hcversion⟩ := accepts_current haccepts hc
      have hkeeps : ∃ executed, KeepsRunning s w executed job ∧
          ∀ id, executed = some id → purpose = .result id := by
        cases purpose with
        | create => exact absurd hbasis.1 hversion
        | nextIteration readyAt => exact absurd hbasis.1 hversion
        | start taskId => exact ⟨none, hsave.1, by simp⟩
        | result taskId => exact ⟨some taskId, hsave, by simp⟩
        | settle => exact ⟨none, hsave, by simp⟩
      obtain ⟨executed, ⟨e, he, heiter, heversion, hactive, -⟩, hexecuted⟩ := hkeeps
      have hstate : c.state = e.state := hinv.versions c hcmem e he
        (hciter.trans (hiter'.trans heiter.symm)) (hcversion.trans heversion.symm)
      have hbase : e.tasks.get id = some t := by
        unfold Entry.tasks at hshows ⊢
        rwa [← hstate]
      rcases hactive id t hbase hruns with ⟨u, hu, rfl⟩ | ⟨hid, hself⟩
      · right
        rw [get_ofJob, hu]
        rfl
      · left
        rw [howner] at hself
        cases hself
        exact ⟨_, List.mem_cons_self .., rfl, hexecuted id hid⟩

theorem RunningInv.step (hinv : Inv .shared jobDef g s) (hcalm : Calm s)
    (hrunning : RunningInv s) {a : Action}
    (hspares : sparesRunning s a = true) (h : step .shared jobDef s a = some s') :
    RunningInv s' := by
  rcases step_cases h with ⟨elapsed, rfl, rfl⟩ | ⟨w, action, phase, ids, rfl, hmoves, rfl⟩ |
    ⟨w, version, delivered, job, purpose, rfl, hphase, haccepts, hissue, rfl⟩
  · have hclock : s.clock ≤ s.clock + elapsed := Nat.le_add_right _ _
    refine ⟨fun e he => Nat.le_trans (hrunning.written e he) hclock, hrunning.kept, ?_⟩
    intro w
    refine (hrunning.workers w).later hclock (fun e he => he) ?_
    intro job hsees c hc id t ht howner hruns
    exact hsees c hc id t ht howner (Task.isActive_earlier hclock hruns)
  · refine ⟨hrunning.written, hrunning.kept, ?_⟩
    intro w'
    by_cases hw : w' = w
    · subst hw
      rw [System.enter_self]
      exact (RunningPhase.moves hinv hcalm hrunning rfl hspares hmoves).later (Nat.le_refl _)
        (fun e he => he) (fun job hsees => hsees)
    · rw [System.enter_of_ne _ _ _ _ hw]
      exact (hrunning.workers w').later (Nat.le_refl _) (fun e he => he) (fun job hsees => hsees)
  · have hok := hinv.workers w
    have hknows := hrunning.workers w
    rw [hphase] at hok hknows
    refine ⟨?_, KeepsEntries.put hinv hrunning hok.2.2 haccepts hknows, ?_⟩
    · intro e he
      rcases List.mem_cons.mp he with rfl | he
      · exact Nat.le_refl _
      · exact hrunning.written e he
    · intro w'
      by_cases hw : w' = w
      · subst hw
        rw [System.commit_self]
        exact RunningPhase.afterPut hinv hphase hknows delivered
      · rw [System.commit_of_ne _ _ _ _ hw]
        exact RunningPhase.later (s := s) (Nat.le_refl _)
          (fun e he => List.mem_cons_of_mem _ he)
          (fun job' hsees => hsees.put hinv hok.2.2 haccepts hknows hw _) (hrunning.workers w')

end Actions

/-- A running task is exclusive: no version written by its deadline shows it started by
another worker or free to be picked up, unless its worker has saved what came of its
execution by then. -/
def OwnersExclusive (h : History) : Prop :=
  ∀ (newer : History) (later : Entry) (between : History) (earlier : Entry) (older : History),
    h = newer ++ later :: (between ++ earlier :: older) → later.iterNum = earlier.iterNum →
    ∀ id t w d, earlier.tasks.get id = some t → t.status = .started →
      t.processingByWorker = some w → t.deadlineAt = some d → later.writtenAt ≤ d →
      (∃ k ∈ later :: between, k.writer = w ∧ k.purpose = .result id) ∨
        ∀ t', later.tasks.get id = some t' →
          ¬ (t'.status = .started ∧ t'.processingByWorker ≠ some w) ∧ t'.status ≠ .todo ∧
            ¬ (t'.status = .failed ∧ t'.isTerminallyFailedAt later.writtenAt = false)

theorem KeepsEntries.exclusive {h : History} (hkept : KeepsEntries h) : OwnersExclusive h := by
  intro newer later between earlier older hsplit hiter id t w d ht hstarted howner hd hle
  have hactive : t.isActive later.writtenAt = true := by
    refine Task.isActive_eq_true.mpr ⟨hstarted, ?_⟩
    by_contra hexpired
    obtain ⟨d', hd', hlt⟩ := Task.isExpiredAt_eq_true.mp (by simpa using hexpired)
    rw [hd] at hd'
    cases hd'
    omega
  rcases hkept newer later between earlier older hsplit hiter id t w ht hactive howner with
    hresult | hsame
  · exact Or.inl hresult
  · right
    intro t' ht'
    rw [hsame] at ht'
    cases ht'
    simp [hstarted, howner]

/-- With one shared clock, a running task is exclusive along any run whose merges and
handle calls take no running task away. -/
theorem running_task_exclusive {jobDef : JobDefinition} (hdef : jobDef.Accepted) {s : System}
    (h : ReachableUnder (step .shared jobDef) (fun s a => takesNoRunning s a = true)
      System.init s) : OwnersExclusive s.history := by
  have hinit : RunningInv System.init := by
    refine ⟨by simp [System.init], ?_, fun _ => trivial⟩
    intro newer later between earlier older hsplit
    simp [System.init] at hsplit
  have hsplit : ∀ {s a}, takesNoRunning s a = true →
      sparesRunning s a = true ∧ keepsCreators s a = true := fun h => Bool.and_eq_true_iff.mp h
  obtain ⟨-, -, hrunning⟩ := reachable_calm hdef.wellFormed hinit
    (fun _ _ _ htakes => (hsplit htakes).2)
    (fun hinv hcalm hrunning htakes hstep =>
      hrunning.step hinv hcalm (hsplit htakes).1 hstep) h
  exact hrunning.kept.exclusive

theorem pairRace_exclusive :
    ∃ s, runAdmitted (step .shared pairDefinition) takesNoRunning System.init pairRace = some s ∧
      s.history.length = 5 ∧ OwnersExclusive s.history := by
  have hruns : (runAdmitted (step .shared pairDefinition) takesNoRunning System.init
      pairRace).map (fun s => s.history.length) = some 5 := by
    decide +kernel
  obtain ⟨s, hs, hlength⟩ := Option.map_eq_some_iff.mp hruns
  exact ⟨s, hs, hlength, running_task_exclusive pairDefinition_accepted
    (reachableUnder_of_runAdmitted .init hs)⟩

/-- The first worker fails the left task and starts the right one.  The second worker
starts the left task again, and the first one's save of the right task carries its own old
failure of the left one over that start. -/
def pairTheft : List Action :=
  [.move 101 .readNothing, .move 101 (.create 0 900 [1, 2]), .put 101 "v1" true,
    .move 101 (.pick (.at 0 [1, 2]) 0), .put 101 "v2" true,
    .move 101 (.finish (.error "out of reach") 0 0), .put 101 "v3" true,
    .tick (milliseconds 2000),
    .move 101 (.read 1 none),
    .move 101 (.pick (.at (milliseconds 2000) [2, 1]) (milliseconds 2000)), .put 101 "v4" true,
    .move 102 (.read 1 none),
    .move 102 (.pick (.at (milliseconds 2000) [1, 2]) (milliseconds 2000)), .put 102 "v5" true,
    .move 101 (.finish (.completed [8]) (milliseconds 2000) (milliseconds 2000)),
    .move 101 .refused, .move 101 (.reread 1 none),
    .move 101 (.merge (milliseconds 2000) (milliseconds 2000)), .put 101 "v6" true]

/-- Whether the newest version frees a task that the one before it shows as running within
its deadline by a worker that did not write it. -/
def newestFrees (id : Uuid) : History → Bool
  | later :: earlier :: _ =>
      later.iterNum = earlier.iterNum &&
        (earlier.tasks.get id).any (fun t => t.status = .started &&
          t.processingByWorker.any (· ≠ later.writer) &&
          t.deadlineAt.any (later.writtenAt ≤ ·)) &&
        (later.tasks.get id).any (fun t => t.status = .failed &&
          !t.isTerminallyFailedAt later.writtenAt)
  | _ => false

theorem not_exclusive_of_newestFrees {id : Uuid} {h : History}
    (hfrees : newestFrees id h = true) : ¬ OwnersExclusive h := by
  match h with
  | [] => cases hfrees
  | [_] => cases hfrees
  | later :: earlier :: older =>
      simp only [newestFrees, Bool.and_eq_true, decide_eq_true_eq, Option.any_eq_true,
        Bool.not_eq_true'] at hfrees
      obtain ⟨⟨hiter, t, ht, ⟨hstarted, w, howner, hne⟩, d, hd, hle⟩, t', ht', hfailed, hbudget⟩ :=
        hfrees
      intro hexclusive
      rcases hexclusive [] later [] earlier older rfl hiter id t w d ht hstarted howner hd hle with
        ⟨k, hk, hwriter, -⟩ | hfree
      · obtain rfl := List.mem_singleton.mp hk
        exact hne hwriter.symm
      · exact (hfree t' ht').2.2 ⟨hfailed, hbudget⟩

/-- A running task can be taken away from its worker. -/
theorem ownership_violated : pairDefinition.Accepted ∧
    ∃ s, Reachable (step .shared pairDefinition) System.init s ∧ ¬ OwnersExclusive s.history := by
  have hruns : (runActions (step .shared pairDefinition) System.init pairTheft).any
      (fun s => newestFrees 1 s.history) = true := by
    decide +kernel
  refine ⟨pairDefinition_accepted, ?_⟩
  obtain ⟨s, hs, hfrees⟩ := (Option.any_eq_true _ _).mp hruns
  exact ⟨s, reachable_of_runActions .init hs, not_exclusive_of_newestFrees hfrees⟩

end JobManager
