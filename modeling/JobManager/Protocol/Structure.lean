import JobManager.Protocol.Pedigree

/-!
# The structural invariant

What holds of every stored version and of every copy a worker holds, whatever the
interleaving and whatever the caches kept: the copies fit one pedigree and carry the
settings of the description, a reader's copy differs from the version in nothing the
store keeps, and a task no version holds is its worker's own creation.

Main definitions:

- {lit}`EntryOk`: what holds of a stored version.
- {lit}`PhaseOk`: what holds of a worker, by what it is doing.
- {lit}`Inv`: the structural invariant.
-/

namespace JobManager

variable {κ : Clocks}

/-! ## Closed iterations -/

/-- The task is done with: completed, skipped, or failed beyond retry. -/
def Finished (t : Task) (moment : Nat) : Prop :=
  t.status = .completed ∨ (∃ cause, t.status = .skipped cause) ∨
    t.isTerminallyFailedAt moment = true

/-- A closed job was closed at a moment none of its tasks was left to be done. -/
def Closes (job : Job) : Prop :=
  job.isProcessed = true → ∃ moment, job.completedAt = some moment ∧
    ∀ id t, job.task? id = some t → Finished t moment

/-- An iteration that does not move and is resolved has finished every task. -/
theorem finished_of_settled {job : Job} {moment : Nat} (hmoving : job.isMoving moment = false)
    (hresolved : job.allTasksResolved = true) :
    ∀ id t, job.task? id = some t → Finished t moment := by
  intro id t ht
  have hstill := (Job.isMoving_eq_false.mp hmoving id t ht).2
  have hdone := (Job.allTasksResolved_eq_true.mp hresolved).2 id t ht
  rcases Task.isResolved_eq_true.mp hdone with hs | hs | hs
  · exact Or.inl hs
  · exact Or.inr (Or.inr (isTerminallyFailedAt_of_not_coming hs hstill))
  · exact Or.inr (Or.inl hs)

/-- An open iteration closes nothing. -/
theorem closes_of_open {job : Job} (h : job.isProcessed = false) : Closes job := by
  intro hprocessed
  rw [h] at hprocessed
  cases hprocessed

/-- A running iteration is open. -/
theorem isProcessed_of_running {job : Job} (h : job.status = .running) :
    job.isProcessed = false := by
  simp [Job.isProcessed, Job.iterationVerdict, h]

/-- A settlement closes only what has finished. -/
theorem Job.SettledFrom.closes {job job' : Job} {w : Uuid} {now : Nat}
    (h : Job.SettledFrom job w now job') (hopen : job.isProcessed = false) : Closes job' := by
  rcases h.state with ⟨hstatus, -⟩ | ⟨-, hat, hmoving, hresolved⟩
  · refine closes_of_open ?_
    unfold Job.isProcessed Job.iterationVerdict at hopen ⊢
    rwa [hstatus]
  · exact fun _ => ⟨now, hat, finished_of_settled hmoving hresolved⟩

/-! ## Stored versions -/

/-- The job carries the settings of its description. -/
structure DescribedBy (jobDef : JobDefinition) (job : Job) : Prop where
  maxIterations : job.maxIterations = jobDef.maxIterations
  iterationInterval : job.iterationInterval = jobDef.iterationInterval
  taskLimits : job.taskLimits = jobDef.taskLimits

/-- What frames a job keeps its description. -/
theorem DescribedBy.frame {jobDef : JobDefinition} {job job' : Job} (h : DescribedBy jobDef job)
    (hframe : Frame job job') : DescribedBy jobDef job' :=
  ⟨hframe.maxIterations.trans h.maxIterations,
    hframe.iterationInterval.trans h.iterationInterval, hframe.taskLimits.trans h.taskLimits⟩

/-- What holds of a stored version. -/
structure EntryOk (jobDef : JobDefinition) (g : Pedigree) (minted : List Uuid) (e : Entry) :
    Prop where
  fits : Fits g minted e.iterNum e.tasks
  keptFits : Fits g minted e.iterNum e.kept.tasksById
  described : DescribedBy jobDef e.job
  nonempty : ∃ id t, e.tasks.get id = some t
  versioned : e.version ≠ ""
  closes : e.isClosed = true → ∃ moment, e.state.completedAt = some moment ∧
    ∀ id t, e.tasks.get id = some t → Finished t moment

/-- What the store keeps of a task of a version. -/
theorem Entry.get_tasks (e : Entry) (id : Uuid) :
    e.tasks.get id = (e.kept.task? id).map Task.persisted :=
  get_taskMap_fromJob e.job id

/-- What a version holds has been stored and restored already. -/
theorem Entry.restored (e : Entry) {id : Uuid} {t : Task} (ht : e.tasks.get id = some t) :
    t.persisted = t := by
  rw [e.get_tasks, Option.map_eq_some_iff] at ht
  obtain ⟨t₀, -, rfl⟩ := ht
  exact Task.persisted_persisted t₀

/-- Some version of the iteration holds the task. -/
def IsStored (h : History) (n : Nat) (id : Uuid) : Prop :=
  ∃ e ∈ h, e.iterNum = n ∧ ∃ t, e.tasks.get id = some t

/-- A version holds what persists of the tasks its writer saved. -/
theorem get_ofJob (job : Job) (version : String) (w : Uuid) (purpose : Purpose) (now : Nat)
    (id : Uuid) :
    (Entry.ofJob job version w purpose now).tasks.get id = (job.task? id).map Task.persisted :=
  get_taskMap_fromJob job id

/-- And each of its tasks was one of theirs. -/
theorem get_ofJob_eq_some {job : Job} {version : String} {w : Uuid} {purpose : Purpose}
    {now : Nat} {id : Uuid} {t : Task}
    (h : (Entry.ofJob job version w purpose now).tasks.get id = some t) :
    ∃ t₀, job.task? id = some t₀ ∧ t = t₀.persisted := by
  rw [get_ofJob, Option.map_eq_some_iff] at h
  obtain ⟨t₀, ht₀, rfl⟩ := h
  exact ⟨t₀, ht₀, rfl⟩

/-- A version is closed where the job saved was processed. -/
theorem isClosed_ofJob (job : Job) (version : String) (w : Uuid) (purpose : Purpose)
    (now : Nat) : (Entry.ofJob job version w purpose now).isClosed = job.isProcessed := by
  unfold Entry.isClosed Entry.ofJob Entry.state StoredJob.fromJob Job.isProcessed
    Job.iterationVerdict
  cases job.status <;> rfl

/-- And is read back as such. -/
theorem isProcessed_load (jobDef : JobDefinition) (e : Entry) :
    (e.load jobDef).isProcessed = e.isClosed := by
  unfold Entry.isClosed Entry.load StoredJob.intoJob Job.isProcessed Job.iterationVerdict
  cases e.state.status <;> rfl

/-- What the store keeps of a fitting copy fits. -/
theorem Fits.persisted {g : Pedigree} {minted : List Uuid} {n : Nat} {m m' : TaskMap}
    (h : Fits g minted n m) (hsame : ∀ id, m'.get id = (m.get id).map Task.persisted) :
    Fits g minted n m' := by
  have hback : ∀ {id t}, m'.get id = some t → ∃ t₀, m.get id = some t₀ ∧ t = t₀.persisted := by
    intro id t ht
    rw [hsame, Option.map_eq_some_iff] at ht
    obtain ⟨t₀, ht₀, rfl⟩ := ht
    exact ⟨t₀, ht₀, rfl⟩
  constructor
  · intro id t ht
    obtain ⟨t₀, ht₀, rfl⟩ := hback ht
    exact h.minted id t₀ ht₀
  · intro id t ht
    obtain ⟨t₀, ht₀, rfl⟩ := hback ht
    exact h.iter id t₀ ht₀
  · intro id t ht
    obtain ⟨t₀, ht₀, rfl⟩ := hback ht
    exact h.deps id t₀ ht₀
  · intro id t ht
    obtain ⟨t₀, ht₀, rfl⟩ := hback ht
    exact h.tolerance id t₀ ht₀
  · intro id t ht
    obtain ⟨t₀, -, rfl⟩ := hback ht
    simp
  · intro id t ht
    obtain ⟨t₀, ht₀, rfl⟩ := hback ht
    exact (h.sound id t₀ ht₀).persisted

/-- A write of a fitting copy leaves a version in order. -/
theorem entryOk_ofJob {jobDef : JobDefinition} {g : Pedigree} {minted : List Uuid} {job : Job}
    {version : String} (w : Uuid) (purpose : Purpose) (now : Nat)
    (hfits : Fits g minted job.iterNum job.tasksById) (hdescribed : DescribedBy jobDef job)
    (hnonempty : ∃ id t, job.task? id = some t) (hcloses : Closes job)
    (hversion : version ≠ "") :
    EntryOk jobDef g minted (.ofJob job version w purpose now) where
  fits := hfits.persisted (get_ofJob job version w purpose now)
  keptFits := hfits
  described := hdescribed
  nonempty := by
    obtain ⟨id, t, ht⟩ := hnonempty
    exact ⟨id, t.persisted, by rw [get_ofJob, ht]; rfl⟩
  versioned := hversion
  closes := by
    intro hclosed
    rw [isClosed_ofJob] at hclosed
    obtain ⟨moment, hat, hfinished⟩ := hcloses hclosed
    refine ⟨moment, hat, ?_⟩
    intro id t ht
    obtain ⟨t₀, ht₀, rfl⟩ := get_ofJob_eq_some ht
    exact hfinished id t₀ ht₀

/-! ## Copies -/

/-- The copy is to replace a version that is open. -/
structure BasedOn (e : Entry) (job : Job) : Prop where
  iter : e.iterNum = job.iterNum
  version : e.version = job.version
  isOpen : e.isClosed = false

/-- The copy is the version as its reader or its writer holds it: what is stored of the two is
the same. -/
def LoadedFrom (jobDef : JobDefinition) (e : Entry) (job : Job) : Prop :=
  copyPersistedState job = e.load jobDef

namespace LoadedFrom

variable {jobDef : JobDefinition} {e : Entry} {job : Job}

theorem iter (h : LoadedFrom jobDef e job) : e.iterNum = job.iterNum :=
  (congrArg Job.iterNum h).symm

theorem version (h : LoadedFrom jobDef e job) : e.version = job.version :=
  (congrArg Job.version h).symm

theorem code (h : LoadedFrom jobDef e job) : e.state.code = job.code :=
  (congrArg Job.code h).symm

theorem isClosed (h : LoadedFrom jobDef e job) : job.isProcessed = e.isClosed := by
  rw [← isProcessed_load jobDef e, ← h]
  rfl

/-- Its tasks persist as those of the version. -/
theorem tasks (h : LoadedFrom jobDef e job) (id : Uuid) :
    (job.task? id).map Task.persisted = e.tasks.get id := by
  rw [← get_taskMap_fromJob]
  exact congrArg (fun job : Job => job.task? id) h

/-- What the copy holds persists in the version. -/
theorem get (h : LoadedFrom jobDef e job) {id : Uuid} {t : Task} (ht : job.task? id = some t) :
    e.tasks.get id = some t.persisted := by
  rw [← h.tasks, ht, Option.map_some]

/-- What the version holds is on the copy. -/
theorem exists_get (h : LoadedFrom jobDef e job) {id : Uuid} {t : Task}
    (ht : e.tasks.get id = some t) : ∃ t₀, job.task? id = some t₀ ∧ t = t₀.persisted := by
  rw [← h.tasks, Option.map_eq_some_iff] at ht
  obtain ⟨t₀, ht₀, rfl⟩ := ht
  exact ⟨t₀, ht₀, rfl⟩

/-- A copy says about its iteration what the version says. -/
theorem findIterationStatus (h : LoadedFrom jobDef e job) (now : Nat) :
    job.findIterationStatus now = (e.load jobDef).findIterationStatus now := by
  rw [← h]
  rfl

end LoadedFrom

/-- What holds of every copy of an iteration a worker holds. -/
structure HeldOk (jobDef : JobDefinition) (g : Pedigree) (s : System) (w : Uuid) (job : Job) :
    Prop where
  fits : Fits g s.minted job.iterNum job.tasksById
  described : DescribedBy jobDef job
  known : ∀ id t, job.task? id = some t →
    IsStored s.history job.iterNum id ∨ IsOwnCreation w t

/-- What holds of a copy of an iteration that no execution works on. -/
structure CopyOk (jobDef : JobDefinition) (g : Pedigree) (s : System) (w : Uuid) (job : Job) :
    Prop extends HeldOk jobDef g s w job where
  nonempty : ∃ id t, job.task? id = some t

/-- What a copy about to be written rests on, by what the write is about. -/
def SavingBasis (κ : Clocks) (jobDef : JobDefinition) (s : System) (w : Uuid) (job : Job) :
    Purpose → Prop
  | .create => job.version = "" ∧ job.isProcessed = false ∧ job.iterNum = 1
  | .nextIteration readyAt =>
      job.version = "" ∧ job.isProcessed = false ∧
        ∃ e ∈ s.history, e.iterNum + 1 = job.iterNum ∧ e.isClosed = true ∧
          κ.Before readyAt s.clock ∧
          (e.load jobDef).findIterationStatus readyAt = .closed .ready
  | .start taskId =>
      (∃ e ∈ s.history, BasedOn e job) ∧ job.status = .running ∧
        ∃ t, job.task? taskId = some t ∧ t.status = .started ∧ t.processingByWorker = some w
  | .result taskId => (∃ e ∈ s.history, BasedOn e job) ∧ ∃ t, job.task? taskId = some t
  | .settle => ∃ e ∈ s.history, BasedOn e job

/-- What holds of a worker, by what it is doing. -/
def PhaseOk (κ : Clocks) (jobDef : JobDefinition) (g : Pedigree) (s : System) (w : Uuid) :
    Phase → Prop
  | .idle => True
  | .missing => True
  | .loaded job => CopyOk jobDef g s w job ∧ ∃ e ∈ s.history, LoadedFrom jobDef e job
  | .executing job _ =>
      HeldOk jobDef g s w job ∧ job.status = .running ∧ ∃ e ∈ s.history, BasedOn e job
  | .saving job purpose =>
      CopyOk jobDef g s w job ∧ Closes job ∧ SavingBasis κ jobDef s w job purpose
  | .conflicted job purpose =>
      CopyOk jobDef g s w job ∧ Closes job ∧ SavingBasis κ jobDef s w job purpose
  | .merging job saved purpose =>
      CopyOk jobDef g s w job ∧ Closes job ∧ SavingBasis κ jobDef s w job purpose ∧
        CopyOk jobDef g s w saved ∧ ∃ e ∈ s.history, LoadedFrom jobDef e saved

/-- The structural invariant. -/
structure Inv (κ : Clocks) (jobDef : JobDefinition) (g : Pedigree) (s : System) : Prop where
  ranked : g.Ranked s.minted
  entries : ∀ e ∈ s.history, EntryOk jobDef g s.minted e
  versions : ∀ e ∈ s.history, ∀ e' ∈ s.history, e.iterNum = e'.iterNum →
    e.version = e'.version → e.state = e'.state
  workers : ∀ w, PhaseOk κ jobDef g s w (s.workers w).phase

/-- The invariant holds before anything happened. -/
theorem inv_init (κ : Clocks) (jobDef : JobDefinition) (g : Pedigree) :
    Inv κ jobDef g System.init where
  ranked := by simp [Pedigree.Ranked, System.init]
  entries := by simp [System.init]
  versions := by simp [System.init]
  workers := fun _ => trivial

/-! ## Nothing that holds of a worker is lost as the system goes on -/

/-- A later state of the system, under a pedigree that extends the earlier one. -/
structure Later (g : Pedigree) (s : System) (g' : Pedigree) (s' : System) : Prop where
  clock : s.clock ≤ s'.clock
  minted : ∀ id ∈ s.minted, id ∈ s'.minted
  history : ∀ e ∈ s.history, e ∈ s'.history
  pedigree : g.Extends g' s.minted

section Later

variable {jobDef : JobDefinition} {g g' : Pedigree} {s s' : System} {w : Uuid}

/-- What holds of a version goes on to hold. -/
theorem EntryOk.later {e : Entry} (hlater : Later g s g' s')
    (h : EntryOk jobDef g s.minted e) : EntryOk jobDef g' s'.minted e :=
  ⟨h.fits.mono hlater.pedigree hlater.minted, h.keptFits.mono hlater.pedigree hlater.minted,
    h.described, h.nonempty, h.versioned, h.closes⟩

/-- What holds of a job a worker holds goes on to hold. -/
theorem HeldOk.later {job : Job} (hlater : Later g s g' s') (h : HeldOk jobDef g s w job) :
    HeldOk jobDef g' s' w job where
  fits := h.fits.mono hlater.pedigree hlater.minted
  described := h.described
  known := by
    intro id t ht
    rcases h.known id t ht with ⟨e, he, hiter, hholds⟩ | hown
    · exact Or.inl ⟨e, hlater.history e he, hiter, hholds⟩
    · exact Or.inr hown

/-- And so does what holds of a copy. -/
theorem CopyOk.later {job : Job} (hlater : Later g s g' s') (h : CopyOk jobDef g s w job) :
    CopyOk jobDef g' s' w job := ⟨h.toHeldOk.later hlater, h.nonempty⟩

/-- The grounds of a save stay. -/
theorem SavingBasis.later {job : Job} {purpose : Purpose} (hlater : Later g s g' s')
    (h : SavingBasis κ jobDef s w job purpose) : SavingBasis κ jobDef s' w job purpose := by
  cases purpose with
  | create => exact h
  | nextIteration readyAt =>
      obtain ⟨hversion, hopen, e, he, hiter, hclosed, hle, hready⟩ := h
      exact ⟨hversion, hopen, e, hlater.history e he, hiter, hclosed,
        trans_of κ.Before hle (Clocks.before_of_le hlater.clock), hready⟩
  | start taskId =>
      obtain ⟨⟨e, he, hbased⟩, hrest⟩ := h
      exact ⟨⟨e, hlater.history e he, hbased⟩, hrest⟩
  | result taskId =>
      obtain ⟨⟨e, he, hbased⟩, hrest⟩ := h
      exact ⟨⟨e, hlater.history e he, hbased⟩, hrest⟩
  | settle =>
      obtain ⟨e, he, hbased⟩ := h
      exact ⟨e, hlater.history e he, hbased⟩

/-- What holds of a worker goes on to hold while others act. -/
theorem PhaseOk.later {p : Phase} (hlater : Later g s g' s') (h : PhaseOk κ jobDef g s w p) :
    PhaseOk κ jobDef g' s' w p := by
  cases p with
  | idle => trivial
  | missing => trivial
  | loaded job =>
      obtain ⟨hcopy, e, he, hloaded⟩ := h
      exact ⟨hcopy.later hlater, e, hlater.history e he, hloaded⟩
  | executing job taskId =>
      obtain ⟨hheld, hstatus, e, he, hbased⟩ := h
      exact ⟨hheld.later hlater, hstatus, e, hlater.history e he, hbased⟩
  | saving job purpose => exact ⟨h.1.later hlater, h.2.1, h.2.2.later hlater⟩
  | conflicted job purpose => exact ⟨h.1.later hlater, h.2.1, h.2.2.later hlater⟩
  | merging job saved purpose =>
      obtain ⟨hcopy, hcloses, hbasis, hsaved, e, he, hloaded⟩ := h
      exact ⟨hcopy.later hlater, hcloses, hbasis.later hlater, hsaved.later hlater, e,
        hlater.history e he, hloaded⟩

end Later

/-! ## Every move keeps what holds of its worker -/

/-- The current version of an iteration is one of its versions. -/
theorem current_mem {h : History} {n : Nat} {e : Entry} (he : h.current n = some e) :
    e ∈ h ∧ e.iterNum = n :=
  ⟨List.mem_of_find?_eq_some he, by simpa using List.find?_some he⟩

/-- What is read is the current version, of the newest iteration or of a closed one. -/
theorem readable_current {h : History} {n : Nat} {e : Entry} (he : h.readable n = some e) :
    h.current n = some e ∧ (h.isNewest n = true ∨ e.isClosed = true) := by
  unfold History.readable at he
  rw [Option.filter_eq_some_iff, Bool.or_eq_true] at he
  exact he

section Moves

variable {jobDef : JobDefinition} {g : Pedigree} {s : System} {w : Uuid}

/-- What a reader of a version gets differs from it in nothing the store keeps. -/
theorem loadedFrom_of_serves (hinv : Inv κ jobDef g s) {e : Entry} (he : e ∈ s.history)
    {job : Job} (hserves : s.history.Serves jobDef e job) :
    LoadedFrom jobDef e job ∧ CopyOk jobDef g s w job := by
  have hentry := hinv.entries e he
  rcases hserves with rfl | ⟨e', he', hiter, hversion, rfl⟩
  · refine ⟨?_, ⟨⟨hentry.fits, ⟨rfl, rfl, rfl⟩, fun _ t ht => Or.inl ⟨e, he, rfl, t, ht⟩⟩,
      hentry.nonempty⟩⟩
    rw [LoadedFrom, copyPersistedState, Entry.load, Entry.state, fromJob_intoJob_fromJob]
    rfl
  · have hentry' := hinv.entries e' he'
    have hstate := hinv.versions e' he' e he hiter hversion
    have hstored : ∀ id t, e'.kept.task? id = some t → e'.tasks.get id = some t.persisted := by
      intro id t ht
      rw [e'.get_tasks, ht, Option.map_some]
    have hdescribed : DescribedBy jobDef e'.kept := ⟨hentry'.described.maxIterations,
      hentry'.described.iterationInterval, hentry'.described.taskLimits⟩
    refine ⟨?_, ⟨⟨hentry'.keptFits, hdescribed,
      fun id t ht => Or.inl ⟨e', he', rfl, _, hstored id t ht⟩⟩, ?_⟩⟩
    · rw [LoadedFrom, copyPersistedState, Entry.load, ← hstate, ← hversion]
      change e'.state.intoJob e'.job.maxIterations e'.job.iterationInterval e'.job.taskLimits
        e'.version = _
      rw [hentry'.described.maxIterations, hentry'.described.iterationInterval,
        hentry'.described.taskLimits]
    · obtain ⟨id, t, ht⟩ := hentry'.nonempty
      rw [e'.get_tasks, Option.map_eq_some_iff] at ht
      obtain ⟨t₀, ht₀, -⟩ := ht
      exact ⟨id, t₀, ht₀⟩

/-- A read finds the current version of its iteration, and hands out a copy of it. -/
theorem read_loaded (hinv : Inv κ jobDef g s) {n : Nat} {e : Entry}
    (hread : s.history.readable n = some e) {job : Job}
    (hserves : s.history.Serves jobDef e job) :
    s.history.current n = some e ∧ e ∈ s.history ∧ e.iterNum = n ∧ LoadedFrom jobDef e job ∧
      CopyOk jobDef g s w job := by
  have hcurrent := (readable_current hread).1
  obtain ⟨hmem, hiter⟩ := current_mem hcurrent
  exact ⟨hcurrent, hmem, hiter, loadedFrom_of_serves hinv hmem hserves⟩

/-- A copy derived from a loaded one that is open rests on the version it was loaded as. -/
theorem basedOn_of_loaded {e : Entry} {job job' : Job} (hloaded : LoadedFrom jobDef e job)
    (hopen : job.isProcessed = false) (hframe : Frame job job') : BasedOn e job' where
  iter := hloaded.iter.trans hframe.iterNum.symm
  version := hloaded.version.trans hframe.version.symm
  isOpen := hloaded.isClosed.symm.trans hopen

/-- What a copy was read with is stored. -/
theorem isStored_of_loaded {e : Entry} {job : Job} (he : e ∈ s.history)
    (hloaded : LoadedFrom jobDef e job) {id : Uuid} {t : Task} (ht : job.task? id = some t) :
    IsStored s.history job.iterNum id :=
  ⟨e, he, hloaded.iter, t.persisted, hloaded.get ht⟩

/-- A planned iteration is a copy in shape, open and not yet stored. -/
theorem planned_copy {job : Job} {ids : List Uuid} {g' : Pedigree} (s' : System)
    (hdef : jobDef.WellFormed) (hplanned : job.Planned jobDef w ids)
    (hfits : Fits g' s'.minted job.iterNum job.tasksById) :
    CopyOk jobDef g' s' w job ∧ Closes job ∧ job.version = "" ∧ job.isProcessed = false := by
  have hopen : job.isProcessed = false := by
    simp [Job.isProcessed, Job.iterationVerdict, hplanned.status]
  have hnew : ∀ id t, job.task? id = some t → IsOwnCreation w t := by
    intro id t ht
    obtain ⟨p, taskDef, resolved, -, -, -, hnew⟩ := hplanned.planned id t ht
    rw [hnew]
    exact ⟨rfl, rfl⟩
  have hdescribed : DescribedBy jobDef job :=
    ⟨hplanned.maxIterations, hplanned.iterationInterval, hplanned.taskLimits⟩
  refine ⟨⟨⟨hfits, hdescribed, fun id t ht => Or.inr (hnew id t ht)⟩, ?_⟩, closes_of_open hopen,
    hplanned.version, hopen⟩
  obtain ⟨id, t, -, ht⟩ := hplanned.covers 0 (List.length_pos_iff.mpr hdef.nonempty)
  exact ⟨id, t, ht⟩

/-- Replacing one entry of a fitting copy by another state of the task. -/
theorem Fits.insert {minted : List Uuid} {n : Nat} {m : TaskMap} {t t₀ : Task}
    (hfits : Fits g minted n m) (ht₀ : m.get t.id = some t₀) (hdeps : t.dependsOn = g.deps t.id)
    (htolerance : t.tolerance = g.tolerance t.id) (hparent : t.createdByTask ≠ some t.id)
    (hsound : Sound t) : Fits g minted n (m.insert t) where
  minted id t' ht' := by
    rcases get_insert_cases m t id with ⟨rfl, -⟩ | ⟨-, hget⟩
    · exact hfits.minted t.id t₀ ht₀
    · exact hfits.minted id t' (hget ▸ ht')
  iter id t' ht' := by
    rcases get_insert_cases m t id with ⟨rfl, -⟩ | ⟨-, hget⟩
    · exact hfits.iter t.id t₀ ht₀
    · exact hfits.iter id t' (hget ▸ ht')
  deps id t' ht' := by
    rcases get_insert_cases m t id with ⟨rfl, hget⟩ | ⟨-, hget⟩
    · rw [hget] at ht'
      cases ht'
      exact hdeps
    · exact hfits.deps id t' (hget ▸ ht')
  tolerance id t' ht' := by
    rcases get_insert_cases m t id with ⟨rfl, hget⟩ | ⟨-, hget⟩
    · rw [hget] at ht'
      cases ht'
      exact htolerance
    · exact hfits.tolerance id t' (hget ▸ ht')
  parents id t' ht' := by
    rcases get_insert_cases m t id with ⟨rfl, hget⟩ | ⟨-, hget⟩
    · rw [hget] at ht'
      cases ht'
      exact hparent
    · exact hfits.parents id t' (hget ▸ ht')
  sound id t' ht' := by
    rcases get_insert_cases m t id with ⟨rfl, hget⟩ | ⟨-, hget⟩
    · rw [hget] at ht'
      cases ht'
      exact hsound
    · exact hfits.sound id t' (hget ▸ ht')

/-- Replacing one entry of a copy by another state of the task leaves no dependency behind. -/
theorem closed_insert {m : TaskMap} {t t₀ : Task} (hclosed : DependenciesClosed m)
    (ht₀ : m.get t.id = some t₀) (hdeps : t.dependsOn = t₀.dependsOn) :
    DependenciesClosed (m.insert t) := by
  have hkept : ∀ d dep, m.get d = some dep → ∃ dep', (m.insert t).get d = some dep' := by
    intro d dep hdep
    rcases get_insert_cases m t d with ⟨-, hget⟩ | ⟨-, hget⟩
    · exact ⟨t, hget⟩
    · exact ⟨dep, hget.trans hdep⟩
  intro id t' ht' d hd
  rcases get_insert_cases m t id with ⟨rfl, hget⟩ | ⟨-, hget⟩
  · rw [hget] at ht'
    cases ht'
    rw [hdeps] at hd
    obtain ⟨dep, hdep⟩ := hclosed t.id t₀ ht₀ d hd
    exact hkept d dep hdep
  · obtain ⟨dep, hdep⟩ := hclosed id t' (hget ▸ ht') d hd
    exact hkept d dep hdep

/-- What a start leaves of a derived copy. -/
theorem get_of_start {m m' : TaskMap} {t t' : Task} {lo now : Nat}
    (hrun : DerivedRun κ w lo now m m') (ht : m'.get t.id = some t)
    (hstart : t.start w now = .ok t') :
    (∀ id u, (m'.insert t').get id = some u → ∃ u₀, m.get id = some u₀ ∧ Kin u₀ u) ∧
      ∀ id u, m.get id = some u → ∃ u', (m'.insert t').get id = some u' := by
  have hmove : TaskMove w now t (.taken t.id) t' := .start hstart
  constructor
  · intro id u hu
    rcases get_insert_cases m' t' id with ⟨rfl, hself⟩ | ⟨-, hother⟩
    · rw [hself] at hu
      cases hu
      obtain ⟨t₀, ht₀, hkin⟩ := DerivedRun.backward hrun t.id t ht
      exact ⟨t₀, hmove.kin.id ▸ ht₀, hkin.trans hmove.kin⟩
    · exact DerivedRun.backward hrun id u (hother ▸ hu)
  · intro id u hu
    obtain ⟨u', hu', -⟩ := DerivedRun.forward hrun id u hu
    rcases get_insert_cases m' t' id with ⟨-, hself⟩ | ⟨-, hother⟩
    · exact ⟨t', hself⟩
    · exact ⟨u', hother.trans hu'⟩

/-- Starting a task of a loaded copy. -/
theorem startOk {job job' : Job} {m : TaskMap} {t t' : Task} {lo now : Nat}
    (hok : PhaseOk κ jobDef g s w (.loaded job)) (hopen : job.isProcessed = false)
    (hrun : DerivedRun κ w lo now job.tasksById m) (ht : m.get t.id = some t)
    (hstart : t.start w now = .ok t') (htasks : job'.tasksById = m.insert t')
    (hframe : Frame job job') (hstatus : job'.status = .running) :
    PhaseOk κ jobDef g s w (.saving job' (.start t.id)) := by
  obtain ⟨hcopy, e, he, hloaded⟩ := hok
  have hmove : TaskMove w now t (.taken t.id) t' := .start hstart
  have hid : t'.id = t.id := hmove.kin.id
  have hm := DerivedRun.fits hrun hcopy.fits
  obtain ⟨hget, -⟩ := get_of_start hrun ht hstart
  have hstarted : job'.task? t.id = some t' := by
    rw [Job.task?, htasks, ← hid]
    exact KeyedMap.get_insert_self m t'
  refine ⟨⟨⟨?_, hcopy.described.frame hframe, ?_⟩, t.id, t', hstarted⟩,
    closes_of_open (isProcessed_of_running hstatus),
    ⟨e, he, basedOn_of_loaded hloaded hopen hframe⟩, hstatus, t', hstarted, ?_, ?_⟩
  · rw [hframe.iterNum, htasks]
    refine hm.insert (hid.symm ▸ ht) ?_ ?_ ?_ ((hm.sound t.id t ht).move hmove)
    · rw [hmove.kin.dependsOn, hid]
      exact hm.deps t.id t ht
    · rw [hmove.kin.tolerance, hid]
      exact hm.tolerance t.id t ht
    · rw [hmove.kin.createdByTask, hid]
      exact hm.parents t.id t ht
  · intro id u hu
    obtain ⟨u₀, hu₀, -⟩ := hget id u (htasks ▸ hu)
    rw [hframe.iterNum]
    exact Or.inl (isStored_of_loaded he hloaded hu₀)
  · obtain ⟨-, _, _, -, -, rfl⟩ := Task.start_eq_ok hstart
    rfl
  · obtain ⟨-, _, _, -, -, rfl⟩ := Task.start_eq_ok hstart
    rfl

/-- Closing a loaded iteration. -/
theorem settleOk {job job' : Job} {lo now : Nat} (hok : PhaseOk κ jobDef g s w (.loaded job))
    (hopen : job.isProcessed = false) (hrun : DerivedRun κ w lo now job.tasksById job'.tasksById)
    (hframe : Frame job job') (hat : job'.completedAt = some now)
    (hmoving : job'.isMoving now = false) (hresolved : job'.allTasksResolved = true) :
    PhaseOk κ jobDef g s w (.saving job' .settle) := by
  obtain ⟨hcopy, e, he, hloaded⟩ := hok
  refine ⟨⟨⟨?_, hcopy.described.frame hframe, ?_⟩, ?_⟩,
    fun _ => ⟨now, hat, finished_of_settled hmoving hresolved⟩, e, he,
    basedOn_of_loaded hloaded hopen hframe⟩
  · rw [hframe.iterNum]
    exact DerivedRun.fits hrun hcopy.fits
  · intro id u hu
    obtain ⟨u₀, hu₀, -⟩ := DerivedRun.backward hrun id u hu
    rw [hframe.iterNum]
    exact Or.inl (isStored_of_loaded he hloaded hu₀)
  · obtain ⟨id, u, hu⟩ := hcopy.nonempty
    obtain ⟨u', hu', -⟩ := DerivedRun.forward hrun id u hu
    exact ⟨id, u', hu'⟩

/-- Two copies that hold one task are copies of one iteration. -/
theorem sameIteration {job job' : Job} {id : Uuid} {t t' : Task}
    (hfits : Fits g s.minted job.iterNum job.tasksById)
    (hfits' : Fits g s.minted job'.iterNum job'.tasksById) (ht : job.task? id = some t)
    (ht' : job'.task? id = some t') : job'.iterNum = job.iterNum :=
  (hfits'.iter id t' ht').symm.trans (hfits.iter id t ht)

/-- Repeating a start on top of the state that won. -/
theorem mergeStartOk {job saved job' : Job} {taskId : Uuid}
    {stored workerTask : Task} {m : TaskMap} {first second : Nat}
    (hok : PhaseOk κ jobDef g s w (.merging job saved (.start taskId)))
    (hstored : saved.task? taskId = some stored)
    (hworker : job.task? taskId = some workerTask)
    (hallows : saved.status.allows job.status = true)
    (hrun : DerivedRun κ w first second saved.tasksById m)
    (htasks : job'.tasksById = m.insert workerTask) (hframe : Frame saved job')
    (hstatus : job'.status = job.status) :
    PhaseOk κ jobDef g s w (.saving job' (.start taskId)) := by
  obtain ⟨hcopy, -, ⟨-, hrunning, t, ht, hstarted, howner⟩, hsaved, e, he, hloaded⟩ := hok
  rw [hworker] at ht
  cases ht
  have hid : workerTask.id = taskId := Job.id_of_task? hworker
  have hm : Fits g s.minted saved.iterNum m := DerivedRun.fits hrun hsaved.fits
  have hopen : saved.isProcessed = false := by
    rw [hrunning] at hallows
    unfold Job.isProcessed Job.iterationVerdict
    cases hs : saved.status <;> simp_all [JobStatus.allows]
  obtain ⟨stored', hstored', -⟩ := DerivedRun.forward hrun taskId stored hstored
  have hself : job'.task? taskId = some workerTask := by
    rw [Job.task?, htasks, ← hid]
    exact KeyedMap.get_insert_self m workerTask
  refine ⟨⟨⟨?_, hsaved.described.frame hframe, ?_⟩, taskId, workerTask, hself⟩,
    closes_of_open (isProcessed_of_running (hstatus.trans hrunning)),
    ⟨e, he, basedOn_of_loaded hloaded hopen hframe⟩, hstatus.trans hrunning, workerTask, hself,
    hstarted, howner⟩
  · rw [hframe.iterNum, htasks]
    refine hm.insert (hid.symm ▸ hstored') ?_ ?_ ?_ (hcopy.fits.sound taskId workerTask hworker)
    · rw [hid]
      exact hcopy.fits.deps taskId workerTask hworker
    · rw [hid]
      exact hcopy.fits.tolerance taskId workerTask hworker
    · rw [hid]
      exact hcopy.fits.parents taskId workerTask hworker
  · intro id u hu
    rw [hframe.iterNum]
    have hu' : (m.insert workerTask).get id = some u := htasks ▸ hu
    rcases get_insert_cases m workerTask id with ⟨heq, -⟩ | ⟨-, hother⟩
    · rw [← heq, hid]
      exact Or.inl (isStored_of_loaded he hloaded hstored)
    · obtain ⟨u₀, hu₀, -⟩ := DerivedRun.backward hrun id u (hother ▸ hu')
      exact Or.inl (isStored_of_loaded he hloaded hu₀)

/-- Repeating a result on top of the state that won. -/
theorem mergeResultOk {job saved base job' : Job} {taskId : Uuid}
    {stored : Task} {now : Nat} (hok : PhaseOk κ jobDef g s w (.merging job saved (.result taskId)))
    (hopen : saved.isProcessed = false) (hstored : saved.task? taskId = some stored)
    (htasks : base.tasksById = (saved.carryTasks job w).tasksById) (hframe : Frame saved base)
    (hrunning : base.status = .running) (hfrom : Job.SettledFrom base w now job') :
    PhaseOk κ jobDef g s w (.saving job' (.result taskId)) := by
  obtain ⟨hcopy, -, ⟨-, t, ht⟩, hsaved, e, he, hloaded⟩ := hok
  have hiter : saved.iterNum = job.iterNum := sameIteration hcopy.fits hsaved.fits ht hstored
  have hframe' : Frame saved job' := hframe.trans hfrom.frame
  have hrun : DerivedRun κ w now now (saved.carryTasks job w).tasksById job'.tasksById :=
    htasks ▸ hfrom.run.relax
  have hkept : ∃ t', job'.task? taskId = some t' := by
    obtain ⟨u₁, hu₁⟩ := carry_of_saved job w hstored
    obtain ⟨u', hu', -⟩ := DerivedRun.forward hrun taskId u₁ hu₁
    exact ⟨u', hu'⟩
  refine ⟨⟨⟨?_, hsaved.described.frame hframe', ?_⟩, taskId, hkept⟩,
    hfrom.closes (isProcessed_of_running hrunning),
    ⟨e, he, basedOn_of_loaded hloaded hopen hframe'⟩, hkept⟩
  · rw [hframe'.iterNum]
    exact DerivedRun.fits hrun (fits_carry hsaved.fits (hiter ▸ hcopy.fits))
  · intro id u hu
    rw [hframe'.iterNum]
    obtain ⟨u₁, hu₁, hkin, howner⟩ := LocalRun.backward hrun (by simp) (by simp) id u hu
    have hown : IsOwnCreation w u₁ → IsOwnCreation w u := by
      rintro ⟨hcreated, hnone⟩
      exact ⟨hkin.createdByWorker.trans hcreated, howner.trans hnone⟩
    rcases carry_cases hu₁ with ⟨hjob, -⟩ | ⟨hheld, -⟩
    · exact (hiter ▸ hcopy.known id u₁ hjob).imp_right hown
    · exact Or.inl (isStored_of_loaded he hloaded hheld)

end Moves

end JobManager
