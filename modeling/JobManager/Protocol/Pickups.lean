import JobManager.Protocol.Merges

/-!
# What a merge of a start may meet

The merge of a start asks only who owns the stored task, and then puts the started one over
it.  A task the cascade put out has no owner, and one its own worker failed or left running
may have outlived its lifetime meanwhile; nothing else that is done with can be met, because
an entry that names a worker changes only at its own hands or by growing too old.

Main results:

- Theorem {lit}`LocalRun.aged`: the steps of a worker leave another worker's entry as it is,
  or fail it for its lifetime.
- Theorem {lit}`PickupInv.step`: what every action keeps of what the workers know of their
  own entries.
- Theorem {lit}`pickup_revives_iff`: exactly when the merge of a start revives nothing.
-/

namespace JobManager

variable {κ : Clocks}

/-! ## Entries that grow old -/

/-- The same entry, or a running one failed for having outlived its lifetime. -/
def Aged (t t' : Task) : Prop :=
  t' = t ∨ (t.status = .started ∧ ∃ reason moment,
    t' = t.failedWith reason .whileBudgetLasts moment)

namespace Aged

variable {t t' t'' : Task}

theorem refl (t : Task) : Aged t t := Or.inl rfl

theorem trans (h : Aged t t') (h' : Aged t' t'') : Aged t t'' := by
  rcases h with rfl | ⟨hs, reason, moment, rfl⟩
  · exact h'
  · rcases h' with rfl | ⟨hs', -⟩
    · exact Or.inr ⟨hs, reason, moment, rfl⟩
    · cases hs'

theorem processingByWorker (h : Aged t t') : t'.processingByWorker = t.processingByWorker := by
  rcases h with rfl | ⟨-, _, _, rfl⟩ <;> rfl

theorem persisted (h : Aged t t') : Aged t.persisted t'.persisted := by
  rcases h with rfl | ⟨hs, reason, moment, rfl⟩
  · exact .refl _
  · exact Or.inr ⟨hs, reason, moment, rfl⟩

end Aged

/-- The record is consistent, and what failed has an owner. -/
structure Owned (t : Task) : Prop where
  sound : Sound t
  failed : t.status = .failed → t.processingByWorker ≠ none

/-- A new task is owned as its status asks. -/
theorem owned_new (id w : Uuid) (parent : Option Uuid) (taskDef : TaskDefinition)
    (resolved : List Uuid) : Owned (Task.new id w parent taskDef resolved) := by
  refine ⟨sound_new .., ?_⟩
  intro hfailed
  unfold Task.new at hfailed
  cases hempty : resolved.isEmpty <;> simp [hempty] at hfailed

/-- And so it is as it is stored. -/
theorem Owned.persisted {t : Task} (h : Owned t) : Owned t.persisted :=
  ⟨h.sound.persisted, h.failed⟩

theorem Owned.of_persisted {t : Task} (h : Owned t.persisted) : Owned t :=
  ⟨⟨h.sound.owned, h.sound.unowned, h.sound.deadline⟩, h.failed⟩

/-- And after every move. -/
theorem Owned.move {w : Uuid} {now : Nat} {t t' : Task} {touch : Touch} (howned : Owned t)
    (h : TaskMove w now t touch t') : Owned t' := by
  refine ⟨howned.sound.move h, ?_⟩
  intro hfailed
  cases h with
  | outlive hs _ => exact howned.sound.owned (Or.inl hs)
  | fail _ hs => exact howned.sound.owned (Or.inl hs)
  | start hstart =>
      obtain ⟨-, _, _, -, -, rfl⟩ := Task.start_eq_ok hstart
      cases hfailed
  | _ => cases hfailed

/-- The steps of a worker keep every record consistent; they leave another worker's entry
as it is, or fail it for its lifetime; and so do steps that only derive what the state
implies, for any entry that has an owner. -/
theorem LocalRun.aged {w : Uuid} {touches : Touch → Prop} {lo hi : Nat} {m m' : TaskMap}
    (h : LocalRun κ w touches lo hi m m') (howned : ∀ id t, m.get id = some t → Owned t) :
    (∀ id t, m'.get id = some t → Owned t) ∧
      ∀ x, x ≠ w ∨ (∀ touch, touches touch → touch = .derived) → ∀ id t', m'.get id = some t' →
        t'.processingByWorker = some x → ∃ t, m.get id = some t ∧ Aged t t' := by
  refine TimedRun.preserves_untimed (P := fun m' => (∀ id t, m'.get id = some t → Owned t) ∧
    ∀ x, x ≠ w ∨ (∀ touch, touches touch → touch = .derived) → ∀ id t', m'.get id = some t' →
      t'.processingByWorker = some x → ∃ t, m.get id = some t ∧ Aged t t') ?_ h
    ⟨howned, fun x _ id t ht _ => ⟨t, ht, .refl _⟩⟩
  rintro now m₁ m₂ ⟨touch, htouch, hstep⟩ ⟨howned₁, haged⟩
  constructor
  · intro id t₂ ht₂
    rcases hstep.predecessor ht₂ with ⟨t₁, ht₁, rfl | hmove⟩ | ⟨_, _, _, -, -, -, rfl⟩
    · exact howned₁ id _ ht₁
    · exact (howned₁ id t₁ ht₁).move hmove
    · exact owned_new ..
  · intro x hfree id t₂ ht₂ howner
    rcases hstep.predecessor ht₂ with ⟨t₁, ht₁, rfl | hmove⟩ | ⟨_, _, _, -, -, -, rfl⟩
    · exact haged x hfree id _ ht₁ howner
    · have hsound := (howned₁ id t₁ ht₁).sound
      -- an entry only its worker may touch was in the hands of another
      have hself : touch = .resolved t₁.id →
          ¬ (t₁.processingByWorker = none ∨ t₁.processingByWorker = some w) ∨
            t₁.processingByWorker ≠ some x := by
        intro hresolved
        rcases hfree with hne | hderived
        · by_cases hx : t₁.processingByWorker = some x
          · left
            rw [hx]
            simpa using hne
          · exact Or.inr hx
        · rw [hderived touch htouch] at hresolved
          cases hresolved
      have hunowned : t₁.status = .blocked → t₁.processingByWorker ≠ some x := by
        intro hb
        rw [hsound.unowned (Or.inl hb)]
        simp
      cases hmove with
      | outlive hs _ =>
          obtain ⟨t, ht, hage⟩ := haged x hfree id t₁ ht₁ howner
          exact ⟨t, ht, hage.trans (Or.inr ⟨hs, _, _, rfl⟩)⟩
      | putOut hb _ => exact absurd howner (hunowned hb)
      | release hb => exact absurd howner (hunowned hb)
      | start hstart =>
          obtain ⟨-, _, _, -, -, rfl⟩ := Task.start_eq_ok hstart
          cases howner
          rcases hfree with hne | hderived
          · exact absurd rfl hne
          · cases hderived _ htouch
      | complete hmay _ _ =>
          rcases hself rfl with hno | hno
          · exact absurd hmay hno
          · exact absurd howner hno
      | fail hmay _ =>
          rcases hself rfl with hno | hno
          · exact absurd hmay hno
          · exact absurd howner hno
      | skip hmay _ =>
          rcases hself rfl with hno | hno
          · exact absurd hmay hno
          · exact absurd howner hno
    · cases howner

/-- The task has not completed, nor failed in a way that rules a retry out. -/
def Reopenable (t : Task) : Prop :=
  t.status ≠ .completed ∧ (t.status = .failed → t.retry ≠ .never)

theorem Reopenable.of_started {t : Task} (h : t.status = .started) : Reopenable t :=
  ⟨by simp [h], by simp [h]⟩

/-- What may be reopened may be once it has aged. -/
theorem Reopenable.aged {t t' : Task} (h : Reopenable t) (hage : Aged t t') :
    Reopenable t' := by
  rcases hage with rfl | ⟨-, reason, moment, rfl⟩
  · exact h
  · exact ⟨by simp [Task.failedWith], by simp [Task.failedWith]⟩

/-- A task that could be picked up. -/
theorem Reopenable.of_pickable {now : Nat} {t : Task} (h : t.canBePickedUpAt now = true) :
    Reopenable t := by
  rcases Task.canBePickedUpAt_cases h with hs | ⟨hs, hopen⟩ | ⟨hs, -⟩
  · exact ⟨by simp [hs], by simp [hs]⟩
  · refine ⟨by simp [hs], fun _ hnever => ?_⟩
    simp [Task.isTerminallyFailedAt, Task.isFailed, hs, hnever] at hopen
  · exact .of_started hs

/-! ## What a worker's copy knows of entries that have an owner -/

/-- Every record of the map is in order. -/
def AllOwned (m : TaskMap) : Prop := ∀ id t, m.get id = some t → Owned t

/-- The copy's records are in order, and it shows another worker's entry only as the version
it is to replace does, or grown old. -/
structure KeepsForeign (h : History) (w : Uuid) (job : Job) : Prop where
  owned : AllOwned job.tasksById
  foreign : ∃ e ∈ h, e.iterNum = job.iterNum ∧ e.version = job.version ∧
    ∀ id u x, job.task? id = some u → u.processingByWorker = some x → x ≠ w →
      ∃ t, e.tasks.get id = some t ∧ Aged t u.persisted

/-- What the store shows in the worker's name is what the copy shows, or that grown old. -/
def TracksOwn (h : History) (w : Uuid) (job : Job) : Prop :=
  ∀ c, h.current job.iterNum = some c → ∀ id t, c.tasks.get id = some t →
    t.processingByWorker = some w → ∃ u, job.task? id = some u ∧ Aged u.persisted t

/-- Where the store shows the task in the worker's name, it can be reopened. -/
def OwnReopenable (h : History) (w taskId : Uuid) (n : Nat) : Prop :=
  ∀ c, h.current n = some c → ∀ t, c.tasks.get taskId = some t →
    t.processingByWorker = some w → Reopenable t

/-- The copy was planned and nobody has touched it. -/
def Untaken (job : Job) : Prop :=
  AllOwned job.tasksById ∧ ∀ id t, job.task? id = some t → t.processingByWorker = none

/-- What holds of a copy about to be written, by what the write is about. -/
def PickupSave (h : History) (w : Uuid) (job : Job) : Purpose → Prop
  | .create => Untaken job
  | .nextIteration _ => Untaken job
  | .start taskId => KeepsForeign h w job ∧ OwnReopenable h w taskId job.iterNum
  | .result _ => KeepsForeign h w job
  | .settle => KeepsForeign h w job

/-- What holds of a worker, by what it is doing. -/
def PickupPhase (h : History) (w : Uuid) : Phase → Prop
  | .idle => True
  | .missing => True
  | .loaded job => KeepsForeign h w job ∧ TracksOwn h w job
  | .executing job _ => KeepsForeign h w job
  | .saving job purpose => PickupSave h w job purpose
  | .conflicted job purpose => PickupSave h w job purpose
  | .merging job saved purpose => PickupSave h w job purpose ∧ TracksOwn h w saved ∧
      ∀ taskId, purpose = .start taskId → ∀ t, saved.task? taskId = some t →
        t.processingByWorker = some w → Reopenable t

/-- The invariant behind what the merge of a start meets. -/
structure PickupInv (s : System) : Prop where
  entries : ∀ e ∈ s.history, AllOwned e.tasks
  workers : ∀ w, PickupPhase s.history w (s.workers w).phase

section Copies

variable {jobDef : JobDefinition} {g : Pedigree} {s : System} {h : History} {w : Uuid}
  {job job' : Job}

/-- A worker's own steps leave the tasks of others alone. -/
theorem KeepsForeign.run {touches : Touch → Prop} {lo hi : Nat} (hkeeps : KeepsForeign h w job)
    (hrun : LocalRun κ w touches lo hi job.tasksById job'.tasksById) (hframe : Frame job job') :
    KeepsForeign h w job' := by
  obtain ⟨howned, haged⟩ := LocalRun.aged hrun hkeeps.owned
  obtain ⟨e, he, hiter, hversion, hforeign⟩ := hkeeps.foreign
  refine ⟨howned, e, he, hiter.trans hframe.iterNum.symm,
    hversion.trans hframe.version.symm, ?_⟩
  intro id u' x hu' howner hne
  obtain ⟨u, hu, hage⟩ := haged x (Or.inl hne) id u' hu' howner
  obtain ⟨t, ht, hage'⟩ := hforeign id u x hu (hage.processingByWorker ▸ howner) hne
  exact ⟨t, ht, hage'.trans hage.persisted⟩

/-- The records of a version are in order on every copy of it. -/
theorem allOwned_of_loaded (hpickup : PickupInv s) {e : Entry} (he : e ∈ s.history)
    (hloaded : LoadedFrom jobDef e job) : AllOwned job.tasksById := fun id _ ht =>
  .of_persisted (hpickup.entries e he id _ (hloaded.get ht))

/-- A version as its reader holds it. -/
theorem keepsForeign_of_loaded (hpickup : PickupInv s) {e : Entry} (he : e ∈ s.history)
    (hloaded : LoadedFrom jobDef e job) : KeepsForeign s.history w job := by
  refine ⟨allOwned_of_loaded hpickup he hloaded, e, he, hloaded.iter, hloaded.version, ?_⟩
  intro id u x hu _ _
  exact ⟨u.persisted, hloaded.get hu, .refl _⟩

/-- A version just read is current. -/
theorem tracksOwn_of_loaded {n : Nat} {e : Entry} (he : s.history.current n = some e)
    (hloaded : LoadedFrom jobDef e job) : TracksOwn s.history w job := by
  intro c hc id t ht _
  rw [← hloaded.iter, (current_mem he).2, he] at hc
  cases hc
  obtain ⟨t₀, ht₀, rfl⟩ := hloaded.exists_get ht
  exact ⟨t₀, ht₀, .refl _⟩

/-- A start of a task found pickable on the copy: where the store shows the task in the
worker's name, the copy did. -/
theorem TracksOwn.ownReopenable (htracks : TracksOwn h w job) {m : TaskMap} {t t' : Task}
    {lo now : Nat} (howned : AllOwned job.tasksById)
    (hrun : DerivedRun κ w lo now job.tasksById m) (ht : m.get t.id = some t)
    (hstart : t.start w now = .ok t') : OwnReopenable h w t.id job.iterNum := by
  intro c hc stored hstored howner
  obtain ⟨u, hu, hage⟩ := htracks c hc t.id stored hstored howner
  obtain ⟨u', hu', -, hsameOwner⟩ := LocalRun.backward hrun (by simp) (by simp) t.id t ht
  rw [show job.tasksById.get t.id = some u from hu] at hu'
  cases hu'
  have hself : t.processingByWorker = some w := by
    rw [hsameOwner, ← howner, hage.processingByWorker]
    rfl
  have hopen : Reopenable u.persisted := by
    obtain ⟨u', hu', hage'⟩ :=
      (LocalRun.aged hrun howned).2 w (Or.inr fun _ h => h) t.id t ht hself
    rw [show job.tasksById.get t.id = some u from hu] at hu'
    cases hu'
    rcases hage' with rfl | ⟨hs, -⟩
    · exact Reopenable.of_pickable (Task.start_eq_ok hstart).1
    · exact Reopenable.of_started hs
  exact hopen.aged hage

/-- A start repeated on top of the state that won. -/
theorem PickupPhase.mergeStart (hpickup : PickupInv s) {saved : Job} {taskId : Uuid}
    {stored workerTask : Task} {m : TaskMap} {first second : Nat}
    (hok : PhaseOk κ jobDef g s w (.merging job saved (.start taskId)))
    (hknows : PickupPhase s.history w (.merging job saved (.start taskId)))
    (hstored : saved.task? taskId = some stored) (hworker : job.task? taskId = some workerTask)
    (hrun : DerivedRun κ w first second saved.tasksById m)
    (htasks : job'.tasksById = m.insert workerTask) (hframe : Frame saved job') :
    PickupSave s.history w job' (.start taskId) := by
  obtain ⟨hcopy, -, ⟨-, -, t₀, ht₀, -, hself⟩, hsaved, e, he, hloaded⟩ := hok
  rw [hworker] at ht₀
  cases ht₀
  have hiter : saved.iterNum = job.iterNum :=
    sameIteration hcopy.fits hsaved.fits hworker hstored
  obtain ⟨howned, haged⟩ := LocalRun.aged hrun (allOwned_of_loaded hpickup he hloaded)
  have hentry : ∀ {id u}, job'.task? id = some u → u = workerTask ∨ m.get id = some u := by
    intro id u hu
    have hu' : (m.insert workerTask).get id = some u := htasks ▸ hu
    rcases get_insert_cases m workerTask id with ⟨-, hinserted⟩ | ⟨-, hkept⟩
    · rw [hinserted] at hu'
      cases hu'
      exact Or.inl rfl
    · exact Or.inr (hkept ▸ hu')
  refine ⟨⟨?_, e, he, hloaded.iter.trans hframe.iterNum.symm,
    hloaded.version.trans hframe.version.symm, ?_⟩, ?_⟩
  · intro id u hu
    rcases hentry hu with rfl | hu'
    · exact hknows.1.1.owned taskId u hworker
    · exact howned id u hu'
  · intro id u x hu howner hne
    rcases hentry hu with rfl | hu'
    · rw [hself] at howner
      cases howner
      exact absurd rfl hne
    · obtain ⟨t, ht, hage⟩ := haged x (Or.inl hne) id u hu' howner
      exact ⟨t.persisted, hloaded.get ht, hage.persisted⟩
  · intro c hc
    rw [hframe.iterNum, hiter] at hc
    exact hknows.1.2 c hc

/-- A result repeated on top of the state that won. -/
theorem KeepsForeign.mergeResult (hpickup : PickupInv s) {saved base : Job} {taskId : Uuid}
    {now : Nat} (hok : PhaseOk κ jobDef g s w (.merging job saved (.result taskId)))
    (hkeeps : KeepsForeign s.history w job)
    (htasks : base.tasksById = (saved.carryTasks job w).tasksById) (hframe : Frame saved base)
    (hfrom : Job.SettledFrom base w now job') : KeepsForeign s.history w job' := by
  obtain ⟨-, -, -, -, e, he, hloaded⟩ := hok
  suffices hbase : KeepsForeign s.history w base from hbase.run hfrom.run hfrom.frame
  refine ⟨?_, e, he, hloaded.iter.trans hframe.iterNum.symm,
    hloaded.version.trans hframe.version.symm, ?_⟩
  · rw [htasks]
    intro id t ht
    rcases carry_cases ht with ⟨hin, -⟩ | ⟨hin, -⟩
    · exact hkeeps.owned id t hin
    · exact allOwned_of_loaded hpickup he hloaded id t hin
  · intro id u x hu howner hne
    have hu' : (saved.carryTasks job w).tasksById.get id = some u := htasks ▸ hu
    rcases carry_cases hu' with ⟨-, hcarried⟩ | ⟨hin, -⟩
    · -- what the filter lets through names the worker, or nobody
      simp [Job.isCarried, Job.isCreatedNow, Job.isProcessedNow, howner, hne] at hcarried
    · exact ⟨u.persisted, hloaded.get hin, .refl _⟩

/-- A freshly planned iteration. -/
theorem untaken_of_planned {ids : List Uuid} (hplanned : job.Planned jobDef w ids) :
    Untaken job := by
  constructor <;> intro id t ht <;>
    obtain ⟨p, taskDef, resolved, -, -, -, hnew⟩ := hplanned.planned id t ht <;> rw [hnew]
  · exact owned_new ..
  · rfl

/-- Every move keeps what its worker knows of entries that have an owner. -/
theorem PickupPhase.moves (hinv : Inv κ jobDef g s) (hpickup : PickupInv s) {p p' : Phase}
    {action : WorkerAction} {ids : List Uuid} (hphase : (s.workers w).phase = p)
    (hmoves : Moves κ jobDef s w p action p' ids) : PickupPhase s.history w p' := by
  have hok := hinv.workers w
  have hknows := hpickup.workers w
  rw [hphase] at hok hknows
  cases hmoves with
  | idle => trivial
  | missing _ => trivial
  | read hread hserves =>
      obtain ⟨hcurrent, hmem, -, hloaded, -⟩ := read_loaded (w := w) hinv hread hserves
      exact ⟨keepsForeign_of_loaded hpickup hmem hloaded, tracksOwn_of_loaded hcurrent hloaded⟩
  | create _ _ hplanned _ => exact untaken_of_planned hplanned
  | advance _ _ _ _ _ hplanned _ => exact untaken_of_planned hplanned
  | @start job job' m t t' moments now _ hrun _ ht hstart htasks hframe _ =>
      have hpicked := localRun_of_start hrun ht hstart htasks
      refine ⟨hknows.1.run hpicked hframe, ?_⟩
      rw [hframe.iterNum]
      exact hknows.2.ownReopenable hknows.1.owned hrun ht hstart
  | settle _ hrun _ hframe _ _ _ _ => exact hknows.1.run hrun hframe
  | refused => exact hknows
  | @reread job saved purpose n kept e hread hserves =>
      obtain ⟨hcurrent, -, hiter, hloaded, hsaved⟩ := read_loaded (w := w) hinv hread hserves
      refine ⟨hknows, tracksOwn_of_loaded hcurrent hloaded, ?_⟩
      rintro taskId rfl t ht howner
      obtain ⟨hcopy, -, -, -, t₀, ht₀, -⟩ := hok
      have hsame : saved.iterNum = job.iterNum := sameIteration hcopy.fits hsaved.fits ht₀ ht
      rw [← hiter, hloaded.iter, hsame] at hcurrent
      exact hknows.2 e hcurrent t.persisted (hloaded.get ht) howner
  | adopt _ =>
      obtain ⟨-, -, -, -, e, he, hloaded⟩ := hok
      exact ⟨keepsForeign_of_loaded hpickup he hloaded, hknows.2.1⟩
  | mergeStart _ _ hstored _ hworker _ _ hrun _ _ htasks hframe _ _ =>
      exact PickupPhase.mergeStart hpickup hok hknows hstored hworker hrun htasks hframe
  | mergeResult _ _ _ _ _ htasks hframe _ hfrom _ =>
      exact KeepsForeign.mergeResult hpickup hok hknows.1 htasks hframe hfrom
  | call _ _ hfresh hserve =>
      have hworked := call_worked hok.1 hfresh hserve
      exact KeepsForeign.run hknows hworked.run hworked.frame
  | callRefused => exact hknows
  | finish _ _ _ _ hworked hfrom =>
      exact (KeepsForeign.run hknows hworked.run hworked.frame).run hfrom.run hfrom.frame

end Copies

/-! ## Writes -/

section Writes

variable {jobDef : JobDefinition} {g : Pedigree} {s s' : System} {h h' : History} {w : Uuid}
  {job : Job} {purpose : Purpose} {version : String} {now : Nat}

theorem KeepsForeign.cons (e : Entry) (hkeeps : KeepsForeign h w job) :
    KeepsForeign (e :: h) w job := by
  obtain ⟨howned, e₀, he₀, hrest⟩ := hkeeps
  exact ⟨howned, e₀, List.mem_cons_of_mem _ he₀, hrest⟩

/-- What the store shows in the worker's name is what it showed there before, or that grown
old. -/
def OwnAges (h h' : History) (w : Uuid) : Prop :=
  ∀ n c, h'.current n = some c → ∀ id t, c.tasks.get id = some t →
    t.processingByWorker = some w → ∃ c₀, h.current n = some c₀ ∧
      ∃ t₀, c₀.tasks.get id = some t₀ ∧ Aged t₀ t

/-- What a worker knows of its own tasks goes on to hold. -/
theorem TracksOwn.later (hages : OwnAges h h' w) (htracks : TracksOwn h w job) :
    TracksOwn h' w job := by
  intro c hc id t ht howner
  obtain ⟨c₀, hc₀, t₀, ht₀, hage⟩ := hages _ c hc id t ht howner
  obtain ⟨u, hu, hage₀⟩ := htracks c₀ hc₀ id t₀ ht₀ (hage.processingByWorker ▸ howner)
  exact ⟨u, hu, hage₀.trans hage⟩

theorem OwnReopenable.later {taskId : Uuid} {n : Nat} (hages : OwnAges h h' w)
    (hopen : OwnReopenable h w taskId n) : OwnReopenable h' w taskId n := by
  intro c hc t ht howner
  obtain ⟨c₀, hc₀, t₀, ht₀, hage⟩ := hages _ c hc taskId t ht howner
  exact (hopen c₀ hc₀ t₀ ht₀ (hage.processingByWorker ▸ howner)).aged hage

/-- What holds of a worker survives a write that only lets its entries grow old. -/
theorem PickupPhase.later {p : Phase} {e : Entry} (hages : OwnAges h (e :: h) w)
    (hknows : PickupPhase h w p) : PickupPhase (e :: h) w p := by
  have hsave : ∀ {job : Job} {purpose : Purpose}, PickupSave h w job purpose →
      PickupSave (e :: h) w job purpose := by
    intro job purpose hsave
    cases purpose with
    | create => exact hsave
    | nextIteration readyAt => exact hsave
    | start taskId => exact ⟨hsave.1.cons e, hsave.2.later hages⟩
    | result taskId => exact KeepsForeign.cons e hsave
    | settle => exact KeepsForeign.cons e hsave
  cases p with
  | idle => trivial
  | missing => trivial
  | loaded job => exact ⟨hknows.1.cons e, hknows.2.later hages⟩
  | executing job taskId => exact KeepsForeign.cons e hknows
  | saving job purpose => exact hsave hknows
  | conflicted job purpose => exact hsave hknows
  | merging job saved purpose =>
      exact ⟨hsave hknows.1, hknows.2.1.later hages, hknows.2.2⟩

/-- The records of a copy about to be written are in order. -/
theorem PickupSave.owned (hsave : PickupSave h w job purpose) : AllOwned job.tasksById := by
  cases purpose with
  | create => exact hsave.1
  | nextIteration readyAt => exact hsave.1
  | start taskId => exact hsave.1.owned
  | result taskId => exact hsave.owned
  | settle => exact hsave.owned

/-- A write lets the entries of other workers grow old. -/
theorem ownAges_of_put (hinv : Inv κ jobDef g s)
    (haccepts : s.history.accepts job = true) (hsave : PickupSave s.history w job purpose)
    {x : Uuid} (hne : x ≠ w) :
    OwnAges s.history (.ofJob job version w purpose now :: s.history) x := by
  intro n c hc id t ht howner
  rw [current_cons] at hc
  split at hc <;> rename_i hiter
  · cases hc
    obtain ⟨u, hu, rfl⟩ := get_ofJob_eq_some ht
    have hshows : u.processingByWorker = some x := howner
    have hkeeps : KeepsForeign s.history w job := by
      cases purpose with
      | create =>
          rw [hsave.2 id u hu] at hshows
          cases hshows
      | nextIteration readyAt =>
          rw [hsave.2 id u hu] at hshows
          cases hshows
      | start taskId => exact hsave.1
      | result taskId => exact hsave
      | settle => exact hsave
    obtain ⟨-, e, he, heiter, hversion, hforeign⟩ := hkeeps
    obtain ⟨c₀, hc₀⟩ := current_of_mem he
    rw [heiter] at hc₀
    obtain ⟨-, hcversion⟩ := accepts_current haccepts hc₀
    obtain ⟨hmem, hciter⟩ := current_mem hc₀
    have hstate : e.state = c₀.state := hinv.versions e he c₀ hmem
      (heiter.trans hciter.symm) (hversion.trans hcversion.symm)
    obtain ⟨t₀, ht₀, hage⟩ := hforeign id u x hu hshows hne
    refine ⟨c₀, ?_, t₀, ?_, hage⟩
    · rw [← hc₀, ← hiter]
      rfl
    · unfold Entry.tasks at ht₀ ⊢
      rwa [← hstate]
  · exact ⟨c, hc, t, ht, .refl _⟩

/-- Where an accepted write leaves its own worker. -/
theorem PickupPhase.afterPut (hbasis : SavingBasis κ jobDef s w job purpose)
    (hsave : PickupSave s.history w job purpose) (delivered : Bool) :
    PickupPhase (.ofJob job version w purpose now :: s.history) w
      (afterPut job purpose version delivered) := by
  have hcurrent : ∀ {c : Entry}, History.current (.ofJob job version w purpose now :: s.history)
      job.iterNum = some c → c = .ofJob job version w purpose now := by
    intro c hc
    rw [current_cons, if_pos (show (Entry.ofJob job version w purpose now).iterNum = job.iterNum
      from rfl)] at hc
    cases hc
    rfl
  have htracks : TracksOwn (.ofJob job version w purpose now :: s.history) w
      (job.updateVersion version) := by
    intro c hc id t ht _
    rw [hcurrent hc] at ht
    obtain ⟨u, hu, rfl⟩ := get_ofJob_eq_some ht
    exact ⟨u, hu, .refl _⟩
  have hkeeps : KeepsForeign (.ofJob job version w purpose now :: s.history) w
      (job.updateVersion version) := by
    refine ⟨hsave.owned, _, List.mem_cons_self .., rfl, rfl, ?_⟩
    intro id u x hu _ _
    refine ⟨u.persisted, ?_, .refl _⟩
    rw [get_ofJob, show job.task? id = some u from hu]
    rfl
  cases delivered with
  | true =>
      cases purpose with
      | create => exact ⟨hkeeps, htracks⟩
      | nextIteration readyAt => exact ⟨hkeeps, htracks⟩
      | start taskId => exact hkeeps
      | result taskId => trivial
      | settle => trivial
  | false =>
      cases purpose with
      | create => exact hsave
      | nextIteration readyAt => exact hsave
      | start taskId =>
          refine ⟨hsave.1.cons _, ?_⟩
          -- the store shows the start whose reply was lost
          intro c hc t ht _
          rw [hcurrent hc] at ht
          obtain ⟨u, hu, rfl⟩ := get_ofJob_eq_some ht
          obtain ⟨-, -, u', hu', hstarted, -⟩ := hbasis
          rw [hu] at hu'
          cases hu'
          exact Reopenable.of_started hstarted
      | result taskId => exact KeepsForeign.cons _ hsave
      | settle => exact KeepsForeign.cons _ hsave

/-- Every action keeps what the workers know of entries that have an owner. -/
theorem PickupInv.step (hinv : Inv κ jobDef g s) (hpickup : PickupInv s) {a : Action}
    (hstep : step κ jobDef s a = some s') : PickupInv s' := by
  rcases step_cases hstep with ⟨elapsed, rfl, rfl⟩ | ⟨w, action, phase, ids, rfl, hmoves, rfl⟩ |
    ⟨w, version, delivered, job, purpose, rfl, hphase, haccepts, hissue, rfl⟩
  · exact ⟨hpickup.entries, hpickup.workers⟩
  · refine ⟨hpickup.entries, ?_⟩
    intro w'
    by_cases hw : w' = w
    · subst hw
      rw [System.enter_self]
      exact PickupPhase.moves hinv hpickup rfl hmoves
    · rw [System.enter_of_ne _ _ _ _ hw]
      exact hpickup.workers w'
  · have hok := hinv.workers w
    have hsave := hpickup.workers w
    rw [hphase] at hok hsave
    constructor
    · intro e he
      rcases List.mem_cons.mp he with rfl | he
      · intro id t ht
        obtain ⟨u, hu, rfl⟩ := get_ofJob_eq_some ht
        exact (PickupSave.owned hsave id u hu).persisted
      · exact hpickup.entries e he
    · intro w'
      by_cases hw : w' = w
      · subst hw
        rw [System.commit_self]
        exact PickupPhase.afterPut hok.2.2 hsave delivered
      · rw [System.commit_of_ne _ _ _ _ hw]
        exact (hpickup.workers w').later (ownAges_of_put hinv haccepts hsave hw)

end Writes

/-- The invariant holds in every reachable state. -/
theorem reachable_pickupInv {jobDef : JobDefinition} (hdef : jobDef.WellFormed) {s : System}
    (hreach : Reachable (step κ jobDef) System.init s) :
    (∃ g, Inv κ jobDef g s) ∧ PickupInv s :=
  reachable_beside hdef ⟨by simp [System.init], fun _ => trivial⟩
    (fun hinv hpickup _ hstep => hpickup.step hinv hstep) hreach

/-! ## What the merge of a start revives -/

/-- What the merge of a start derives from the stored state before it puts the started task
over it. -/
def Job.derivedForPickup (workerJob : Job) (lifetime cascade : Nat) (job : Job) : Job :=
  (skipUnreachableTasks cascade
    (failTasksByLifetime lifetime { job with status := workerJob.status }).2).2

/-- The merge finds the task still to be done, in the stored state and in what it derives
from it. -/
def RevivesNothing (job saved : Job) (taskId : Uuid) (first second : Nat) : Prop :=
  (∀ t, saved.task? taskId = some t → ¬ Finished t second) ∧
    ∀ t, (job.derivedForPickup first second saved).task? taskId = some t → ¬ Finished t second

/-- What a repeated start derives is derived, and nothing is left to put out. -/
theorem derived_derivedForPickup (job saved : Job) (first second : Nat) :
    Derived first second saved.tasksById (job.derivedForPickup first second saved).tasksById ∧
      ∀ id t, (job.derivedForPickup first second saved).task? id = some t →
        t.status = .blocked → ∀ cause,
        ¬ UnreachableFor (job.derivedForPickup first second saved).tasksById t second cause := by
  obtain ⟨m₁, hfail, -, houtlived⟩ :=
    Job.failTasksByLifetime_spec 0 first { saved with status := job.status }
  obtain ⟨n, m, hskip, -, hgens, hdone⟩ := Job.skipUnreachableTasks_spec 0 second
    (Job.withTasks { saved with status := job.status } m₁)
  have hderived : (job.derivedForPickup first second saved).tasksById = m := by
    rw [Job.derivedForPickup, hfail, hskip]
    rfl
  unfold Job.task?
  rw [hderived]
  exact ⟨⟨m₁, houtlived, hgens⟩, hdone⟩

/-- The task the merge of a start meets has not completed, nor failed in a way that rules a
retry out. -/
theorem reopenable_of_merging {jobDef : JobDefinition} {g : Pedigree} {s : System}
    (hinv : Inv κ jobDef g s) (hpickup : PickupInv s) {w taskId : Uuid} {job saved : Job}
    (hphase : (s.workers w).phase = .merging job saved (.start taskId)) {t : Task}
    (ht : saved.task? taskId = some t)
    (howner : t.processingByWorker = none ∨ t.processingByWorker = some w) : Reopenable t := by
  have hok := hinv.workers w
  have hknows := hpickup.workers w
  rw [hphase] at hok hknows
  rcases howner with hnone | hself
  · obtain ⟨-, -, -, -, e, he, hloaded⟩ := hok
    have howned := allOwned_of_loaded hpickup he hloaded taskId t ht
    constructor
    · intro hcompleted
      exact howned.sound.owned (Or.inr hcompleted) hnone
    · intro hfailed
      exact absurd hnone (howned.failed hfailed)
  · exact hknows.2.2 taskId rfl t ht hself

/-- The merge of a start revives nothing if and only if the stored state neither skips the
task nor is bound to, and the task is not past its lifetime there nor out of attempts. -/
theorem pickup_revives_iff {jobDef : JobDefinition} (hdef : jobDef.Accepted) {s : System}
    (hreach : Reachable (step κ jobDef) System.init s) {w taskId : Uuid} {job saved merged : Job}
    (hphase : (s.workers w).phase = .merging job saved (.start taskId)) {first second : Nat}
    (hle : first ≤ second)
    (hmerge : Job.mergeWithPickedTask job w taskId first second saved = (.ok (), merged)) :
    RevivesNothing job saved taskId first second ↔
      ¬ SkipsIn saved.tasksById first second taskId ∧
        ∀ t, saved.task? taskId = some t →
          (t.status = .started → t.isLifetimeExpiredAt first = false) ∧
          (t.status = .failed →
            t.attempt < t.maxAttempts ∧ t.isLifetimeExpiredAt second = false) := by
  obtain ⟨⟨g, hinv⟩, hpickup⟩ := reachable_pickupInv hdef.wellFormed hreach
  obtain ⟨hderived, hdone⟩ := derived_derivedForPickup job saved first second
  obtain ⟨stored, -, -, hstored, howner, -⟩ :=
    Job.mergeWithPickedTask_eq_ok (κ := .shared) hle hmerge
  have hopen := reopenable_of_merging hinv hpickup hphase hstored howner
  constructor
  · rintro ⟨hsaved, hkept⟩
    refine ⟨?_, ?_⟩
    · intro hskips
      obtain ⟨t', cause, ht', hs⟩ := hderived.skips hle hdone hskips
      exact hkept t' ht' (Or.inr (Or.inl ⟨cause, hs⟩))
    · intro t ht
      constructor
      · intro hstarted
        by_contra hexpired
        obtain ⟨t', ht', hterminal⟩ := hderived.fails hle
          ⟨t, ht, Or.inr ⟨hstarted, by simpa using hexpired⟩⟩
        exact hkept t' ht' (Or.inr (Or.inr hterminal))
      · intro hfailed
        have hbudget : t.isTerminallyFailedAt second = false := by
          by_contra hterminal
          exact hsaved t ht (Or.inr (Or.inr (by simpa using hterminal)))
        simp only [Task.isTerminallyFailedAt, Task.isFailed, hfailed, decide_true, Bool.true_and,
          Bool.or_eq_false_iff, decide_eq_false_iff_not, Nat.not_le] at hbudget
        exact ⟨hbudget.1.2, hbudget.2⟩
  · rintro ⟨hskips, hbudget⟩
    have hterminal : ∀ {t : Task}, saved.task? taskId = some t →
        t.isTerminallyFailedAt second = false := by
      intro t ht
      by_contra hterminal
      obtain ⟨hfailed, hcause⟩ := Task.isTerminallyFailedAt_eq_true.mp (by simpa using hterminal)
      obtain ⟨hattempts, hlifetime⟩ := (hbudget t ht).2 hfailed
      rw [hstored] at ht
      cases ht
      rcases hcause with hnever | hspent | hexpired
      · exact hopen.2 hfailed hnever
      · omega
      · rw [hlifetime] at hexpired
        cases hexpired
    have hcompleted : ∀ {t : Task}, saved.task? taskId = some t → t.status ≠ .completed := by
      intro t ht
      rw [hstored] at ht
      cases ht
      exact hopen.1
    constructor
    · rintro t ht (hs | ⟨cause, hs⟩ | hs)
      · exact hcompleted ht hs
      · exact hskips (.settled ht hs)
      · rw [hterminal ht] at hs
        cases hs
    · rintro t ht (hs | ⟨cause, hs⟩ | hs)
      · rcases hderived.origin ht (by simp [hs]) with hget | ⟨_, -, -, -, rfl⟩
        · exact hcompleted hget hs
        · cases hs
      · exact hskips (hderived.skipsIn ht hs).1
      · obtain ⟨t₀, ht₀, hfails | ⟨hstarted, hexpired⟩⟩ := hderived.failsIn ht hs
        · rw [hterminal ht₀] at hfails
          cases hfails
        · rw [(hbudget t₀ ht₀).1 hstarted] at hexpired
          cases hexpired

/-- Whether the worker is about to merge the start of the task, the merge goes on and the
stored task has the given status. -/
def mergesStart (w taskId : Uuid) (now : Nat) (status : TaskStatus → Bool) (s : System) : Bool :=
  match (s.workers w).phase with
  | .merging job saved (.start id) => id = taskId &&
      (Job.mergeWithPickedTask job w taskId now now saved).1.isOk &&
      (saved.task? taskId).any (status ·.status)
  | _ => false

theorem exists_of_mergesStart {w taskId : Uuid} {now : Nat} {status : TaskStatus → Bool}
    {s : System} (h : mergesStart w taskId now status s = true) :
    ∃ job saved merged t, (s.workers w).phase = .merging job saved (.start taskId) ∧
      Job.mergeWithPickedTask job w taskId now now saved = (.ok (), merged) ∧
      saved.task? taskId = some t ∧ status t.status = true := by
  unfold mergesStart at h
  split at h
  · rename_i job saved id hphase
    simp only [Bool.and_eq_true, decide_eq_true_eq, Option.any_eq_true] at h
    obtain ⟨⟨rfl, hok⟩, t, ht, hstatus⟩ := h
    rcases hmerge : Job.mergeWithPickedTask job w id now now saved with ⟨r, merged⟩
    rw [hmerge] at hok
    cases r with
    | error e => cases hok
    | ok u => exact ⟨job, saved, merged, t, hphase, hmerge, ht, hstatus⟩
  · cases h

/-- What a cascade skips was skipped or blocked. -/
theorem SkipsIn.status {m : TaskMap} {lifetime cascade : Nat} {id : Uuid} {t : Task}
    (h : SkipsIn m lifetime cascade id) (ht : m.get id = some t) :
    t.status = .blocked ∨ ∃ cause, t.status = .skipped cause := by
  cases h with
  | settled ht' hs =>
      rw [ht] at ht'
      cases ht'
      exact Or.inr ⟨_, hs⟩
  | failed ht' hs _ _ _ =>
      rw [ht] at ht'
      cases ht'
      exact Or.inl hs
  | skipped ht' hs _ _ _ =>
      rw [ht] at ht'
      cases ht'
      exact Or.inl hs

/-- A start that lost its race to the start of another task revives nothing. -/
theorem gateRace_revives_nothing :
    ∃ s job saved merged, Reachable (step .shared gateDefinition) System.init s ∧
      (s.workers 101).phase = .merging job saved (.start 2) ∧
      Job.mergeWithPickedTask job 101 2 0 0 saved = (.ok (), merged) ∧
      RevivesNothing job saved 2 0 0 := by
  have hruns : (runActions (step .shared gateDefinition) System.init (gateRace.take 14)).any
      (mergesStart 101 2 0 (· = .todo)) = true := by
    decide +kernel
  obtain ⟨s, hs, hmerges⟩ := (Option.any_eq_true _ _).mp hruns
  obtain ⟨job, saved, merged, t, hphase, hmerge, ht, htodo⟩ := exists_of_mergesStart hmerges
  have hreach := reachable_of_runActions .init hs
  rw [decide_eq_true_eq] at htodo
  refine ⟨s, job, saved, merged, hreach, hphase, hmerge,
    (pickup_revives_iff gateDefinition_accepted hreach hphase (Nat.le_refl 0) hmerge).mpr ?_⟩
  constructor
  · intro hskips
    rcases hskips.status ht with hs | ⟨cause, hs⟩ <;> simp [htodo] at hs
  · intro t' ht'
    rw [ht] at ht'
    cases ht'
    simp [htodo]

/-- A start whose task was put out meanwhile is merged over it all the same. -/
theorem pickup_revives_skipped : gateDefinition.Accepted ∧
    ∃ s job saved merged, Reachable (step .shared gateDefinition) System.init s ∧
      (s.workers 102).phase = .merging job saved (.start 2) ∧
      Job.mergeWithPickedTask job 102 2 (milliseconds 2000) (milliseconds 2000) saved =
        (.ok (), merged) ∧
      ¬ RevivesNothing job saved 2 (milliseconds 2000) (milliseconds 2000) := by
  refine ⟨gateDefinition_accepted, ?_⟩
  have hruns : (runActions (step .shared gateDefinition) System.init (gateTrespass.take 16)).any
      (mergesStart 102 2 (milliseconds 2000) (· = .skipped .skippedDependency)) = true := by
    decide +kernel
  obtain ⟨s, hs, hmerges⟩ := (Option.any_eq_true _ _).mp hruns
  obtain ⟨job, saved, merged, t, hphase, hmerge, ht, hskipped⟩ := exists_of_mergesStart hmerges
  refine ⟨s, job, saved, merged, reachable_of_runActions .init hs, hphase, hmerge, ?_⟩
  rintro ⟨hsaved, -⟩
  exact hsaved t ht (Or.inr (Or.inl ⟨_, by simpa using hskipped⟩))

end JobManager
