import JobManager.Protocol.Linear

/-!
# What executions found stays found

A finding is read off a task that was executed and is done: its output, or that it is done
at all.  No step of a worker takes one back, and a start never does, for a worker knows what
it found itself.  A merge of a result can, where it carries an old entry of the worker over
it; along runs whose merges agree with what is stored, every version keeps what the earlier
ones found.

Main definitions:

- {lit}`Finding`: what is read off a task that was executed and is done.
- {lit}`FindingInv`: no finding is lost, and every worker knows those of its own.

Main results:

- Theorem {lit}`FindingInv.step`: it survives every action that agrees with what is stored.
- Theorem {lit}`FindingInv.keepsCreators`: merges that leave every conclusion in place keep
  the creators done.
-/

namespace JobManager

variable {κ : Clocks} {β : Type}

/-- What is found of a task that was executed and is done. -/
structure Finding (β : Type) where
  of : Task → Option β
  concluded : ∀ {t b}, Sound t → of t = some b → Concluded t
  persisted : ∀ t, of t.persisted = of t

namespace Finding

variable (F : Finding β)

/-- The map holds the task with the given finding. -/
def Holds (m : TaskMap) (id : Uuid) (b : β) : Prop := ∃ t, m.get id = some t ∧ F.of t = some b

/-- Whatever a version found, every later version of the iteration holds. -/
def Keeps (h : History) : Prop :=
  h.Pairwise fun later earlier => later.iterNum = earlier.iterNum →
    ∀ id b, F.Holds earlier.tasks id b → F.Holds later.tasks id b

/-- A merge of a result that goes through carries no entry of another task that disagrees
with what is stored of it. -/
def AgreesOn (s : System) : Action → Prop
  | .move w (.merge _ _) =>
      match (s.workers w).phase with
      | .merging job saved (.result taskId) =>
          saved.acceptsResult job w taskId = true →
            ∀ id t stored b, id ≠ taskId → job.task? id = some t →
              t.processingByWorker = some w → saved.task? id = some stored →
              F.of stored = some b → F.of t = some b
      | _ => True
  | _ => True

/-! ## What a worker's copy knows -/

/-- Whatever the worker found itself, as any version of the iteration holds it, is in its
copy. -/
def RemembersOwn (h : History) (w : Uuid) (job : Job) : Prop :=
  ∀ c ∈ h, c.iterNum = job.iterNum → ∀ id t b, c.tasks.get id = some t → F.of t = some b →
    t.processingByWorker = some w → F.Holds job.tasksById id b

/-- Whatever the copy holds as found is stored; but for what its worker found, where the copy
may be ahead of the store. -/
def Stored (h : History) (w : Uuid) (ahead : Bool) (job : Job) : Prop :=
  ∀ id t b, job.task? id = some t → F.of t = some b →
    (ahead = true → t.processingByWorker ≠ some w) →
    ∃ c ∈ h, c.iterNum = job.iterNum ∧ ∃ t', c.tasks.get id = some t' ∧ F.of t' = some b ∧
      t'.processingByWorker = t.processingByWorker

/-- The copy holds whatever the version it is to replace found. -/
def KeepsBase (h : History) (job : Job) : Prop :=
  ∃ e ∈ h, e.iterNum = job.iterNum ∧ e.version = job.version ∧
    ∀ id b, F.Holds e.tasks id b → F.Holds job.tasksById id b

/-- What a worker's copy of a stored iteration recalls. -/
structure Recalls (h : History) (w : Uuid) (job : Job) : Prop where
  own : F.RemembersOwn h w job
  base : F.KeepsBase h job

/-- The state that won holds what the worker's copy does; but for what the worker found,
where the copy may be ahead of the store. -/
def Covers (w : Uuid) (ahead : Bool) (job saved : Job) : Prop :=
  saved.iterNum = job.iterNum → ∀ id t b, job.task? id = some t → F.of t = some b →
    (ahead = true → t.processingByWorker ≠ some w) → F.Holds saved.tasksById id b

end Finding

/-- Whether a write is about a result. -/
def Purpose.isResult : Purpose → Bool
  | .result _ => true
  | _ => false

namespace Finding

variable (F : Finding β)

/-- What holds of a worker, by what it is doing. -/
def PhaseKnows (h : History) (w : Uuid) : Phase → Prop
  | .idle => True
  | .missing => True
  | .loaded job => F.Stored h w false job ∧ F.Recalls h w job
  | .executing job _ => F.Stored h w true job ∧ F.Recalls h w job
  | .saving job purpose =>
      F.Stored h w purpose.isResult job ∧ (purpose.isCreation = false → F.Recalls h w job)
  | .conflicted job purpose =>
      F.Stored h w purpose.isResult job ∧ (purpose.isCreation = false → F.Recalls h w job)
  | .merging job saved purpose =>
      F.Stored h w purpose.isResult job ∧ (purpose.isCreation = false → F.Recalls h w job) ∧
        F.RemembersOwn h w saved ∧ F.Covers w purpose.isResult job saved

end Finding

/-- The invariant: no finding is lost, and every worker knows those of its own. -/
structure FindingInv (F : Finding β) (s : System) : Prop where
  kept : F.Keeps s.history
  workers : ∀ w, F.PhaseKnows s.history w (s.workers w).phase

theorem findingInv_init (F : Finding β) : FindingInv F System.init :=
  ⟨List.Pairwise.nil, fun _ => trivial⟩

/-! ## Runs of one worker's steps -/

/-- A task is executed and done only at the hands of its own worker. -/
theorem TaskMove.concluded {w : Uuid} {now : Nat} {t t' : Task} {touch : Touch}
    (h : TaskMove w now t touch t') (hsound : Sound t) (hconcluded : Concluded t') :
    touch = .resolved t.id ∧ t'.processingByWorker = some w := by
  obtain ⟨hdone, howned⟩ := hconcluded
  cases h with
  | outlive _ _ => simp [IsDone, Task.failedWith] at hdone
  | putOut hb _ => exact absurd (hsound.unowned (Or.inl hb)) howned
  | release _ => simp [IsDone] at hdone
  | start hstart =>
      obtain ⟨-, _, _, -, -, rfl⟩ := Task.start_eq_ok hstart
      simp [IsDone] at hdone
  | complete howner _ _ => exact ⟨rfl, howner.resolve_left howned⟩
  | fail _ _ => simp [IsDone, Task.failedWith] at hdone
  | skip howner _ => exact ⟨rfl, howner.resolve_left howned⟩

/-- What was executed and is done after a worker's own steps was so before them, or the worker
resolved it. -/
theorem LocalRun.concluded_origin {w : Uuid} {touches : Touch → Prop} {lo hi : Nat}
    {m m' : TaskMap} (h : LocalRun κ w touches lo hi m m')
    (hsound : ∀ id t, m.get id = some t → Sound t) :
    ∀ id t', m'.get id = some t' → Concluded t' →
      m.get id = some t' ∨ (∃ p, touches (.resolved p)) ∧ t'.processingByWorker = some w := by
  have hboth : (∀ id t, m'.get id = some t → Sound t) ∧
      ∀ id t', m'.get id = some t' → Concluded t' →
        m.get id = some t' ∨ (∃ p, touches (.resolved p)) ∧ t'.processingByWorker = some w := by
    refine TimedRun.preserves_untimed
      (P := fun m' => (∀ id t, m'.get id = some t → Sound t) ∧
        ∀ id t', m'.get id = some t' → Concluded t' →
          m.get id = some t' ∨ (∃ p, touches (.resolved p)) ∧ t'.processingByWorker = some w)
      ?_ h ⟨hsound, fun id t ht _ => Or.inl ht⟩
    rintro now m₁ m₂ ⟨touch, htouch, hstep⟩ ⟨hsound₁, ih⟩
    constructor
    · intro id t₂ ht₂
      rcases hstep.predecessor ht₂ with ⟨t₁, ht₁, rfl | hmove⟩ | ⟨_, _, _, -, -, -, rfl⟩
      · exact hsound₁ id _ ht₁
      · exact (hsound₁ id t₁ ht₁).move hmove
      · exact sound_new _ _ _ _ _
    · intro id t₂ ht₂ hconcluded
      rcases hstep.predecessor ht₂ with ⟨t₁, ht₁, rfl | hmove⟩ | ⟨_, _, _, -, -, -, rfl⟩
      · exact ih id _ ht₁ hconcluded
      · obtain ⟨hresolved, howner⟩ := hmove.concluded (hsound₁ id t₁ ht₁) hconcluded
        exact Or.inr ⟨⟨t₁.id, hresolved ▸ htouch⟩, howner⟩
      · exact absurd rfl hconcluded.owned
  exact hboth.2

section Copies

variable {F : Finding β} {jobDef : JobDefinition} {g : Pedigree} {s s' : System} {w : Uuid}
  {job job' : Job}

/-- A run that drops nothing that belongs to a worker keeps what is found. -/
theorem SteadyRun.holds {touches : Touch → Prop} {lo hi : Nat} {m m' : TaskMap}
    (hrun : SteadyRun κ w touches lo hi m m') (hsound : ∀ id t, m.get id = some t → Sound t)
    {id : Uuid} {b : β} (h : F.Holds m id b) : F.Holds m' id b := by
  obtain ⟨t, ht, hb⟩ := h
  exact ⟨t, hrun.keeps_concluded ht (F.concluded (hsound id t ht) hb), hb⟩

/-- A version found what a copy of it shows. -/
theorem holds_of_loaded {e : Entry} (hloaded : LoadedFrom jobDef e job) {id : Uuid} {b : β} :
    F.Holds job.tasksById id b ↔ F.Holds e.tasks id b := by
  constructor
  · rintro ⟨t, ht, hb⟩
    exact ⟨t.persisted, hloaded.get ht, (F.persisted t).trans hb⟩
  · rintro ⟨t, ht, hb⟩
    obtain ⟨t₀, ht₀, rfl⟩ := hloaded.exists_get ht
    exact ⟨t₀, ht₀, (F.persisted t₀).symm.trans hb⟩

namespace Finding

theorem Stored.mono {h h' : History} {ahead : Bool} (hsub : ∀ e ∈ h, e ∈ h')
    (hstored : F.Stored h w ahead job) : F.Stored h' w ahead job := by
  intro id t b ht hb hother
  obtain ⟨c, hc, hrest⟩ := hstored id t b ht hb hother
  exact ⟨c, hsub c hc, hrest⟩

theorem KeepsBase.mono {h h' : History} (hsub : ∀ e ∈ h, e ∈ h') (hbase : F.KeepsBase h job) :
    F.KeepsBase h' job := by
  obtain ⟨e, he, hrest⟩ := hbase
  exact ⟨e, hsub e he, hrest⟩

/-- What is stored of a copy stays so under its worker's steps, those that resolve a task
leaving it ahead of the store. -/
theorem Stored.run {h : History} {ahead ahead' : Bool} {touches : Touch → Prop} {lo hi : Nat}
    (hstored : F.Stored h w ahead job)
    (hrun : LocalRun κ w touches lo hi job.tasksById job'.tasksById) (hframe : Frame job job')
    (hsound : ∀ id t, job.task? id = some t → Sound t)
    (hsound' : ∀ id t, job'.task? id = some t → Sound t) (hle : ahead = true → ahead' = true)
    (hresolves : (∃ p, touches (.resolved p)) → ahead' = true) :
    F.Stored h w ahead' job' := by
  intro id t b ht hb hother
  rcases LocalRun.concluded_origin hrun hsound id t ht (F.concluded (hsound' id t ht) hb) with
    hbefore | ⟨hresolved, howner⟩
  · obtain ⟨c, hc, hiter, hholds⟩ := hstored id t b hbefore hb fun h => hother (hle h)
    exact ⟨c, hc, hiter.trans hframe.iterNum.symm, hholds⟩
  · exact absurd howner (hother (hresolves hresolved))

/-- What a copy recalls survives whatever keeps what it holds. -/
theorem Recalls.carry {h : History} (hrecalls : F.Recalls h w job) (hframe : Frame job job')
    (hkeeps : ∀ id b, F.Holds job.tasksById id b → F.Holds job'.tasksById id b) :
    F.Recalls h w job' where
  own := by
    intro c hc hiter id t b ht hb howner
    exact hkeeps id b (hrecalls.own c hc (hiter.trans hframe.iterNum) id t b ht hb howner)
  base := by
    obtain ⟨e, he, hiter, hversion, hholds⟩ := hrecalls.base
    exact ⟨e, he, hiter.trans hframe.iterNum.symm, hversion.trans hframe.version.symm,
      fun id b h => hkeeps id b (hholds id b h)⟩

/-- What the current version holds, every version found before it. -/
theorem Keeps.current {h : History} (hkept : F.Keeps h) {n : Nat} {c e : Entry}
    (hc : h.current n = some c) (he : e ∈ h) (hiter : e.iterNum = n) {id : Uuid} {b : β}
    (hholds : F.Holds e.tasks id b) : F.Holds c.tasks id b :=
  current_of_pairwise (R := fun c e => ∀ id b, F.Holds e.tasks id b → F.Holds c.tasks id b)
    (fun _ _ _ h => h) hkept hc he hiter id b hholds

/-- Whatever a copy of a version shows is stored. -/
theorem stored_of_loaded {e : Entry} (he : e ∈ s.history) (hloaded : LoadedFrom jobDef e job) :
    F.Stored s.history w false job := fun _ t _ ht hb _ =>
  ⟨e, he, hloaded.iter, t.persisted, hloaded.get ht, (F.persisted t).trans hb, rfl⟩

/-- A copy of the current version knows whatever was found so far. -/
theorem remembersOwn_of_loaded (hkept : F.Keeps s.history) {n : Nat} {e : Entry}
    (he : s.history.current n = some e) (hloaded : LoadedFrom jobDef e job) :
    F.RemembersOwn s.history w job := by
  obtain ⟨-, hiter⟩ := current_mem he
  intro c hc hsame id t b ht hb _
  refine (holds_of_loaded hloaded).mpr ?_
  exact hkept.current he hc (hsame.trans (hloaded.iter.symm.trans hiter)) ⟨t, ht, hb⟩

theorem keepsBase_of_loaded {e : Entry} (he : e ∈ s.history) (hloaded : LoadedFrom jobDef e job) :
    F.KeepsBase s.history job :=
  ⟨e, he, hloaded.iter, hloaded.version, fun _ _ h => (holds_of_loaded hloaded).mpr h⟩

end Finding

/-- The worker's own entry is carried over a stored one only where it names the worker. -/
theorem isCarried_of_stored {saved : Job} {id : Uuid} {t stored : Task}
    (ht : job.task? id = some t) (hstored : saved.task? id = some stored)
    (hcarried : Job.isCarried saved.tasksById w t = true) : t.processingByWorker = some w := by
  have hid := Job.id_of_task? ht
  simp only [Job.isCarried, Job.isCreatedNow, Job.isProcessedNow, hid] at hcarried
  rw [show saved.tasksById.get id = some stored from hstored] at hcarried
  simpa using hcarried

/-- Carrying a copy over keeps what is stored as found, where the worker's own entries agree
with it. -/
theorem holds_carry {saved : Job} {id : Uuid} {b : β}
    (hagrees : ∀ t, job.task? id = some t → t.processingByWorker = some w → F.of t = some b)
    (hholds : F.Holds saved.tasksById id b) :
    F.Holds (saved.carryTasks job w).tasksById id b := by
  obtain ⟨stored, hstored, hb⟩ := hholds
  obtain ⟨t, ht⟩ := carry_of_saved job w hstored
  rcases carry_cases ht with ⟨hjob, hcarried⟩ | ⟨hsaved, -⟩
  · exact ⟨t, ht, hagrees t hjob (isCarried_of_stored hjob hstored hcarried)⟩
  · rw [show saved.task? id = some stored from hstored] at hsaved
    cases hsaved
    exact ⟨stored, ht, hb⟩

/-- What is stored of the worker's own tasks as found, its copy knows: the worker may write
such a task, or its start, only over what it knows. -/
theorem holds_of_owned {saved : Job} {taskId : Uuid} {stored : Task} {b : β}
    (hown : F.RemembersOwn s.history w job) (hsound : Sound stored) {e : Entry}
    (he : e ∈ s.history) (hloaded : LoadedFrom jobDef e saved)
    (hiter : saved.iterNum = job.iterNum) (hstored : saved.task? taskId = some stored)
    (howner : stored.processingByWorker = none ∨ stored.processingByWorker = some w)
    (hb : F.of stored = some b) : F.Holds job.tasksById taskId b := by
  have howned := howner.resolve_left (F.concluded hsound hb).owned
  exact hown e he (hloaded.iter.trans hiter) taskId stored.persisted b (hloaded.get hstored)
    ((F.persisted stored).trans hb) howned

namespace Finding

/-- A start repeated on top of the state that won. -/
theorem PhaseKnows.mergeStart {saved : Job} {taskId : Uuid} {stored workerTask : Task}
    {m : TaskMap} {first second : Nat}
    (hok : PhaseOk κ jobDef g s w (.merging job saved (.start taskId)))
    (hok' : PhaseOk κ jobDef g s w (.saving job' (.start taskId)))
    (hknows : F.PhaseKnows s.history w (.merging job saved (.start taskId)))
    (hstored : saved.task? taskId = some stored)
    (howner : stored.processingByWorker = none ∨ stored.processingByWorker = some w)
    (hworker : job.task? taskId = some workerTask) (hstarted : workerTask.status = .started)
    (hrun : DerivedRun κ w first second saved.tasksById m)
    (htasks : job'.tasksById = m.insert workerTask) (hframe : Frame saved job') :
    F.PhaseKnows s.history w (.saving job' (.start taskId)) := by
  obtain ⟨hcopy, -, -, hsaved, e, he, hloaded⟩ := hok
  obtain ⟨-, hjob, hown, -⟩ := hknows
  have hid : workerTask.id = taskId := Job.id_of_task? hworker
  have hiter : saved.iterNum = job.iterNum :=
    sameIteration hcopy.fits hsaved.fits hworker hstored
  have hopen : ¬ Concluded workerTask := by
    rintro ⟨hdone | ⟨cause, hdone⟩, -⟩ <;> simp [hstarted] at hdone
  have hkeeps : ∀ id b, F.Holds saved.tasksById id b → F.Holds job'.tasksById id b := by
    rintro id b ⟨t, ht, hb⟩
    rw [htasks]
    have hconcluded := F.concluded (hsaved.fits.sound id t ht) hb
    have hm : m.get id = some t := DerivedRun.keeps_done hrun ht hconcluded.done
    rcases get_insert_cases m workerTask id with ⟨heq, -⟩ | ⟨-, hother⟩
    · -- had the worker found anything of the task, its copy would not have it running
      rw [← heq, hid, show saved.tasksById.get taskId = some stored from hstored] at ht
      cases ht
      obtain ⟨t, ht, hb'⟩ := holds_of_owned (hjob rfl).own
        (hsaved.fits.sound taskId stored hstored) he hloaded hiter hstored howner hb
      rw [show job.tasksById.get taskId = some workerTask from hworker] at ht
      cases ht
      exact absurd (F.concluded (hcopy.fits.sound taskId workerTask hworker) hb') hopen
    · exact ⟨t, hother.trans hm, hb⟩
  refine ⟨?_, fun _ => ⟨?_, e, he, hloaded.iter.trans hframe.iterNum.symm,
    hloaded.version.trans hframe.version.symm,
    fun id b h => hkeeps id b ((holds_of_loaded hloaded).mpr h)⟩⟩
  · intro id t b ht hb _
    have hconcluded := F.concluded (hok'.1.fits.sound id t ht) hb
    have ht' : (m.insert workerTask).get id = some t := htasks ▸ ht
    rcases get_insert_cases m workerTask id with ⟨-, hself⟩ | ⟨-, hother⟩
    · rw [hself] at ht'
      cases ht'
      exact absurd hconcluded hopen
    · rcases LocalRun.concluded_origin hrun hsaved.fits.sound id t (hother ▸ ht') hconcluded with
        hbefore | ⟨⟨p, hp⟩, -⟩
      · exact ⟨e, he, hloaded.iter.trans hframe.iterNum.symm, t.persisted, hloaded.get hbefore,
          (F.persisted t).trans hb, rfl⟩
      · cases hp
  · intro c hc hsame id t b ht hb hself
    exact hkeeps id b (hown c hc (hsame.trans hframe.iterNum) id t b ht hb hself)

/-- A result repeated on top of the state that won, agreeing with what is stored. -/
theorem PhaseKnows.mergeResult {saved base : Job} {taskId : Uuid} {stored : Task} {now : Nat}
    (hok : PhaseOk κ jobDef g s w (.merging job saved (.result taskId)))
    (hok' : PhaseOk κ jobDef g s w (.saving job' (.result taskId)))
    (hknows : F.PhaseKnows s.history w (.merging job saved (.result taskId)))
    (hstored : saved.task? taskId = some stored)
    (howner : stored.processingByWorker = none ∨ stored.processingByWorker = some w)
    (htasks : base.tasksById = (saved.carryTasks job w).tasksById) (hframe : Frame saved base)
    (hfrom : Job.SettledFrom base w now job')
    (hagrees : ∀ id t stored b, id ≠ taskId → job.task? id = some t →
      t.processingByWorker = some w → saved.task? id = some stored →
      F.of stored = some b → F.of t = some b) :
    F.PhaseKnows s.history w (.saving job' (.result taskId)) := by
  obtain ⟨hcopy, -, ⟨-, t₀, ht₀⟩, hsaved, e, he, hloaded⟩ := hok
  obtain ⟨hjobStored, hjob, hown, -⟩ := hknows
  have hframe' : Frame saved job' := hframe.trans hfrom.frame
  have hrun : DerivedRun κ w now now (saved.carryTasks job w).tasksById job'.tasksById :=
    htasks ▸ hfrom.run.relax
  have hiter : saved.iterNum = job.iterNum := sameIteration hcopy.fits hsaved.fits ht₀ hstored
  have hsound : ∀ id t, (saved.carryTasks job w).tasksById.get id = some t → Sound t := by
    intro id t ht
    rcases carry_cases ht with ⟨hin, -⟩ | ⟨hin, -⟩
    · exact hcopy.fits.sound id t hin
    · exact hsaved.fits.sound id t hin
  have hkeeps : ∀ id b, F.Holds saved.tasksById id b → F.Holds job'.tasksById id b := by
    intro id b hholds
    refine SteadyRun.holds (LocalRun.steady (by simp) hrun) hsound (holds_carry ?_ hholds)
    obtain ⟨u, hu, hb⟩ := hholds
    intro t ht hself
    by_cases hid : id = taskId
    · subst hid
      rw [show saved.tasksById.get id = some stored from hstored] at hu
      cases hu
      obtain ⟨t', ht', hb'⟩ := holds_of_owned (hjob rfl).own (hsaved.fits.sound id stored hstored)
        he hloaded hiter hstored howner hb
      rw [show job.tasksById.get id = some t from ht] at ht'
      cases ht'
      exact hb'
    · exact hagrees id t u b hid ht hself hu hb
  refine ⟨?_, fun _ => ⟨?_, e, he, hloaded.iter.trans hframe'.iterNum.symm,
    hloaded.version.trans hframe'.version.symm,
    fun id b h => hkeeps id b ((holds_of_loaded hloaded).mpr h)⟩⟩
  · intro id t b ht hb hother
    have hconcluded := F.concluded (hok'.1.fits.sound id t ht) hb
    rcases LocalRun.concluded_origin hrun hsound id t ht hconcluded with hbefore | ⟨⟨p, hp⟩, -⟩
    · rcases carry_cases hbefore with ⟨hin, -⟩ | ⟨hin, -⟩
      · obtain ⟨c, hc, hsame, hholds⟩ := hjobStored id t b hin hb hother
        exact ⟨c, hc, hsame.trans (hiter.symm.trans hframe'.iterNum.symm), hholds⟩
      · exact ⟨e, he, hloaded.iter.trans hframe'.iterNum.symm, t.persisted, hloaded.get hin,
          (F.persisted t).trans hb, rfl⟩
    · cases hp
  · intro c hc hsame id t b ht hb hself
    exact hkeeps id b (hown c hc (hsame.trans hframe'.iterNum) id t b ht hb hself)

end Finding

end Copies

/-! ## Every action -/

section Actions

variable {F : Finding β} {jobDef : JobDefinition} {g : Pedigree} {s s' : System} {w : Uuid}
  {job : Job} {purpose : Purpose} {version : String}

namespace Finding

/-- A freshly planned iteration found nothing. -/
theorem stored_of_planned {ids : List Uuid} (h : History) (ahead : Bool)
    (hplanned : job.Planned jobDef w ids) : F.Stored h w ahead job := by
  intro id t b ht hb
  obtain ⟨p, taskDef, resolved, -, -, -, hnew⟩ := hplanned.planned id t ht
  rw [hnew] at hb
  exact absurd rfl (F.concluded (sound_new _ _ _ _ _) hb).owned

/-- A phase that may be ahead of the store knows as much of an action that resolves. -/
theorem PhaseKnows.run {h : History} {job job' : Job} {ahead : Bool} (ahead' : Bool)
    {touches : Touch → Prop} {lo hi : Nat} (hstored : F.Stored h w ahead job)
    (hrecalls : F.Recalls h w job)
    (hrun : SteadyRun κ w touches lo hi job.tasksById job'.tasksById) (hframe : Frame job job')
    (hsound : ∀ id t, job.task? id = some t → Sound t)
    (hsound' : ∀ id t, job'.task? id = some t → Sound t) (hle : ahead = true → ahead' = true)
    (hresolves : (∃ p, touches (.resolved p)) → ahead' = true) :
    F.Stored h w ahead' job' ∧ F.Recalls h w job' :=
  ⟨hstored.run hrun.toLocal hframe hsound hsound' hle hresolves,
    hrecalls.carry hframe fun _ _ => SteadyRun.holds hrun hsound⟩

end Finding

/-- Every move keeps what its worker knows, merges that disagree with what is stored
aside. -/
theorem FindingInv.moves (hdef : jobDef.WellFormed) (hinv : Inv κ jobDef g s) (hcalm : Calm s)
    (hfound : FindingInv F s) {p p' : Phase} {action : WorkerAction} {ids : List Uuid}
    (hphase : (s.workers w).phase = p) (hagrees : F.AgreesOn s (.move w action))
    (hmoves : Moves κ jobDef s w p action p' ids) : F.PhaseKnows s.history w p' := by
  have hok := hinv.workers w
  have hknows := hfound.workers w
  have hunder := hcalm.workers w
  have hok' : ∀ {p'' : Phase}, p' = p'' → ∃ g', PhaseOk κ jobDef g' (s.enter w p'' ids) w p'' := by
    rintro p'' rfl
    obtain ⟨g', -, -, h⟩ := movesOk hdef hinv (hphase ▸ hmoves) hok
    exact ⟨g', h⟩
  rw [hphase] at hok hknows hunder
  cases hmoves with
  | idle => trivial
  | missing _ => trivial
  | read hread hserves =>
      obtain ⟨hcurrent, hmem, -, hloaded, -⟩ := read_loaded (w := w) hinv hread hserves
      exact ⟨Finding.stored_of_loaded hmem hloaded,
        Finding.remembersOwn_of_loaded hfound.kept hcurrent hloaded,
        Finding.keepsBase_of_loaded hmem hloaded⟩
  | create _ _ hplanned _ =>
      exact ⟨Finding.stored_of_planned s.history _ hplanned, fun h => by cases h⟩
  | advance _ _ _ _ _ hplanned _ =>
      exact ⟨Finding.stored_of_planned s.history _ hplanned, fun h => by cases h⟩
  | @start job job' m t t' moments now _ hrun _ ht hstart htasks hframe _ =>
      have hpickup := localRun_of_start hrun ht hstart htasks
      obtain ⟨g', hstarted⟩ := hok' rfl
      obtain ⟨hstored, hrecalls⟩ := Finding.PhaseKnows.run false hknows.1 hknows.2
        (LocalRun.steady (by simp [Touch.IsPickup]) hpickup) hframe hok.1.fits.sound
        hstarted.1.fits.sound (fun h => h) (by simp [Touch.IsPickup])
      exact ⟨hstored, fun _ => hrecalls⟩
  | @settle job job' _ _ _ _ hrun _ hframe _ _ _ _ =>
      obtain ⟨g', hsettled⟩ := hok' rfl
      obtain ⟨hstored, hrecalls⟩ := Finding.PhaseKnows.run false hknows.1 hknows.2
        (LocalRun.steady (by simp) hrun) hframe hok.1.fits.sound hsettled.1.fits.sound
        (fun h => h) (by simp)
      exact ⟨hstored, fun _ => hrecalls⟩
  | refused => exact hknows
  | @reread job saved purpose n kept e hread hserves =>
      obtain ⟨hcurrent, -, hn, hloaded, -⟩ := read_loaded (w := w) hinv hread hserves
      refine ⟨hknows.1, hknows.2, Finding.remembersOwn_of_loaded hfound.kept hcurrent hloaded, ?_⟩
      intro hiter id t b ht hb hother
      obtain ⟨c, hc, hsame, t', ht', hb', -⟩ := hknows.1 id t b ht hb hother
      refine (holds_of_loaded hloaded).mpr (hfound.kept.current hcurrent hc ?_ ⟨t', ht', hb'⟩)
      rw [hsame, ← hiter, ← hloaded.iter, hn]
  | adopt _ =>
      obtain ⟨-, -, -, -, e, he, hloaded⟩ := hok
      exact ⟨Finding.stored_of_loaded he hloaded, hknows.2.2.1,
        Finding.keepsBase_of_loaded he hloaded⟩
  | mergeStart _ _ hstored howner hworker hstarted hallows hrun _ _ htasks hframe hstatus _ =>
      exact Finding.PhaseKnows.mergeStart hok
        (mergeStartOk hok hstored hworker hallows hrun htasks hframe hstatus) hknows hstored howner
        hworker hstarted hrun htasks hframe
  | mergeResult _ _ hopen hstored howner htasks hframe hrunning hfrom haccepts =>
      rw [Finding.AgreesOn, hphase] at hagrees
      exact Finding.PhaseKnows.mergeResult hok
        (mergeResultOk hok hopen hstored htasks hframe hrunning hfrom) hknows hstored howner
        htasks hframe hfrom (hagrees haccepts)
  | @call job job' taskId now call _ _ hfresh hserve =>
      obtain ⟨e, -, -, -, hworks⟩ := hunder
      obtain ⟨g', hcalled⟩ := hok' rfl
      exact Finding.PhaseKnows.run true hknows.1 hknows.2
        (hworks.serve (hok.1.lacks_fresh hfresh) hserve).2 (call_worked hok.1 hfresh hserve).frame
        hok.1.fits.sound hcalled.1.fits.sound (fun _ => rfl) (fun _ => rfl)
  | callRefused => exact hknows
  | @finish job job₁ job' taskId _ _ _ _ _ _ _ hresult hworked hfrom =>
      obtain ⟨e, -, -, -, hworks⟩ := hunder
      have hfits₁ : Fits g s.minted job.iterNum job₁.tasksById :=
        LocalRun.fits hworked.run (by simp) hok.1.fits
      obtain ⟨hstored₁, hrecalls₁⟩ := Finding.PhaseKnows.run true hknows.1 hknows.2
        (hworks.run (fun _ htouch => ⟨taskId, htouch⟩) hworked.run).2 hworked.frame
        hok.1.fits.sound hfits₁.sound (fun _ => rfl) (fun _ => rfl)
      obtain ⟨hstored, hrecalls⟩ := Finding.PhaseKnows.run true hstored₁ hrecalls₁
        (LocalRun.steady (by simp) hfrom.run) hfrom.frame hfits₁.sound
        (DerivedRun.fits hfrom.run hfits₁).sound (fun _ => rfl) (fun _ => rfl)
      exact ⟨hstored, fun _ => hrecalls⟩

namespace Finding

/-- What a worker knows of its own survives a write of another worker. -/
theorem RemembersOwn.put {w' : Uuid} {job' : Job} {ahead : Bool}
    (hstored : F.Stored s.history w ahead job) (hne : w' ≠ w)
    (hown : F.RemembersOwn s.history w' job') (now : Nat) :
    F.RemembersOwn (.ofJob job version w purpose now :: s.history) w' job' := by
  intro c hc hiter id t b ht hb howner
  rcases List.mem_cons.mp hc with rfl | hc
  · obtain ⟨t₀, ht₀, rfl⟩ := get_ofJob_eq_some ht
    have hother : t₀.processingByWorker ≠ some w := by
      rw [show t₀.processingByWorker = some w' from howner]
      simpa using hne
    obtain ⟨c, hc, hiter', t', ht', hb', howner'⟩ :=
      hstored id t₀ b ht₀ ((F.persisted t₀).symm.trans hb) fun _ => hother
    exact hown c hc (hiter'.trans hiter) id t' b ht' hb' (howner'.trans howner)
  · exact hown c hc hiter id t b ht hb howner

/-- And one of its own, of the copy it holds. -/
theorem RemembersOwn.put_self (hown : F.RemembersOwn s.history w job) (now : Nat)
    (version' : String) :
    F.RemembersOwn (.ofJob job version w purpose now :: s.history) w
      (job.updateVersion version') := by
  intro c hc hiter id t b ht hb howner
  rcases List.mem_cons.mp hc with rfl | hc
  · obtain ⟨t₀, ht₀, rfl⟩ := get_ofJob_eq_some ht
    exact ⟨t₀, ht₀, (F.persisted t₀).symm.trans hb⟩
  · exact hown c hc hiter id t b ht hb howner

/-- What holds of another worker survives a write. -/
theorem PhaseKnows.put {w' : Uuid} {p : Phase} {ahead : Bool}
    (hstored : F.Stored s.history w ahead job) (hne : w' ≠ w) (now : Nat)
    (h : F.PhaseKnows s.history w' p) :
    F.PhaseKnows (.ofJob job version w purpose now :: s.history) w' p := by
  have hsub : ∀ e ∈ s.history, e ∈ Entry.ofJob job version w purpose now :: s.history :=
    fun e he => List.mem_cons_of_mem _ he
  have hrecalls : ∀ {job' : Job}, F.Recalls s.history w' job' →
      F.Recalls (.ofJob job version w purpose now :: s.history) w' job' := fun h =>
    ⟨h.own.put hstored hne now, h.base.mono hsub⟩
  cases p with
  | idle => trivial
  | missing => trivial
  | loaded job' => exact ⟨h.1.mono hsub, hrecalls h.2⟩
  | executing job' taskId => exact ⟨h.1.mono hsub, hrecalls h.2⟩
  | saving job' purpose' => exact ⟨h.1.mono hsub, fun hc => hrecalls (h.2 hc)⟩
  | conflicted job' purpose' => exact ⟨h.1.mono hsub, fun hc => hrecalls (h.2 hc)⟩
  | merging job' saved purpose' =>
      exact ⟨h.1.mono hsub, fun hc => hrecalls (h.2.1 hc), h.2.2.1.put hstored hne now, h.2.2.2⟩

/-- Where an accepted write leaves its own worker. -/
theorem PhaseKnows.afterPut (hinv : Inv κ jobDef g s)
    (hphase : (s.workers w).phase = .saving job purpose)
    (haccepts : s.history.accepts job = true)
    (hknows : F.PhaseKnows s.history w (.saving job purpose)) (delivered : Bool) :
    F.PhaseKnows (.ofJob job version w purpose s.clock :: s.history) w
      (afterPut job purpose version delivered) := by
  obtain ⟨hstored, hrest⟩ := hknows
  have hok := hinv.workers w
  rw [hphase] at hok
  obtain ⟨-, -, hbasis⟩ := hok
  have hsub : ∀ e ∈ s.history, e ∈ Entry.ofJob job version w purpose s.clock :: s.history :=
    fun e he => List.mem_cons_of_mem _ he
  have hown : F.RemembersOwn s.history w job := by
    cases hcreation : purpose.isCreation with
    | false => exact (hrest hcreation).own
    | true =>
        -- a creation is accepted only where the store has no version of the iteration
        intro c hc hiter
        obtain ⟨c', hc'⟩ := current_of_mem hc
        rw [hiter] at hc'
        exact absurd (hbasis.version_of_isCreation hcreation) (accepts_current haccepts hc').1
  have hcopy : ∀ ahead, F.Stored (.ofJob job version w purpose s.clock :: s.history) w ahead
      (job.updateVersion version) ∧
      F.Recalls (.ofJob job version w purpose s.clock :: s.history) w
        (job.updateVersion version) := by
    intro ahead
    refine ⟨?_, hown.put_self s.clock version, _, List.mem_cons_self .., rfl, rfl, ?_⟩
    · intro id t b ht hb _
      refine ⟨_, List.mem_cons_self .., rfl, t.persisted, ?_, (F.persisted t).trans hb, rfl⟩
      rw [get_ofJob, show job.task? id = some t from ht]
      rfl
    · rintro id b ⟨t, ht, hb⟩
      obtain ⟨t₀, ht₀, rfl⟩ := get_ofJob_eq_some ht
      exact ⟨t₀, ht₀, (F.persisted t₀).symm.trans hb⟩
  cases delivered with
  | false =>
      exact ⟨hstored.mono hsub,
        fun hc => ⟨hown.put_self s.clock job.version, (hrest hc).base.mono hsub⟩⟩
  | true =>
      cases purpose with
      | create => exact hcopy false
      | nextIteration readyAt => exact hcopy false
      | start taskId => exact hcopy true
      | result taskId => trivial
      | settle => trivial

/-- An accepted write keeps whatever was found so far. -/
theorem Keeps.put (hinv : Inv κ jobDef g s) (hkept : F.Keeps s.history)
    (hbasis : SavingBasis κ jobDef s w job purpose) (haccepts : s.history.accepts job = true)
    (hknows : F.PhaseKnows s.history w (.saving job purpose)) :
    F.Keeps (.ofJob job version w purpose s.clock :: s.history) := by
  refine List.Pairwise.cons ?_ hkept
  intro earlier hmem hiter id b hholds
  have hiter' : earlier.iterNum = job.iterNum := hiter.symm
  obtain ⟨c, hc⟩ := current_of_mem hmem
  rw [hiter'] at hc
  obtain ⟨hversion, hcversion⟩ := accepts_current haccepts hc
  obtain ⟨hcmem, hciter⟩ := current_mem hc
  have hcreation : purpose.isCreation = false := by
    by_contra h
    exact hversion (hbasis.version_of_isCreation (by simpa using h))
  -- the copy rests on the current version, which holds what any earlier one found
  obtain ⟨e, he, heiter, heversion, hkeeps⟩ := (hknows.2 hcreation).base
  have hstate : e.state = c.state := hinv.versions e he c hcmem (heiter.trans hciter.symm)
    (heversion.trans hcversion.symm)
  have hcholds := hkept.current hc hmem hiter' hholds
  have heholds : F.Holds e.tasks id b := by
    unfold Entry.tasks at hcholds ⊢
    rwa [hstate]
  obtain ⟨t, ht, hb⟩ := hkeeps id b heholds
  exact ⟨t.persisted, by rw [get_ofJob, show job.task? id = some t from ht]; rfl,
    (F.persisted t).trans hb⟩

end Finding

/-- The invariant survives every action that agrees with what is stored. -/
theorem FindingInv.step (hdef : jobDef.WellFormed) (hinv : Inv κ jobDef g s) (hcalm : Calm s)
    (hfound : FindingInv F s) {a : Action} (hagrees : F.AgreesOn s a)
    (h : step κ jobDef s a = some s') : FindingInv F s' := by
  rcases step_cases h with ⟨elapsed, rfl, rfl⟩ | ⟨w, action, phase, ids, rfl, hmoves, rfl⟩ |
    ⟨w, version, delivered, job, purpose, rfl, hphase, haccepts, hissue, rfl⟩
  · exact ⟨hfound.kept, hfound.workers⟩
  · refine ⟨hfound.kept, ?_⟩
    intro w'
    by_cases hw : w' = w
    · subst hw
      rw [System.enter_self]
      exact hfound.moves hdef hinv hcalm rfl hagrees hmoves
    · rw [System.enter_of_ne _ _ _ _ hw]
      exact hfound.workers w'
  · have hok := hinv.workers w
    have hknows := hfound.workers w
    rw [hphase] at hok hknows
    refine ⟨hfound.kept.put hinv hok.2.2 haccepts hknows, ?_⟩
    intro w'
    by_cases hw : w' = w
    · subst hw
      rw [System.commit_self]
      exact Finding.PhaseKnows.afterPut hinv hphase haccepts hknows delivered
    · rw [System.commit_of_ne _ _ _ _ hw]
      exact (hfound.workers w').put hknows.1 hw s.clock

end Actions

/-! ## Conclusions -/

/-- That a task was executed and is done. -/
def conclusions : Finding Unit where
  of t := if t.isConcluded then some () else none
  concluded _ h := by
    split at h <;> rename_i hconcluded
    · exact Task.isConcluded_eq_true.mp hconcluded
    · cases h
  persisted _ := rfl

theorem conclusions_of {t : Task} (h : Concluded t) : conclusions.of t = some () :=
  if_pos (Task.isConcluded_eq_true.mpr h)

theorem isConcluded_of_conclusions {t : Task} (h : conclusions.of t = some ()) :
    t.isConcluded = true := by
  by_contra hne
  have hnone : conclusions.of t = none := if_neg hne
  rw [hnone] at h
  cases h

/-- Whatever passes the checks of a merge is no other worker's. -/
theorem owner_of_stolen {saved : Job} {taskId w : Uuid}
    (h : (saved.checkTaskStolen taskId w).isOk = true) :
    ∃ stored, saved.task? taskId = some stored ∧
      (stored.processingByWorker = none ∨ stored.processingByWorker = some w) := by
  cases hstolen : saved.checkTaskStolen taskId w with
  | ok u => exact Job.checkTaskStolen_eq_ok.mp hstolen
  | error e =>
      rw [hstolen] at h
      cases h

theorem creatorsConcluded_eq_true {ids : List Uuid} {taken : Uuid → Option Task}
    (h : ∀ id t p, taken id = some t → t.createdByTask = some p →
      ∃ c, taken p = some c ∧ c.isConcluded = true) : creatorsConcluded ids taken = true := by
  rw [creatorsConcluded, List.all_eq_true]
  intro id _
  rw [Option.all_eq_true]
  intro t ht
  rw [Option.all_eq_true]
  intro p hp
  exact (Option.any_eq_true _ _).mpr (h id t p ht hp)

section Conclusions

variable {jobDef : JobDefinition} {g : Pedigree} {s : System} {w : Uuid} {job saved : Job}
  {taskId : Uuid}

/-- A merge of a start takes no creator back: the worker knows what it executed itself. -/
theorem creatorsConcluded_of_start
    (hok : PhaseOk κ jobDef g s w (.merging job saved (.start taskId)))
    (hcalm : CalmPhase s.history w (.merging job saved (.start taskId)))
    (hknows : conclusions.PhaseKnows s.history w (.merging job saved (.start taskId)))
    (haccepts : saved.acceptsStart job w taskId = true) :
    creatorsConcluded (saved.tasks.map Task.id) (saved.takesStart job taskId) = true := by
  obtain ⟨hcopy, -, ⟨-, -, workerTask, hworker, hstarted, -⟩, hsaved, e, he, hloaded⟩ := hok
  obtain ⟨hjob, hbase, -⟩ := hcalm
  obtain ⟨-, hrecalls, -, hcovers⟩ := hknows
  simp only [Job.acceptsStart, Bool.and_eq_true] at haccepts
  obtain ⟨stored, hstored, howner⟩ := owner_of_stolen haccepts.1.1.2
  have hiter : saved.iterNum = job.iterNum :=
    sameIteration hcopy.fits hsaved.fits hworker hstored
  have hopen : ¬ Concluded workerTask := by
    rintro ⟨hdone | ⟨cause, hdone⟩, -⟩ <;> simp [hstarted] at hdone
  refine creatorsConcluded_eq_true fun id t p ht hparent => ?_
  rw [Job.takesStart] at ht
  split at ht <;> rename_i hid
  · -- the entry of the started task: its creator is stored as done
    obtain ⟨c, hc, hconcluded⟩ := hjob.creators id t p (hid ▸ ht) hparent
    have hne : p ≠ taskId := by
      rintro rfl
      rw [show job.tasksById.get p = some workerTask from hworker] at hc
      cases hc
      exact hopen hconcluded
    obtain ⟨c', hc', hfound⟩ :=
      hcovers hiter p c () hc (conclusions_of hconcluded) (by simp [Purpose.isResult])
    exact ⟨c', by rwa [Job.takesStart, if_neg hne], isConcluded_of_conclusions hfound⟩
  · obtain ⟨c, hc, hconcluded⟩ := hbase.creators id t p ht hparent
    have hne : p ≠ taskId := by
      rintro rfl
      rw [show saved.tasksById.get p = some stored from hstored] at hc
      cases hc
      obtain ⟨t', ht', hfound⟩ := holds_of_owned (hrecalls rfl).own
        (hsaved.fits.sound p stored hstored) he hloaded hiter hstored howner
        (conclusions_of hconcluded)
      rw [show job.tasksById.get p = some workerTask from hworker] at ht'
      cases ht'
      exact hopen (conclusions.concluded (hcopy.fits.sound p workerTask hworker) hfound)
    exact ⟨c, by rwa [Job.takesStart, if_neg hne], Task.isConcluded_eq_true.mpr hconcluded⟩

/-- Nor does a merge of a result that agrees with the conclusions stored. -/
theorem creatorsConcluded_of_result
    (hok : PhaseOk κ jobDef g s w (.merging job saved (.result taskId)))
    (hcalm : CalmPhase s.history w (.merging job saved (.result taskId)))
    (hknows : conclusions.PhaseKnows s.history w (.merging job saved (.result taskId)))
    (haccepts : saved.acceptsResult job w taskId = true)
    (hagrees : ∀ id t stored b, id ≠ taskId → job.task? id = some t →
      t.processingByWorker = some w → saved.task? id = some stored →
      conclusions.of stored = some b → conclusions.of t = some b) :
    creatorsConcluded ((saved.tasks ++ job.tasks).map Task.id) (saved.takesResult job w) =
      true := by
  obtain ⟨hcopy, -, ⟨-, t₀, ht₀⟩, hsaved, e, he, hloaded⟩ := hok
  obtain ⟨hjob, hbase, -⟩ := hcalm
  obtain ⟨-, hrecalls, -, hcovers⟩ := hknows
  simp only [Job.acceptsResult, Bool.and_eq_true] at haccepts
  obtain ⟨stored, hstored, howner⟩ := owner_of_stolen haccepts.1.2
  have hiter : saved.iterNum = job.iterNum := sameIteration hcopy.fits hsaved.fits ht₀ hstored
  refine creatorsConcluded_eq_true fun id t p ht hparent => ?_
  rw [Job.takesResult] at ht
  rw [Job.takesResult]
  split at ht
  · -- a carried entry: its creator is carried with it, or stored as done
    obtain ⟨c, hc, hconcluded⟩ := hjob.creators id t p ht hparent
    split <;> rename_i hcarried
    · exact ⟨c, hc, Task.isConcluded_eq_true.mpr hconcluded⟩
    · have hother : c.processingByWorker ≠ some w := by
        intro hself
        refine hcarried ?_
        rw [Job.carries, show job.task? p = some c from hc, Option.any_some, Job.isCarried,
          Job.isProcessedNow, hself]
        simp
      obtain ⟨c', hc', hfound⟩ :=
        hcovers hiter p c () hc (conclusions_of hconcluded) fun _ => hother
      exact ⟨c', hc', isConcluded_of_conclusions hfound⟩
  · -- a stored entry: its creator stays as stored, or is done in the worker's copy too
    obtain ⟨c, hc, hconcluded⟩ := hbase.creators id t p ht hparent
    split <;> rename_i hcarried
    · rw [Job.carries, Option.any_eq_true] at hcarried
      obtain ⟨u, hu, hcarried⟩ := hcarried
      have hself := isCarried_of_stored hu hc hcarried
      refine ⟨u, hu, isConcluded_of_conclusions ?_⟩
      by_cases hp : p = taskId
      · subst hp
        rw [show saved.tasksById.get p = some stored from hstored] at hc
        cases hc
        obtain ⟨u', hu', hfound⟩ := holds_of_owned (hrecalls rfl).own
          (hsaved.fits.sound p stored hstored) he hloaded hiter hstored howner
          (conclusions_of hconcluded)
        rw [show job.tasksById.get p = some u from hu] at hu'
        cases hu'
        exact hfound
      · exact hagrees p u c () hp hu hself hc (conclusions_of hconcluded)
    · exact ⟨c, hc, Task.isConcluded_eq_true.mpr hconcluded⟩

/-- Along runs whose merges agree with the conclusions stored, every merge keeps the creators
done. -/
theorem FindingInv.keepsCreators (hinv : Inv κ jobDef g s) (hcalm : Calm s)
    (hfound : FindingInv conclusions s) {a : Action} (hagrees : conclusions.AgreesOn s a) :
    keepsCreators s a = true := by
  unfold JobManager.keepsCreators
  split
  · rename_i w first second
    have hok := hinv.workers w
    have hphase := hcalm.workers w
    have hknows := hfound.workers w
    rw [Finding.AgreesOn] at hagrees
    split <;> rename_i heq
    · rw [heq] at hok hphase hknows
      rw [Bool.or_eq_true, Bool.not_eq_true']
      refine or_iff_not_imp_left.mpr fun haccepts => ?_
      exact creatorsConcluded_of_start hok hphase hknows (by simpa using haccepts)
    · rw [heq] at hok hphase hknows hagrees
      rw [Bool.or_eq_true, Bool.not_eq_true']
      refine or_iff_not_imp_left.mpr fun haccepts => ?_
      have haccepts' := by simpa using haccepts
      exact creatorsConcluded_of_result hok hphase hknows haccepts' (hagrees haccepts')
    · rfl
  · rfl

end Conclusions

end JobManager
