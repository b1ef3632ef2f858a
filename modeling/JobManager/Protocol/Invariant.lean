import JobManager.Protocol.Structure

/-!
# The structural invariant holds throughout

Every move of a worker and every accepted write keeps the structural invariant,
under a pedigree that only grows as identifiers are minted.

Main results:

- Theorem {lit}`Inv.step`: the invariant survives every action.
- Theorem {lit}`reachable_inv`: it holds in every reachable state.
-/

namespace JobManager

variable {κ : Clocks}

section Moves

variable {jobDef : JobDefinition} {g g' : Pedigree} {s s' : System} {w : Uuid}

/-- A worker that enters a phase leaves a later state. -/
theorem later_enter (p : Phase) (ids : List Uuid) (hext : g.Extends g' s.minted) :
    Later g s g' (s.enter w p ids) :=
  ⟨Nat.le_refl _, fun _ hid => List.mem_append_right ids hid, fun _ he => he, hext⟩

/-- What the steps of an execution leave of its copy, but for whether it still fits. -/
theorem heldOk_of_worked (hlater : Later g s g' s') {job job' : Job} {touches : Touch → Prop}
    {now : Nat} (hheld : HeldOk jobDef g s w job) (htaken : ∀ id, ¬ touches (.taken id))
    (hworked : Worked w touches now job job')
    (hfits : Fits g' s'.minted job.iterNum job'.tasksById) : HeldOk jobDef g' s' w job' where
  fits := hworked.frame.iterNum ▸ hfits
  described := hheld.described.frame hworked.frame
  known := by
    intro id t ht
    rw [hworked.frame.iterNum]
    rcases LocalRun.origin hworked.run htaken id t ht with ⟨u, hu, hkin, howner⟩ | ⟨-, hown, hfree⟩
    · rcases (hheld.later hlater).known id u hu with hstored | ⟨hown, hfree⟩
      · exact Or.inl hstored
      · exact Or.inr ⟨hkin.createdByWorker.trans hown, howner.trans hfree⟩
    · exact Or.inr ⟨hown, hfree⟩

theorem BasedOn.frame {e : Entry} {job job' : Job} (h : BasedOn e job) (hframe : Frame job job') :
    BasedOn e job' :=
  ⟨h.iter.trans hframe.iterNum.symm, h.version.trans hframe.version.symm, h.isOpen⟩

/-- A call of the execution's handle leaves a copy that fits an extended pedigree. -/
theorem serve_fits {job job' : Job} {taskId : Uuid} {now : Nat} {call : HandleCall}
    {minted : List Uuid} (hranked : g.Ranked minted)
    (hfits : Fits g minted job.iterNum job.tasksById)
    (hfresh : areFresh minted call.minted = true) (hnew : ∀ id ∈ call.minted, job.task? id = none)
    (hserve : call.serve w taskId now job = (.ok (), job')) :
    ∃ g', g.Extends g' minted ∧ g'.Ranked (call.minted ++ minted) ∧
      Fits g' (call.minted ++ minted) job.iterNum job'.tasksById := by
  have hworked := HandleCall.serve_worked w taskId now hnew
  rw [hserve] at hworked
  -- a call that creates nothing needs no new pedigree
  have hplain : call.minted = [] → (∀ id p, ¬ call.touches taskId (.added id p)) →
      ∃ g', g.Extends g' minted ∧ g'.Ranked (call.minted ++ minted) ∧
        Fits g' (call.minted ++ minted) job.iterNum job'.tasksById := by
    intro hminted hnone
    rw [hminted, List.nil_append]
    exact ⟨g, Pedigree.Extends.refl g minted, hranked, LocalRun.fits hworked.run hnone hfits⟩
  cases call with
  | addTask taskDef mintedId =>
      obtain ⟨r, job₁, hadd, hpure⟩ := Mutation.bind_eq_ok.mp hserve
      cases hpure
      obtain ⟨-, hparent, -, resolved, hresolved, rfl⟩ := Job.addTask_eq_ok hadd
      have hdeps := (Job.resolveCreated_eq_ok hresolved).2
      have hlacks := hnew mintedId (by simp [HandleCall.minted])
      have hget := KeyedMap.get_insert_self job.tasksById
        (Task.new mintedId w (some taskId) taskDef resolved)
      have hstep : LocalStep w now job.tasksById (.added mintedId taskId)
          (job.tasksById.insert (Task.new mintedId w (some taskId) taskDef resolved)) :=
        .add hlacks hdeps
      obtain ⟨g', hext, hranked', hiter, hdepsOf, htolerance⟩ :=
        exists_pedigree_of_added hranked hfresh hfits hget hdeps
      refine ⟨g', hext, hranked', hstep.fits ?_ (hfits.mono hext (by simp_all))⟩
      intro id p t htouch ht
      cases htouch
      rw [show t = _ from Option.some.inj (ht.symm.trans hget)]
      refine ⟨by simp [HandleCall.minted], hiter, hdepsOf, htolerance, ?_⟩
      -- the execution's own task is on the copy, what it creates is not
      obtain ⟨own, hown⟩ := Job.exists_of_checkParent hparent
      rintro rfl
      rw [hown] at hlacks
      cases hlacks
  | completeTask id output => exact hplain rfl (by simp [HandleCall.touches])
  | failTask id errorMsg retry => exact hplain rfl (by simp [HandleCall.touches])
  | skipTaskBranch reason => exact hplain rfl (by simp [HandleCall.touches])
  | setNextStartAt nextStartAt => exact hplain rfl (by simp [HandleCall.touches])

/-- The identifiers a call mints are new to the copy. -/
theorem HeldOk.lacks_fresh {job : Job} {ids : List Uuid} (hheld : HeldOk jobDef g s w job)
    (hfresh : areFresh s.minted ids = true) : ∀ id ∈ ids, job.task? id = none := by
  intro id hid
  cases ht : job.task? id with
  | none => rfl
  | some t => exact absurd (hheld.fits.minted id t ht) (mem_of_areFresh hfresh hid)

/-- A call of the execution's handle is the steps its effect allows. -/
theorem call_worked {job job' : Job} {taskId : Uuid} {now : Nat} {call : HandleCall}
    (hheld : HeldOk jobDef g s w job) (hfresh : areFresh s.minted call.minted = true)
    (hserve : call.serve w taskId now job = (.ok (), job')) :
    Worked w (call.touches taskId) now job job' := by
  have hworked := HandleCall.serve_worked w taskId now (hheld.lacks_fresh hfresh)
  rwa [hserve] at hworked

theorem HandleCall.takes_nothing (call : HandleCall) (taskId id : Uuid) :
    ¬ call.touches taskId (.taken id) := by
  cases call <;> simp [HandleCall.touches]

/-- A call of the execution's handle. -/
theorem callOk (hinv : Inv κ jobDef g s) {job job' : Job} {taskId : Uuid} {now : Nat}
    {call : HandleCall} (hok : PhaseOk κ jobDef g s w (.executing job taskId))
    (hfresh : areFresh s.minted call.minted = true)
    (hserve : call.serve w taskId now job = (.ok (), job')) :
    ∃ g', g.Extends g' s.minted ∧ g'.Ranked (call.minted ++ s.minted) ∧
      PhaseOk κ jobDef g' (s.enter w (.executing job' taskId) call.minted) w
        (.executing job' taskId) := by
  obtain ⟨hheld, hstatus, e, he, hbased⟩ := hok
  have hworked := call_worked hheld hfresh hserve
  obtain ⟨g', hext, hranked, hfits⟩ :=
    serve_fits hinv.ranked hheld.fits hfresh (hheld.lacks_fresh hfresh) hserve
  exact ⟨g', hext, hranked,
    heldOk_of_worked (later_enter _ _ hext) hheld (call.takes_nothing taskId) hworked hfits,
    hworked.status.trans hstatus, e, he, hbased.frame hworked.frame⟩

/-- Recording an outcome and settling what follows from it. -/
theorem finishOk {job job₁ job' : Job} {taskId : Uuid} {outcome : ExecutorOutcome}
    {resolution : TaskResolution} {now settleAt : Nat}
    (hok : PhaseOk κ jobDef g s w (.executing job taskId))
    (hresult : applyExecutorOutcome w taskId outcome now job = (.ok resolution, job₁))
    (hworked : Worked w (· = .resolved taskId) now job job₁)
    (hfrom : Job.SettledFrom job₁ w settleAt job') :
    PhaseOk κ jobDef g s w (.saving job' (.result taskId)) := by
  obtain ⟨hheld, hstatus, e, he, hbased⟩ := hok
  have hlater : Later g s g s :=
    ⟨Nat.le_refl _, fun _ h => h, fun _ h => h, Pedigree.Extends.refl g s.minted⟩
  have hheld₁ := heldOk_of_worked hlater hheld (by simp) hworked
    (LocalRun.fits hworked.run (by simp) hheld.fits)
  obtain ⟨t, ht, -⟩ := applyExecutorOutcome_resolves (hheld.fits.parents taskId) hresult
  obtain ⟨t', ht', -⟩ := DerivedRun.forward hfrom.run taskId t ht
  refine ⟨⟨⟨?_, hheld₁.described.frame hfrom.frame, ?_⟩, taskId, t', ht'⟩,
    hfrom.closes (isProcessed_of_running (hworked.status.trans hstatus)),
    ⟨e, he, (hbased.frame hworked.frame).frame hfrom.frame⟩, t', ht'⟩
  · rw [hfrom.frame.iterNum]
    exact DerivedRun.fits hfrom.run hheld₁.fits
  · intro id u hu
    rw [hfrom.frame.iterNum]
    obtain ⟨u₁, hu₁, hkin, howner⟩ := LocalRun.backward hfrom.run (by simp) (by simp) id u hu
    rcases hheld₁.known id u₁ hu₁ with hstored | ⟨hown, hfree⟩
    · exact Or.inl hstored
    · exact Or.inr ⟨hkin.createdByWorker.trans hown, howner.trans hfree⟩

/-- Every move keeps what holds of its worker, under a pedigree that extends the one so
far. -/
theorem movesOk (hdef : jobDef.WellFormed) (hinv : Inv κ jobDef g s) {p p' : Phase}
    {action : WorkerAction} {ids : List Uuid} (hmoves : Moves κ jobDef s w p action p' ids)
    (hok : PhaseOk κ jobDef g s w p) :
    ∃ g', g.Extends g' s.minted ∧ g'.Ranked (ids ++ s.minted) ∧
      PhaseOk κ jobDef g' (s.enter w p' ids) w p' := by
  -- a move that mints nothing needs no new pedigree
  have hsame : ∀ {p' : Phase}, PhaseOk κ jobDef g s w p' →
      ∃ g', g.Extends g' s.minted ∧ g'.Ranked ([] ++ s.minted) ∧
        PhaseOk κ jobDef g' (s.enter w p' []) w p' := by
    intro p' h
    have hext := Pedigree.Extends.refl g s.minted
    exact ⟨g, hext, hinv.ranked, h.later (later_enter _ _ hext)⟩
  cases hmoves with
  | idle => exact hsame trivial
  | missing _ => exact hsame trivial
  | read hread hserves =>
      obtain ⟨-, hmem, -, hloaded, hcopy⟩ := read_loaded (w := w) hinv hread hserves
      exact hsame ⟨hcopy, _, hmem, hloaded⟩
  | create hfresh _ hplanned hiter =>
      obtain ⟨g', hext, hranked, hfits⟩ :=
        exists_pedigree_of_planned hdef hinv.ranked hfresh hplanned
      obtain ⟨hcopy, hcloses, hversion, hopen⟩ := planned_copy
        (s.enter w (.saving _ .create) ids) hdef hplanned hfits
      exact ⟨g', hext, hranked, hcopy, hcloses, hversion, hopen, hiter⟩
  | @advance job job' now _ _ _ hclock hfresh _ hready hplanned hiter =>
      obtain ⟨g', hext, hranked, hfits⟩ :=
        exists_pedigree_of_planned hdef hinv.ranked hfresh hplanned
      obtain ⟨-, e, he, hloaded⟩ := hok
      obtain ⟨hcopy, hcloses, hversion, hopen⟩ := planned_copy
        (s.enter w (.saving _ (.nextIteration now)) ids) hdef hplanned hfits
      have hclosed := (Job.findIterationStatus_eq_ready.mp hready).1
      refine ⟨g', hext, hranked, hcopy, hcloses, hversion, hopen, e, he, ?_,
        hloaded.isClosed.symm.trans hclosed, hclock,
        (hloaded.findIterationStatus now).symm.trans hready⟩
      rw [hiter, hloaded.iter]
  | start hopen hrun _ ht hstart htasks hframe hstatus =>
      exact hsame (startOk hok hopen hrun ht hstart htasks hframe hstatus)
  | settle hopen hrun _ hframe _ hat hmoving hresolved =>
      exact hsame (settleOk hok hopen hrun hframe hat hmoving hresolved)
  | refused => exact hsame hok
  | reread hread hserves =>
      obtain ⟨-, hmem, -, hloaded, hcopy⟩ := read_loaded (w := w) hinv hread hserves
      exact hsame ⟨hok.1, hok.2.1, hok.2.2, hcopy, _, hmem, hloaded⟩
  | adopt _ => exact hsame hok.2.2.2
  | mergeStart _ _ hstored _ hworker _ hallows hrun _ _ htasks hframe hstatus =>
      exact hsame (mergeStartOk hok hstored hworker hallows hrun htasks hframe hstatus)
  | mergeResult _ _ hopen hstored _ htasks hframe hrunning hfrom =>
      exact hsame (mergeResultOk hok hopen hstored htasks hframe hrunning hfrom)
  | call _ _ hfresh hserve => exact callOk hinv hok hfresh hserve
  | callRefused => exact hsame hok
  | finish _ _ _ hresult hworked hfrom => exact hsame (finishOk hok hresult hworked hfrom)

end Moves

/-! ## Writes -/

section Writes

variable {jobDef : JobDefinition} {g : Pedigree} {s : System} {w : Uuid} {job : Job}
  {purpose : Purpose} {version : String}

/-- An accepted write replaces the current version. -/
theorem accepts_current {h : History} {c : Entry} (haccepts : h.accepts job = true)
    (hc : h.current job.iterNum = some c) : job.version ≠ "" ∧ c.version = job.version := by
  unfold History.accepts at haccepts
  rw [hc] at haccepts
  simpa using haccepts

/-- And one where there is none creates it. -/
theorem accepts_absent {h : History} (haccepts : h.accepts job = true)
    (hc : h.current job.iterNum = none) : job.version = "" := by
  unfold History.accepts at haccepts
  rw [hc] at haccepts
  simpa using haccepts

theorem mayIssue_version {h : History} (hissue : h.mayIssue job version = true) :
    version ≠ "" ∧ ∀ e ∈ h, e.iterNum = job.iterNum → e.version = version →
      e.state = StoredJob.fromJob job := by
  unfold History.mayIssue at hissue
  rw [Bool.and_eq_true, List.all_eq_true] at hissue
  refine ⟨by simpa using hissue.1, ?_⟩
  intro e he hiter hversion
  simpa [hiter, hversion] using hissue.2 e he

theorem current_cons (e : Entry) (h : History) (n : Nat) :
    History.current (e :: h) n = if e.iterNum = n then some e else h.current n := by
  unfold History.current
  by_cases heq : e.iterNum = n <;> simp [heq]

theorem current_of_mem {h : History} {e : Entry} (he : e ∈ h) :
    ∃ c, h.current e.iterNum = some c := by
  cases hc : h.current e.iterNum with
  | some c => exact ⟨c, rfl⟩
  | none =>
      have hnone := List.find?_eq_none.mp hc e he
      simp at hnone

/-- A copy with a version to replace rests on a version of the store. -/
theorem SavingBasis.based (h : SavingBasis κ jobDef s w job purpose) (hversion : job.version ≠ "") :
    ∃ e ∈ s.history, BasedOn e job := by
  cases purpose with
  | create => exact absurd h.1 hversion
  | nextIteration readyAt => exact absurd h.1 hversion
  | start taskId => exact h.1
  | result taskId => exact h.1
  | settle => exact h

/-- An accepted write replaces the version its copy rests on. -/
theorem replaces_base (hinv : Inv κ jobDef g s) (hbasis : SavingBasis κ jobDef s w job purpose)
    (haccepts : s.history.accepts job = true) {c : Entry}
    (hc : s.history.current job.iterNum = some c) : BasedOn c job := by
  obtain ⟨hversion, hcversion⟩ := accepts_current haccepts hc
  obtain ⟨hmem, hciter⟩ := current_mem hc
  obtain ⟨e, he, hbased⟩ := hbasis.based hversion
  have hstate : e.state = c.state :=
    hinv.versions e he c hmem (hbased.iter.trans hciter.symm) (hbased.version.trans hcversion.symm)
  refine ⟨hciter, hcversion, ?_⟩
  have hopen := hbased.isOpen
  unfold Entry.isClosed at hopen ⊢
  rwa [← hstate]

/-- Where an acknowledged write leaves its worker. -/
theorem afterSaveOk {s' : System} (hlater : Later g s g s')
    (hmem : Entry.ofJob job version w purpose s.clock ∈ s'.history)
    (hok : PhaseOk κ jobDef g s w (.saving job purpose)) :
    PhaseOk κ jobDef g s' w (afterSave (job.updateVersion version) purpose) := by
  obtain ⟨hcopy, -, hbasis⟩ := hok
  have hcopy' : CopyOk jobDef g s' w (job.updateVersion version) :=
    ⟨⟨(hcopy.later hlater).fits, ⟨hcopy.described.maxIterations,
      hcopy.described.iterationInterval, hcopy.described.taskLimits⟩,
      (hcopy.later hlater).known⟩, hcopy.nonempty⟩
  have hloaded : LoadedFrom jobDef (.ofJob job version w purpose s.clock)
      (job.updateVersion version) := by
    change (StoredJob.fromJob job).intoJob job.maxIterations job.iterationInterval job.taskLimits
      version = (StoredJob.fromJob job).intoJob _ _ _ version
    rw [hcopy.described.maxIterations, hcopy.described.iterationInterval,
      hcopy.described.taskLimits]
  cases purpose with
  | create => exact ⟨hcopy', _, hmem, hloaded⟩
  | nextIteration readyAt => exact ⟨hcopy', _, hmem, hloaded⟩
  | start taskId =>
      obtain ⟨-, hrunning, -⟩ := hbasis
      refine ⟨hcopy'.toHeldOk, hrunning, _, hmem, rfl, rfl, ?_⟩
      rw [isClosed_ofJob]
      exact isProcessed_of_running hrunning
  | result taskId => trivial
  | settle => trivial

theorem later_commit (e : Entry) (p : Phase) : Later g s g (s.commit w e p) :=
  ⟨Nat.le_refl _, fun _ hid => hid, fun _ he => List.mem_cons_of_mem e he,
    Pedigree.Extends.refl g s.minted⟩

/-- An accepted write keeps the invariant. -/
theorem Inv.put (hinv : Inv κ jobDef g s) (hphase : (s.workers w).phase = .saving job purpose)
    (haccepts : s.history.accepts job = true) (hissue : s.history.mayIssue job version = true)
    (delivered : Bool) :
    Inv κ jobDef g (s.commit w (.ofJob job version w purpose s.clock)
      (afterPut job purpose version delivered)) := by
  have hok := hinv.workers w
  rw [hphase] at hok
  obtain ⟨hcopy, hcloses, hbasis⟩ := hok
  obtain ⟨hversion, hissued⟩ := mayIssue_version hissue
  have hentry := entryOk_ofJob w purpose s.clock hcopy.fits hcopy.described hcopy.nonempty hcloses
    hversion
  have hlater := later_commit (g := g) (s := s) (w := w)
    (.ofJob job version w purpose s.clock) (afterPut job purpose version delivered)
  constructor
  · exact hinv.ranked
  · intro e he
    rcases List.mem_cons.mp he with rfl | he
    · exact hentry
    · exact hinv.entries e he
  · intro e he e' he' hiter hsame
    rcases List.mem_cons.mp he with rfl | he <;> rcases List.mem_cons.mp he' with rfl | he'
    · rfl
    · exact (hissued e' he' hiter.symm hsame.symm).symm
    · exact hissued e he hiter hsame
    · exact hinv.versions e he e' he' hiter hsame
  · intro w'
    by_cases hw : w' = w
    · subst hw
      rw [System.commit_self]
      cases delivered with
      | true => exact afterSaveOk hlater (List.mem_cons_self ..) ⟨hcopy, hcloses, hbasis⟩
      | false => exact PhaseOk.later hlater (p := .saving job purpose) ⟨hcopy, hcloses, hbasis⟩
    · rw [System.commit_of_ne _ _ _ _ hw]
      exact (hinv.workers w').later hlater

end Writes

/-! ## Every action -/

section Actions

variable {jobDef : JobDefinition} {g : Pedigree} {s s' : System}

/-- The invariant survives every action, under a pedigree that extends the one so far. -/
theorem Inv.step (hdef : jobDef.WellFormed) (hinv : Inv κ jobDef g s) {a : Action}
    (h : step κ jobDef s a = some s') :
    ∃ g', g.Extends g' s.minted ∧ Inv κ jobDef g' s' := by
  rcases step_cases h with ⟨elapsed, rfl, rfl⟩ | ⟨w, action, phase, ids, rfl, hmoves, rfl⟩ |
    ⟨w, version, delivered, job, purpose, rfl, hphase, haccepts, hissue, rfl⟩
  · have hext := Pedigree.Extends.refl g s.minted
    have hlater : Later g s g { s with clock := s.clock + elapsed } :=
      ⟨Nat.le_add_right _ _, fun _ h => h, fun _ h => h, hext⟩
    exact ⟨g, hext, hinv.ranked, hinv.entries, hinv.versions,
      fun w => (hinv.workers w).later hlater⟩
  · obtain ⟨g', hext, hranked, hok⟩ := movesOk hdef hinv hmoves (hinv.workers w)
    have hlater := later_enter (w := w) phase ids hext
    refine ⟨g', hext, hranked, fun e he => (hinv.entries e he).later hlater, hinv.versions, ?_⟩
    intro w'
    by_cases hw : w' = w
    · subst hw
      rw [System.enter_self]
      exact hok
    · rw [System.enter_of_ne _ _ _ _ hw]
      exact (hinv.workers w').later hlater
  · exact ⟨g, Pedigree.Extends.refl g s.minted, hinv.put hphase haccepts hissue delivered⟩

/-- The invariant holds in every reachable state, under some pedigree. -/
theorem reachable_inv (hdef : jobDef.WellFormed)
    (h : Reachable (JobManager.step κ jobDef) System.init s) : ∃ g, Inv κ jobDef g s := by
  refine ReachableUnder.invariant (P := fun s => ∃ g, Inv κ jobDef g s)
    ⟨⟨fun _ => 0, fun _ => [], fun _ => ⟨false, false⟩, fun _ => 0⟩, inv_init κ jobDef _⟩ ?_ h
  rintro s a s' ⟨g, hinv⟩ - hstep
  obtain ⟨g', -, hinv'⟩ := hinv.step hdef hstep
  exact ⟨g', hinv'⟩

/-- The invariant rule for whatever every admitted action keeps as long as the structural
invariant holds. -/
theorem reachable_beside {admits : System → Action → Prop} {P : System → Prop}
    (hdef : jobDef.WellFormed) (hinit : P System.init)
    (hkeeps : ∀ {g s a s'}, Inv κ jobDef g s → P s → admits s a →
      JobManager.step κ jobDef s a = some s' → P s')
    (h : ReachableUnder (JobManager.step κ jobDef) admits System.init s) :
    (∃ g, Inv κ jobDef g s) ∧ P s := by
  refine ReachableUnder.invariant (P := fun s => (∃ g, Inv κ jobDef g s) ∧ P s)
    ⟨reachable_inv hdef .init, hinit⟩ ?_ h
  rintro s a s' ⟨⟨g, hinv⟩, hP⟩ hadmits hstep
  obtain ⟨g', -, hinv'⟩ := hinv.step hdef hstep
  exact ⟨⟨g', hinv'⟩, hkeeps hinv hP hadmits hstep⟩

end Actions

end JobManager
