import JobManager.Core.Local

/-!
# What an elementary step does to one entry

The elementary steps read entry by entry: an entry stays as it is, makes one of
seven moves, is rolled back with the execution that created it, or appears.  What
identifies a task and what it waits for never changes.

Main results:

- Theorem {lit}`LocalStep.get_some`: what can become of an entry in one step.
- Theorem {lit}`LocalStep.get_none`: the only way an entry appears.
- Theorem {lit}`LocalStep.dependenciesClosed`: a worker's own steps leave no
  dependency behind.
-/

namespace JobManager

variable {κ : Clocks}

/-- Two states of one task: everything an operation never assigns agrees. -/
structure Kin (t t' : Task) : Prop where
  id : t'.id = t.id
  dependsOn : t'.dependsOn = t.dependsOn
  tolerance : t'.tolerance = t.tolerance
  createdByWorker : t'.createdByWorker = t.createdByWorker
  createdByTask : t'.createdByTask = t.createdByTask
  maxAttempts : t'.maxAttempts = t.maxAttempts

theorem Kin.refl (t : Task) : Kin t t := ⟨rfl, rfl, rfl, rfl, rfl, rfl⟩

theorem Kin.trans {t t' t'' : Task} (h : Kin t t') (h' : Kin t' t'') : Kin t t'' :=
  ⟨h'.id.trans h.id, h'.dependsOn.trans h.dependsOn, h'.tolerance.trans h.tolerance,
    h'.createdByWorker.trans h.createdByWorker, h'.createdByTask.trans h.createdByTask,
    h'.maxAttempts.trans h.maxAttempts⟩

/-- The moves an entry can make at the hands of worker {lit}`w`. -/
inductive TaskMove (w : Uuid) (now : Nat) (t : Task) : Touch → Task → Prop
  | outlive : t.status = .started → t.isLifetimeExpiredAt now = true →
      TaskMove w now t .derived
        (t.failedWith (Job.describeOutlivedLifetime t) .whileBudgetLasts now)
  | putOut {reason : String} {cause : SkipCause} : t.status = .blocked →
      cause ≠ .executorDecision → TaskMove w now t .derived (t.skippedWith reason cause now)
  | release : t.status = .blocked → TaskMove w now t .derived { t with status := .todo }
  | start {t' : Task} : t.start w now = .ok t' → TaskMove w now t (.taken t.id) t'
  | complete {output : Bytes} :
      t.processingByWorker = none ∨ t.processingByWorker = some w → t.status = .started →
      t.isLifetimeExpiredAt now = false →
      TaskMove w now t (.resolved t.id) (t.completedWith output now)
  | fail {errorMsg : String} {retry : TaskRetry} :
      t.processingByWorker = none ∨ t.processingByWorker = some w → t.status = .started →
      TaskMove w now t (.resolved t.id) (t.failedWith errorMsg retry now)
  | skip {reason : String} :
      t.processingByWorker = none ∨ t.processingByWorker = some w →
      (t.status = .started ∧ t.isLifetimeExpiredAt now = false) ∨ t.status = .blocked →
      TaskMove w now t (.resolved t.id) (t.skippedWith reason .executorDecision now)

/-- A move changes nothing a task was created with. -/
theorem TaskMove.kin {w : Uuid} {now : Nat} {t t' : Task} {touch : Touch}
    (h : TaskMove w now t touch t') : Kin t t' := by
  cases h with
  | start hstart =>
      obtain ⟨-, _, _, -, -, rfl⟩ := Task.start_eq_ok hstart
      exact ⟨rfl, rfl, rfl, rfl, rfl, rfl⟩
  | _ => exact ⟨rfl, rfl, rfl, rfl, rfl, rfl⟩

/-- Nor how it judges a dependency. -/
theorem judgeDependency_of_kin {t t' : Task} (hkin : Kin t t') (dep : Task) (now : Nat) :
    t'.judgeDependency dep now = t.judgeDependency dep now := by
  unfold Task.judgeDependency
  rw [hkin.tolerance]

/-- No verdict answers for an executor. -/
theorem cause_ne_executorDecision {t dep : Task} {now : Nat} {cause : SkipCause}
    (h : t.judgeDependency dep now = .skipped cause) : cause ≠ .executorDecision := by
  rw [Task.judgeDependency_eq_skipped] at h
  rcases h with ⟨-, -, rfl⟩ | ⟨-, c, -, rfl⟩
  · simp
  · cases c <;> simp [SkipCause.carriesFailure]

/-- An entry after the map took a task in. -/
theorem get_insert_cases (m : TaskMap) (t : Task) (id : Uuid) :
    (t.id = id ∧ (m.insert t).get id = some t) ∨
      (t.id ≠ id ∧ (m.insert t).get id = m.get id) := by
  by_cases h : t.id = id
  · left
    subst h
    exact ⟨rfl, KeyedMap.get_insert_self m t⟩
  · exact Or.inr ⟨h, KeyedMap.get_insert_of_ne m h⟩

/-- What one step leaves of an entry: itself, a move of it, or nothing where the
execution that created it failed. -/
theorem LocalStep.get_some {w : Uuid} {now : Nat} {m m' : TaskMap} {touch : Touch}
    (h : LocalStep w now m touch m') {id : Uuid} {t : Task} (ht : m.get id = some t) :
    m'.get id = some t ∨ (∃ t', TaskMove w now t touch t' ∧ m'.get id = some t') ∨
      (∃ parent, touch = .resolved parent ∧ t.createdByTask = some parent ∧
        m'.get id = none ∧
        (∀ id' t', m'.get id' = some t' → t'.createdByTask ≠ some parent) ∧
        ∃ c, m.get parent = some c ∧ c.status = .started) := by
  -- every step but the rollback replaces one entry by a move of it
  have hreplace : ∀ {u u' : Task}, m.get u.id = some u → TaskMove w now u touch u' →
      (m.insert u').get id = some t ∨
        ∃ t', TaskMove w now t touch t' ∧ (m.insert u').get id = some t' := by
    intro u u' hu hmove
    rcases get_insert_cases m u' id with ⟨hid, hget⟩ | ⟨-, hget⟩
    · right
      rw [← hid, hmove.kin.id, hu] at ht
      cases ht
      exact ⟨u', hmove, hget⟩
    · exact Or.inl (hget.trans ht)
  cases h with
  | outlive hu hs hl => exact (hreplace hu (.outlive hs hl)).imp_right Or.inl
  | putOut hu hb _ _ hjudge =>
      exact (hreplace hu (.putOut hb (cause_ne_executorDecision hjudge))).imp_right Or.inl
  | release hu hb _ => exact (hreplace hu (.release hb)).imp_right Or.inl
  | start hu hstart => exact (hreplace hu (.start hstart)).imp_right Or.inl
  | complete hu ho hs hl => exact (hreplace hu (.complete ho hs hl)).imp_right Or.inl
  | skip hu ho hs => exact (hreplace hu (.skip ho hs)).imp_right Or.inl
  | add hfresh _ =>
      left
      rw [KeyedMap.get_insert_of_ne m, ht]
      intro hid
      subst hid
      exact absurd (hfresh.symm.trans ht) (by simp)
  | @fail u errorMsg retry hu ho hs =>
      have hmove := hreplace hu (@TaskMove.fail w now u errorMsg retry ho hs)
      have hcreated : ∀ t', (m.insert (u.failedWith errorMsg retry now)).get id = some t' →
          t'.createdByTask = t.createdByTask := by
        intro t' ht'
        rcases hmove with h' | ⟨t'', hmove', h'⟩
        · rw [h'] at ht'
          cases ht'
          rfl
        · rw [h'] at ht'
          cases ht'
          exact hmove'.kin.createdByTask
      rw [KeyedMap.get_filter]
      by_cases hparent : t.createdByTask = some u.id
      · right; right
        refine ⟨u.id, rfl, hparent, ?_, ?_, u, hu, hs⟩
        · cases hget : (m.insert (u.failedWith errorMsg retry now)).get id with
          | none => rfl
          | some t' => simp [Option.filter, hcreated t' hget, hparent]
        · intro id' t' ht'
          rw [KeyedMap.get_filter, Option.filter_eq_some_iff] at ht'
          simpa using ht'.2
      · rcases hmove with h' | ⟨t', hmove', h'⟩
        · left
          simp [h', Option.filter, hparent]
        · right; left
          refine ⟨t', hmove', ?_⟩
          simp [h', Option.filter, hcreated t' h', hparent]

/-- An entry appears only by being created. -/
theorem LocalStep.get_none {w : Uuid} {now : Nat} {m m' : TaskMap} {touch : Touch}
    (h : LocalStep w now m touch m') {id : Uuid} (ht : m.get id = none) :
    m'.get id = none ∨ ∃ parent taskDef resolved, touch = .added id parent ∧
      (∀ d ∈ resolved, ∃ dep, m.get d = some dep) ∧
      m'.get id = some (Task.new id w (some parent) taskDef resolved) := by
  have hreplace : ∀ {u u' : Task}, m.get u.id = some u → u'.id = u.id →
      (m.insert u').get id = none := by
    intro u u' hu hid
    rcases get_insert_cases m u' id with ⟨hid', -⟩ | ⟨-, hget⟩
    · rw [← hid', hid, hu] at ht
      cases ht
    · exact hget.trans ht
  cases h with
  | outlive hu _ _ => exact Or.inl (hreplace hu rfl)
  | putOut hu _ _ _ _ => exact Or.inl (hreplace hu rfl)
  | release hu _ _ => exact Or.inl (hreplace hu rfl)
  | start hu hstart =>
      exact Or.inl (hreplace hu (TaskMove.start (w := w) hstart).kin.id)
  | complete hu _ _ _ => exact Or.inl (hreplace hu rfl)
  | skip hu _ _ => exact Or.inl (hreplace hu rfl)
  | fail hu _ _ =>
      left
      rw [KeyedMap.get_filter, Option.filter_eq_none_iff]
      intro t ht'
      exact absurd (ht'.symm.trans (hreplace hu rfl)) (by simp)
  | @add taskId parent taskDef resolved hfresh hdeps =>
      rcases get_insert_cases m (Task.new taskId w (some parent) taskDef resolved) id with
        ⟨hid, hget⟩ | ⟨-, hget⟩
      · right
        have hid' : taskId = id := hid
        subst hid'
        exact ⟨parent, taskDef, resolved, rfl, hdeps, hget⟩
      · exact Or.inl (hget.trans ht)

/-! ## The dependency graph under a worker's own steps -/

/-- Every dependency names a task of the same map. -/
def DependenciesClosed (m : TaskMap) : Prop :=
  ∀ id t, m.get id = some t → ∀ d ∈ t.dependsOn, ∃ dep, m.get d = some dep

/-- Every task waits for what {lit}`deps` assigns to its identifier. -/
def DependenciesAre (deps : Uuid → List Uuid) (m : TaskMap) : Prop :=
  ∀ id t, m.get id = some t → t.dependsOn = deps id

/-- What waits for a creation of {lit}`parent`'s execution is itself one, so rolling
that execution back leaves no dependency behind. -/
def RollbackSafe (parent : Uuid) (m : TaskMap) : Prop :=
  ∀ id t d dep, m.get id = some t → d ∈ t.dependsOn → m.get d = some dep →
    dep.createdByTask = some parent → t.createdByTask = some parent

/-- An entry of the map a step leaves has a predecessor it is kin to, or was created by
the step. -/
theorem LocalStep.predecessor {w : Uuid} {now : Nat} {m m' : TaskMap} {touch : Touch}
    (h : LocalStep w now m touch m') {id : Uuid} {t' : Task} (ht' : m'.get id = some t') :
    (∃ t, m.get id = some t ∧ (t' = t ∨ TaskMove w now t touch t')) ∨
      ∃ parent taskDef resolved, touch = .added id parent ∧ m.get id = none ∧
        (∀ d ∈ resolved, ∃ dep, m.get d = some dep) ∧
        t' = Task.new id w (some parent) taskDef resolved := by
  cases ht : m.get id with
  | some t =>
      left
      refine ⟨t, rfl, ?_⟩
      rcases h.get_some ht with hget | ⟨t'', hmove, hget⟩ | ⟨_, _, _, hget, _⟩
      · rw [ht'] at hget
        cases hget
        exact Or.inl rfl
      · rw [ht'] at hget
        cases hget
        exact Or.inr hmove
      · rw [ht'] at hget
        cases hget
  | none =>
      right
      rcases h.get_none ht with hget | ⟨parent, taskDef, resolved, htouch, hdeps, hget⟩
      · rw [ht'] at hget
        cases hget
      · rw [ht'] at hget
        cases hget
        exact ⟨parent, taskDef, resolved, htouch, rfl, hdeps, rfl⟩

/-- A blocked task stays so until it is satisfied, put out on account of a dependency, or
skipped by decision. -/
theorem LocalStep.leaves_blocked {w : Uuid} {now : Nat} {m m' : TaskMap} {touch : Touch}
    (h : LocalStep w now m touch m') {id : Uuid} {t t' : Task} (ht : m.get id = some t)
    (hblocked : t.status = .blocked) (ht' : m'.get id = some t') :
    t' = t ∨ (t'.status = .todo ∧ Satisfied m t now) ∨
      ∃ reason cause, t' = t.skippedWith reason cause now ∧
        (cause = .executorDecision ∨ UnreachableFor m t now cause) := by
  -- the step writes one task, and leaves every other one as it was
  have hwritten : ∀ {u u' : Task}, (m.insert u').get id = some t' → m.get u.id = some u →
      u'.id = u.id → t' = t ∨ (u = t ∧ t' = u') := by
    intro u u' hget hu hid
    rcases get_insert_cases m u' id with ⟨hid', hself⟩ | ⟨-, hother⟩
    · right
      rw [hself] at hget
      cases hget
      rw [← hid, hid', ht] at hu
      cases hu
      exact ⟨rfl, rfl⟩
    · left
      rw [hother, ht] at hget
      cases hget
      rfl
  cases h with
  | release hu _ hsat =>
      rcases hwritten ht' hu rfl with rfl | ⟨rfl, rfl⟩
      · exact Or.inl rfl
      · exact Or.inr (Or.inl ⟨rfl, hsat⟩)
  | putOut hu _ hd hdep hjudge =>
      rcases hwritten ht' hu rfl with rfl | ⟨rfl, rfl⟩
      · exact Or.inl rfl
      · exact Or.inr (Or.inr ⟨_, _, rfl, Or.inr ⟨_, hd, _, hdep, hjudge⟩⟩)
  | skip hu _ _ =>
      rcases hwritten ht' hu rfl with rfl | ⟨rfl, rfl⟩
      · exact Or.inl rfl
      · exact Or.inr (Or.inr ⟨_, _, rfl, Or.inl rfl⟩)
  | outlive hu hs _ =>
      rcases hwritten ht' hu rfl with rfl | ⟨rfl, -⟩
      · exact Or.inl rfl
      · simp [hblocked] at hs
  | complete hu _ hs _ =>
      rcases hwritten ht' hu rfl with rfl | ⟨rfl, -⟩
      · exact Or.inl rfl
      · simp [hblocked] at hs
  | fail hu _ hs =>
      rw [KeyedMap.get_filter, Option.filter_eq_some_iff] at ht'
      rcases hwritten ht'.1 hu rfl with rfl | ⟨rfl, -⟩
      · exact Or.inl rfl
      · simp [hblocked] at hs
  | start hu hstart =>
      rcases hwritten ht' hu (TaskMove.start (w := w) hstart).kin.id with rfl | ⟨rfl, -⟩
      · exact Or.inl rfl
      · have hpick := (Task.start_eq_ok hstart).1
        simp [Task.canBePickedUpAt, Task.checkAvailabilityAt, hblocked] at hpick
  | @add taskId _ _ _ hfresh _ =>
      left
      rw [KeyedMap.get_insert_of_ne, ht] at ht'
      · cases ht'
        rfl
      · rintro rfl
        rw [show m.get taskId = some t from ht] at hfresh
        cases hfresh

/-- A step keeps the dependencies within the tasks, unless a rollback takes one away. -/
theorem LocalStep.dependenciesClosed {w : Uuid} {now : Nat} {m m' : TaskMap} {touch : Touch}
    (h : LocalStep w now m touch m')
    (hsafe : ∀ parent, touch = .resolved parent → RollbackSafe parent m)
    (hclosed : DependenciesClosed m) : DependenciesClosed m' := by
  intro id t' ht' d hd
  rcases h.predecessor ht' with ⟨t, ht, hmove⟩ | ⟨parent, taskDef, resolved, rfl, -, hdeps, rfl⟩
  · have hkin : Kin t t' := by
      rcases hmove with rfl | hmove
      · exact Kin.refl _
      · exact hmove.kin
    rw [hkin.dependsOn] at hd
    obtain ⟨dep, hdep⟩ := hclosed id t ht d hd
    rcases h.get_some hdep with hget | ⟨dep', -, hget⟩ | ⟨parent, htouch, hparent, -, hrest, -⟩
    · exact ⟨dep, hget⟩
    · exact ⟨dep', hget⟩
    · -- the dependency was rolled back, and then so was the task
      have hcreated := hsafe parent htouch id t d dep ht hd hdep hparent
      exact absurd (hkin.createdByTask.trans hcreated) (hrest id t' ht')
  · obtain ⟨dep, hdep⟩ := hdeps d hd
    rcases h.get_some hdep with hget | ⟨dep', -, hget⟩ | ⟨parent', htouch, -⟩
    · exact ⟨dep, hget⟩
    · exact ⟨dep', hget⟩
    · cases htouch

/-- And leaves them what they are. -/
theorem LocalStep.dependenciesAre {w : Uuid} {now : Nat} {m m' : TaskMap} {touch : Touch}
    {deps : Uuid → List Uuid} (h : LocalStep w now m touch m')
    (hadded : ∀ id parent t, touch = .added id parent → m'.get id = some t →
      t.dependsOn = deps id)
    (hdeps : DependenciesAre deps m) : DependenciesAre deps m' := by
  intro id t' ht'
  rcases h.predecessor ht' with ⟨t, ht, rfl | hmove⟩ | ⟨parent, _, _, htouch, -⟩
  · exact hdeps id _ ht
  · rw [hmove.kin.dependsOn]
    exact hdeps id t ht
  · exact hadded id parent t' htouch ht'

/-! ## Runs that hand out nothing -/

/-- An entry left by a run that hands out no task was there before, with the same owner,
or was created by the run and has no owner. -/
theorem LocalRun.origin {w : Uuid} {touches : Touch → Prop} {lo hi : Nat} {m m' : TaskMap}
    (h : LocalRun κ w touches lo hi m m') (htaken : ∀ id, ¬ touches (.taken id)) :
    ∀ id t', m'.get id = some t' →
      (∃ t, m.get id = some t ∧ Kin t t' ∧ t'.processingByWorker = t.processingByWorker) ∨
        (∃ p, touches (.added id p)) ∧ t'.createdByWorker = w ∧ t'.processingByWorker = none := by
  refine TimedRun.preserves_untimed
    (P := fun m' => ∀ id t', m'.get id = some t' →
      (∃ t, m.get id = some t ∧ Kin t t' ∧ t'.processingByWorker = t.processingByWorker) ∨
        (∃ p, touches (.added id p)) ∧ t'.createdByWorker = w ∧ t'.processingByWorker = none)
    ?_ h (fun id t ht => Or.inl ⟨t, ht, Kin.refl t, rfl⟩)
  rintro now m₁ m₂ ⟨touch, htouch, hstep⟩ ih id t₂ ht₂
  rcases hstep.predecessor ht₂ with ⟨t₁, ht₁, rfl | hmove⟩ | ⟨p, _, _, rfl, -, -, rfl⟩
  · exact ih id _ ht₁
  · have howner : t₂.processingByWorker = t₁.processingByWorker := by
      cases hmove with
      | start _ => exact absurd htouch (htaken _)
      | _ => rfl
    rcases ih id t₁ ht₁ with ⟨t, ht, hkin, hsame⟩ | ⟨hadded, hcreated, hnone⟩
    · exact Or.inl ⟨t, ht, hkin.trans hmove.kin, howner.trans hsame⟩
    · exact Or.inr ⟨hadded, hmove.kin.createdByWorker.trans hcreated, howner.trans hnone⟩
  · exact Or.inr ⟨⟨p, htouch⟩, rfl, rfl⟩

/-- A run that hands out no task and creates none adds no entry and changes no owner. -/
theorem LocalRun.backward {w : Uuid} {touches : Touch → Prop} {lo hi : Nat} {m m' : TaskMap}
    (h : LocalRun κ w touches lo hi m m') (htaken : ∀ id, ¬ touches (.taken id))
    (hadded : ∀ id p, ¬ touches (.added id p)) :
    ∀ id t', m'.get id = some t' → ∃ t, m.get id = some t ∧ Kin t t' ∧
      t'.processingByWorker = t.processingByWorker := by
  intro id t' ht'
  rcases LocalRun.origin h htaken id t' ht' with hold | ⟨⟨p, hp⟩, -⟩
  · exact hold
  · exact absurd hp (hadded id p)

/-! ## Results -/

/-- The task completed or was put out: no worker's own step changes it any more. -/
def IsDone (t : Task) : Prop := t.status = .completed ∨ ∃ cause, t.status = .skipped cause

/-- A task that is done makes no move. -/
theorem TaskMove.not_done {w : Uuid} {now : Nat} {t t' : Task} {touch : Touch}
    (h : TaskMove w now t touch t') : ¬ IsDone t := by
  rintro (hdone | ⟨cause, hdone⟩) <;> cases h with
  | outlive hs _ => simp [hdone] at hs
  | putOut hb _ => simp [hdone] at hb
  | release hb => simp [hdone] at hb
  | start hstart =>
      have hpick := (Task.start_eq_ok hstart).1
      simp [Task.canBePickedUpAt, Task.checkAvailabilityAt, hdone] at hpick
  | complete _ hs _ => simp [hdone] at hs
  | fail _ hs => simp [hdone] at hs
  | skip _ hs => simp [hdone] at hs

theorem TaskMove.ne_completed {w : Uuid} {now : Nat} {t t' : Task} {touch : Touch}
    (h : TaskMove w now t touch t') : t.status ≠ .completed :=
  fun hcompleted => h.not_done (Or.inl hcompleted)

/-- What a step resolves was open. -/
theorem LocalStep.resolved_open {w id : Uuid} {now : Nat} {m m' : TaskMap}
    (h : LocalStep w now m (.resolved id) m') : ∃ t, m.get id = some t ∧ ¬ IsDone t := by
  have hundone : ∀ {t : Task}, t.status = .started ∨ t.status = .blocked → ¬ IsDone t := by
    rintro t hopen (hdone | ⟨cause, hdone⟩) <;> simp [hdone] at hopen
  generalize htouch : Touch.resolved id = touch at h
  cases h with
  | complete hu _ hs _ =>
      cases htouch
      exact ⟨_, hu, hundone (Or.inl hs)⟩
  | fail hu _ hs =>
      cases htouch
      exact ⟨_, hu, hundone (Or.inl hs)⟩
  | skip hu _ hs =>
      cases htouch
      exact ⟨_, hu, hundone (hs.imp_left And.left)⟩
  | _ => cases htouch

/-! ## What the state implies on its own -/

namespace DerivedRun

variable {w : Uuid} {lo hi : Nat} {m m' : TaskMap}

/-- Deriving drops no entry. -/
theorem forward (h : DerivedRun κ w lo hi m m') :
    ∀ id t, m.get id = some t → ∃ t', m'.get id = some t' ∧ Kin t t' := by
  refine TimedRun.preserves_untimed
    (P := fun m' => ∀ id t, m.get id = some t → ∃ t', m'.get id = some t' ∧ Kin t t')
    ?_ h (fun id t ht => ⟨t, ht, Kin.refl t⟩)
  rintro now m₁ m₂ ⟨touch, rfl, hstep⟩ ih id t ht
  obtain ⟨t₁, ht₁, hkin⟩ := ih id t ht
  rcases hstep.get_some ht₁ with hget | ⟨t₂, hmove, hget⟩ | ⟨_, htouch, -⟩
  · exact ⟨t₁, hget, hkin⟩
  · exact ⟨t₂, hget, hkin.trans hmove.kin⟩
  · cases htouch

/-- Deriving adds no entry. -/
theorem backward (h : DerivedRun κ w lo hi m m') :
    ∀ id t', m'.get id = some t' → ∃ t, m.get id = some t ∧ Kin t t' := by
  intro id t' ht'
  obtain ⟨t, ht, hkin, -⟩ := LocalRun.backward h (by simp) (by simp) id t' ht'
  exact ⟨t, ht, hkin⟩

/-- Deriving changes no task that is done. -/
theorem keeps_done (h : DerivedRun κ w lo hi m m') {id : Uuid} {t : Task}
    (ht : m.get id = some t) (hdone : IsDone t) : m'.get id = some t := by
  refine TimedRun.preserves_untimed (P := fun m => m.get id = some t) ?_ h ht
  rintro now m₁ m₂ ⟨touch, rfl, hstep⟩ ht₁
  rcases hstep.get_some ht₁ with hget | ⟨t', hmove, -⟩ | ⟨p, htouch, -⟩
  · exact hget
  · exact absurd hdone hmove.not_done
  · cases htouch

/-- And drops none. -/
theorem dependenciesClosed (h : DerivedRun κ w lo hi m m') (hclosed : DependenciesClosed m) :
    DependenciesClosed m' := by
  intro id t' ht' d hd
  obtain ⟨t, ht, hkin⟩ := backward h id t' ht'
  rw [hkin.dependsOn] at hd
  obtain ⟨dep, hdep⟩ := hclosed id t ht d hd
  obtain ⟨dep', hdep', -⟩ := forward h d dep hdep
  exact ⟨dep', hdep'⟩

end DerivedRun

end JobManager
