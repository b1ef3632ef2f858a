import JobManager.Core.Entry

/-!
# What executions created

A task created at runtime names the task whose execution created it, and a failure of that
one drops it.  Where every creator is done with its execution, nothing can be dropped: an
execution keeps every task of the copy it began with, and the copy it leaves has its
creators done again.

Main results:

- Theorem {lit}`Over.step`: an execution keeps every task of the copy it began with.
- Theorem {lit}`Midway.run`: so do all its steps, and they leave no dependency behind.
- Theorem {lit}`Midway.creatorsDone`: once the executed task is resolved, every creator
  is done.
-/

namespace JobManager

variable {κ : Clocks}

/-- The task was executed and is done: no failure can follow. -/
structure Concluded (t : Task) : Prop where
  done : IsDone t
  owned : t.processingByWorker ≠ none

/-- Whoever created a task of the map is done: no failure drops the task. -/
def CreatorsDone (m : TaskMap) : Prop :=
  ∀ id t p, m.get id = some t → t.createdByTask = some p → ∃ c, m.get p = some c ∧ Concluded c

theorem creatorsDone_of_unmarked {m : TaskMap}
    (h : ∀ id t, m.get id = some t → t.createdByTask = none) : CreatorsDone m := by
  intro id t p ht hparent
  rw [h id t ht] at hparent
  cases hparent

/-- Deriving keeps the creators done. -/
theorem DerivedRun.creatorsDone {w : Uuid} {lo hi : Nat} {m m' : TaskMap}
    (h : DerivedRun κ w lo hi m m') (hm : CreatorsDone m) : CreatorsDone m' := by
  refine TimedRun.preserves_untimed (P := CreatorsDone) ?_ h hm
  rintro now m₁ m₂ ⟨touch, rfl, hstep⟩ ih id t₂ p ht₂ hparent
  obtain ⟨t₁, ht₁, hkin⟩ : ∃ t₁, m₁.get id = some t₁ ∧ Kin t₁ t₂ := by
    rcases hstep.predecessor ht₂ with ⟨t₁, ht₁, rfl | hmove⟩ | ⟨_, _, _, htouch, -⟩
    · exact ⟨_, ht₁, Kin.refl _⟩
    · exact ⟨t₁, ht₁, hmove.kin⟩
    · cases htouch
  obtain ⟨c, hc, hconcluded⟩ := ih id t₁ p ht₁ (hkin.createdByTask ▸ hparent)
  rcases hstep.get_some hc with hget | ⟨c', hmove, -⟩ | ⟨_, htouch, -⟩
  · exact ⟨c, hget, hconcluded⟩
  · exact absurd hconcluded.done hmove.not_done
  · cases htouch

/-- Laying an entry over a map keeps the creators done, if its creator is and nothing was
created by it. -/
theorem CreatorsDone.insert {m : TaskMap} {t : Task} (h : CreatorsDone m)
    (hself : t.createdByTask ≠ some t.id)
    (hmark : ∀ p, t.createdByTask = some p → ∃ c, m.get p = some c ∧ Concluded c)
    (hnone : ∀ id u, m.get id = some u → id ≠ t.id → u.createdByTask ≠ some t.id) :
    CreatorsDone (m.insert t) := by
  intro id u p hu hparent
  obtain ⟨hne, c, hc, hconcluded⟩ : t.id ≠ p ∧ ∃ c, m.get p = some c ∧ Concluded c := by
    rcases get_insert_cases m t id with ⟨-, hget⟩ | ⟨hid, hget⟩
    · rw [hget] at hu
      cases hu
      exact ⟨fun heq => hself (heq ▸ hparent), hmark p hparent⟩
    · rw [hget] at hu
      exact ⟨fun heq => hnone id u hu (Ne.symm hid) (heq ▸ hparent), h id u p hu hparent⟩
  exact ⟨c, by rwa [KeyedMap.get_insert_of_ne m hne], hconcluded⟩

/-- A start keeps the creators done: what is started created nothing that is left. -/
theorem CreatorsDone.start {m : TaskMap} {t t' : Task} {w : Uuid} {now : Nat}
    (h : CreatorsDone m) (hself : t.createdByTask ≠ some t.id) (ht : m.get t.id = some t)
    (hstart : t.start w now = .ok t') : CreatorsDone (m.insert t') := by
  have hmove : TaskMove w now t (.taken t.id) t' := .start hstart
  have hid : t'.id = t.id := hmove.kin.id
  have hmark : t'.createdByTask = t.createdByTask := hmove.kin.createdByTask
  refine h.insert ?_ ?_ ?_
  · rwa [hid, hmark]
  · intro p hparent
    exact h t.id t p ht (hmark ▸ hparent)
  · intro id u hu _ hparent
    rw [hid] at hparent
    obtain ⟨c, hc, hconcluded⟩ := h id u t.id hu hparent
    rw [ht] at hc
    cases hc
    exact hmove.not_done hconcluded.done

/-! ## Runs that drop nothing that belongs to a worker -/

/-- The step drops no task that belongs to a worker, and leaves no dependency behind. -/
structure SteadyStep (w : Uuid) (now : Nat) (m : TaskMap) (touch : Touch) (m' : TaskMap) :
    Prop where
  step : LocalStep w now m touch m'
  stays : ∀ id t, m.get id = some t → t.processingByWorker ≠ none →
    m'.get id = some t ∨ ∃ t', TaskMove w now t touch t' ∧ m'.get id = some t'
  closed : DependenciesClosed m → DependenciesClosed m'

/-- A step that resolves no task drops none. -/
theorem LocalStep.steady {w : Uuid} {now : Nat} {m m' : TaskMap} {touch : Touch}
    (h : LocalStep w now m touch m') (hnone : ∀ p, touch ≠ .resolved p) :
    SteadyStep w now m touch m' where
  step := h
  stays := by
    intro id t ht _
    rcases h.get_some ht with hget | hmoved | ⟨p, htouch, -⟩
    · exact Or.inl hget
    · exact Or.inr hmoved
    · exact absurd htouch (hnone p)
  closed := h.dependenciesClosed fun p htouch => absurd htouch (hnone p)

/-- A run of such steps. -/
def SteadyRun (κ : Clocks) (w : Uuid) (touches : Touch → Prop) (lo hi : Nat) (m m' : TaskMap) :
    Prop :=
  TimedRun κ.Before (fun now m m' => ∃ touch, touches touch ∧ SteadyStep w now m touch m') lo hi
    m m'

namespace SteadyRun

variable {w : Uuid} {touches : Touch → Prop} {lo hi : Nat} {m m' : TaskMap}

theorem toLocal (h : SteadyRun κ w touches lo hi m m') : LocalRun κ w touches lo hi m m' :=
  TimedRun.weaken (fun _ _ _ ⟨touch, htouch, hstep⟩ => ⟨touch, htouch, hstep.step⟩) h

/-- What was executed and is done stays as it is. -/
theorem keeps_concluded (h : SteadyRun κ w touches lo hi m m') {id : Uuid} {t : Task}
    (ht : m.get id = some t) (hconcluded : Concluded t) : m'.get id = some t := by
  refine TimedRun.preserves_untimed (P := fun m => m.get id = some t) ?_ h ht
  rintro now m₁ m₂ ⟨touch, -, hstep⟩ ht₁
  rcases hstep.stays id t ht₁ hconcluded.owned with hget | ⟨t', hmove, -⟩
  · exact hget
  · exact absurd hconcluded.done hmove.not_done

end SteadyRun

theorem LocalRun.steady {w : Uuid} {touches : Touch → Prop} {lo hi : Nat} {m m' : TaskMap}
    (hnone : ∀ p, ¬ touches (.resolved p)) (h : LocalRun κ w touches lo hi m m') :
    SteadyRun κ w touches lo hi m m' := by
  refine TimedRun.weaken ?_ h
  rintro now m₁ m₂ ⟨touch, htouch, hstep⟩
  exact ⟨touch, htouch, hstep.steady fun p hp => hnone p (hp ▸ htouch)⟩

/-! ## An execution and the copy it began with -/

/-- What an execution of {lit}`parent` made of the copy it began with: it holds every task of
that copy, those that were done as they were, and what it holds besides was created by the
execution and belongs to nobody. -/
structure Over (base : TaskMap) (parent : Uuid) (m : TaskMap) : Prop where
  keeps : ∀ id t₀, base.get id = some t₀ →
    ∃ t, m.get id = some t ∧ Kin t₀ t ∧ (IsDone t₀ → t = t₀)
  only : ∀ id t, m.get id = some t → base.get id = none →
    t.createdByTask = some parent ∧ t.processingByWorker = none

namespace Over

variable {base m m' : TaskMap} {parent w : Uuid} {now : Nat} {touch : Touch}

theorem refl (base : TaskMap) (parent : Uuid) : Over base parent base where
  keeps _ t₀ ht₀ := ⟨t₀, ht₀, Kin.refl t₀, fun _ => rfl⟩
  only id t ht hnone := by
    rw [ht] at hnone
    cases hnone

/-- What belongs to a worker was there when the execution began. -/
theorem exists_of_owned (h : Over base parent m) {id : Uuid} {t : Task} (ht : m.get id = some t)
    (howned : t.processingByWorker ≠ none) : ∃ t₀, base.get id = some t₀ := by
  cases ht₀ : base.get id with
  | some t₀ => exact ⟨t₀, rfl⟩
  | none => exact absurd (h.only id t ht ht₀).2 howned

/-- Nobody who is not done created a task of the copy the execution began with. -/
theorem concluded_of_creator (h : Over base parent m) (hbase : CreatorsDone base) {id p : Uuid}
    {t₀ : Task} (ht₀ : base.get id = some t₀) (hparent : t₀.createdByTask = some p) :
    ∃ c, m.get p = some c ∧ Concluded c := by
  obtain ⟨c₀, hc₀, hconcluded⟩ := hbase id t₀ p ht₀ hparent
  obtain ⟨c, hc, -, hsame⟩ := h.keeps p c₀ hc₀
  obtain rfl := hsame hconcluded.done
  exact ⟨c, hc, hconcluded⟩

/-- What was there when the execution began is not dropped. -/
theorem stays (h : Over base parent m) (hbase : CreatorsDone base)
    (hstep : LocalStep w now m touch m') {id : Uuid} {t : Task} (ht : m.get id = some t)
    (hold : ∃ t₀, base.get id = some t₀) :
    m'.get id = some t ∨ ∃ t', TaskMove w now t touch t' ∧ m'.get id = some t' := by
  rcases hstep.get_some ht with hget | hmoved | ⟨p, -, hparent, -, -, c, hc, hs⟩
  · exact Or.inl hget
  · exact Or.inr hmoved
  · -- what fails was running, and whoever created the task is done
    obtain ⟨t₀, ht₀⟩ := hold
    obtain ⟨t', ht', hkin, -⟩ := h.keeps id t₀ ht₀
    rw [ht] at ht'
    cases ht'
    obtain ⟨c', hc', hconcluded⟩ :=
      h.concluded_of_creator hbase ht₀ (hkin.createdByTask ▸ hparent)
    rw [hc] at hc'
    cases hc'
    rcases hconcluded.done with hdone | ⟨_, hdone⟩ <;> simp [hs] at hdone

/-- An execution keeps every task of the copy it began with. -/
theorem step (h : Over base parent m) (hbase : CreatorsDone base)
    (hstep : LocalStep w now m touch m') (htaken : ∀ id, touch ≠ .taken id)
    (hadded : ∀ id p, touch = .added id p → p = parent) : Over base parent m' := by
  constructor
  · intro id t₀ ht₀
    obtain ⟨t, ht, hkin, hsame⟩ := h.keeps id t₀ ht₀
    rcases h.stays hbase hstep ht ⟨t₀, ht₀⟩ with hget | ⟨t', hmove, hget⟩
    · exact ⟨t, hget, hkin, hsame⟩
    · refine ⟨t', hget, hkin.trans hmove.kin, fun hdone => ?_⟩
      obtain rfl := hsame hdone
      exact absurd hdone hmove.not_done
  · intro id t' ht' hnone
    rcases hstep.predecessor ht' with ⟨t, ht, rfl | hmove⟩ | ⟨p, _, _, htouch, -, -, rfl⟩
    · exact h.only id _ ht hnone
    · obtain ⟨hcreated, hfree⟩ := h.only id t ht hnone
      refine ⟨hmove.kin.createdByTask.trans hcreated, ?_⟩
      cases hmove with
      | start _ => exact absurd rfl (htaken _)
      | _ => exact hfree
    · rw [hadded id p htouch]
      exact ⟨rfl, rfl⟩

/-- What waits for a creation of an open task is itself one. -/
theorem rollbackSafe (h : Over base parent m) (hbase : CreatorsDone base)
    (hclosed : DependenciesClosed base) {p : Uuid}
    (hopen : ∃ c, m.get p = some c ∧ ¬ IsDone c) : RollbackSafe p m := by
  intro id t d dep ht hd hdep hparent
  obtain ⟨c, hc, hundone⟩ := hopen
  have hnew : base.get d = none := by
    cases hd₀ : base.get d with
    | none => rfl
    | some dep₀ =>
        obtain ⟨dep', hdep', hkin, -⟩ := h.keeps d dep₀ hd₀
        rw [hdep] at hdep'
        cases hdep'
        obtain ⟨c', hc', hconcluded⟩ :=
          h.concluded_of_creator hbase hd₀ (hkin.createdByTask ▸ hparent)
        rw [hc] at hc'
        cases hc'
        exact absurd hconcluded.done hundone
  have hsame : p = parent := by
    rw [(h.only d dep hdep hnew).1] at hparent
    cases hparent
    rfl
  subst hsame
  refine (h.only id t ht ?_).1
  cases ht₀ : base.get id with
  | none => rfl
  | some t₀ =>
      obtain ⟨t', ht', hkin, -⟩ := h.keeps id t₀ ht₀
      rw [ht] at ht'
      cases ht'
      rw [hkin.dependsOn] at hd
      obtain ⟨dep₀, hdep₀⟩ := hclosed id t₀ ht₀ d hd
      rw [hnew] at hdep₀
      cases hdep₀

end Over

/-- The execution of {lit}`parent` runs, or is done, or has failed and left nothing it
created. -/
def Accounts (parent : Uuid) (m : TaskMap) : Prop :=
  ∃ c, m.get parent = some c ∧ c.processingByWorker ≠ none ∧
    (c.status = .started ∨ IsDone c ∨
      c.status = .failed ∧ ∀ id t, m.get id = some t → t.createdByTask ≠ some parent)

/-- The copy an execution of {lit}`parent` begins with. -/
structure Begins (parent : Uuid) (base : TaskMap) : Prop where
  creators : CreatorsDone base
  closed : DependenciesClosed base
  started : ∃ c, base.get parent = some c ∧ c.status = .started ∧ c.processingByWorker ≠ none

/-- An execution of {lit}`parent` that began with the given copy. -/
structure Midway (base : TaskMap) (parent : Uuid) (m : TaskMap) : Prop where
  begins : Begins parent base
  grown : Over base parent m
  closed : DependenciesClosed m
  accounts : Accounts parent m

/-- A failure drops what the failed execution created. -/
theorem LocalStep.failed_drops {w id : Uuid} {now : Nat} {m m' : TaskMap} {touch : Touch}
    {t t' : Task} (h : LocalStep w now m touch m') (htouch : touch ≠ .derived)
    (ht : m.get id = some t) (hstarted : t.status = .started) (ht' : m'.get id = some t')
    (hfailed : t'.status = .failed) :
    ∀ id' u, m'.get id' = some u → u.createdByTask ≠ some id := by
  -- only a failure turns a running task into a failed one
  have hwritten : ∀ {u u' : Task}, (m.insert u').get id = some t' → u'.status ≠ .failed →
      False := by
    intro u u' hget hne
    rcases get_insert_cases m u' id with ⟨-, hself⟩ | ⟨-, hother⟩
    · rw [hself] at hget
      cases hget
      exact hne hfailed
    · rw [hother, ht] at hget
      cases hget
      rw [hstarted] at hfailed
      cases hfailed
  cases h with
  | outlive _ _ _ => exact absurd rfl htouch
  | putOut _ _ _ _ _ => exact absurd rfl htouch
  | release _ _ _ => exact absurd rfl htouch
  | start hu hstart =>
      obtain ⟨-, _, _, -, -, rfl⟩ := Task.start_eq_ok hstart
      exact (hwritten (u := t) ht' (by simp)).elim
  | complete _ _ _ _ => exact (hwritten (u := t) ht' (by simp [Task.completedWith])).elim
  | skip _ _ _ => exact (hwritten (u := t) ht' (by simp [Task.skippedWith])).elim
  | @add _ _ taskDef resolved _ _ =>
      refine (hwritten (u := t) ht' ?_).elim
      unfold Task.new
      cases resolved.isEmpty <;> simp
  | @fail u errorMsg retry hu _ _ =>
      intro id' t'' ht''
      rw [KeyedMap.get_filter, Option.filter_eq_some_iff] at ht' ht''
      rcases get_insert_cases m (u.failedWith errorMsg retry now) id with ⟨hid, -⟩ | ⟨-, hother⟩
      · rw [show u.id = id from hid] at ht''
        simpa using ht''.2
      · rw [hother, ht] at ht'
        rw [Option.some.inj ht'.1, hfailed] at hstarted
        cases hstarted

namespace Midway

variable {base m m' : TaskMap} {parent w : Uuid} {now : Nat} {touch : Touch}

theorem refl (h : Begins parent base) : Midway base parent base where
  begins := h
  grown := Over.refl base parent
  closed := h.closed
  accounts := by
    obtain ⟨c, hc, hstarted, howned⟩ := h.started
    exact ⟨c, hc, howned, Or.inl hstarted⟩

/-- A step of an execution that resolves a task drops nothing that belongs to a worker. -/
theorem steady {p : Uuid} (h : Midway base parent m)
    (hstep : LocalStep w now m (.resolved p) m') : SteadyStep w now m (.resolved p) m' where
  step := hstep
  stays _ _ ht howned :=
    h.grown.stays h.begins.creators hstep ht (h.grown.exists_of_owned ht howned)
  closed := by
    refine hstep.dependenciesClosed fun p' hp => ?_
    cases hp
    exact h.grown.rollbackSafe h.begins.creators h.begins.closed hstep.resolved_open

/-- A step of an execution that resolves a task of its copy. -/
theorem resolve {p : Uuid} (h : Midway base parent m)
    (hstep : LocalStep w now m (.resolved p) m') : Midway base parent m' where
  begins := h.begins
  grown := h.grown.step h.begins.creators hstep (by simp) (by simp)
  closed := (h.steady hstep).closed h.closed
  accounts := by
    obtain ⟨c, hc, howned, hstatus⟩ := h.accounts
    rcases (h.steady hstep).stays parent c hc howned with hget | ⟨c', hmove, hget⟩
    · refine ⟨c, hget, howned, hstatus.imp_right (Or.imp_right ?_)⟩
      rintro ⟨hfailed, hnone⟩
      refine ⟨hfailed, fun id t' ht' => ?_⟩
      rcases hstep.predecessor ht' with ⟨t, ht, rfl | hmove⟩ | ⟨_, _, _, htouch, -⟩
      · exact hnone id _ ht
      · rw [hmove.kin.createdByTask]
        exact hnone id t ht
      · cases htouch
    · generalize htouch : Touch.resolved p = touch at hmove
      cases hmove with
      | complete _ _ _ => exact ⟨_, hget, howned, Or.inr (Or.inl (Or.inl rfl))⟩
      | fail _ hs =>
          have hdrops := hstep.failed_drops (by simp) hc hs hget rfl
          exact ⟨_, hget, howned, Or.inr (Or.inr ⟨rfl, hdrops⟩)⟩
      | skip _ _ => exact ⟨_, hget, howned, Or.inr (Or.inl (Or.inr ⟨_, rfl⟩))⟩
      | _ => cases htouch

/-- A step of an execution whose task has not failed that creates a task. -/
theorem add {id : Uuid} (h : Midway base parent m)
    (hstep : LocalStep w now m (.added id parent) m')
    (hopen : ∀ c, m.get parent = some c → c.status ≠ .failed) : Midway base parent m' where
  begins := h.begins
  grown := h.grown.step h.begins.creators hstep (by simp) (by simp)
  closed := hstep.dependenciesClosed (by simp) h.closed
  accounts := by
    obtain ⟨c, hc, howned, hstatus⟩ := h.accounts
    rcases hstep.get_some hc with hget | ⟨c', hmove, -⟩ | ⟨_, htouch, -⟩
    · exact ⟨c, hget, howned, hstatus.imp_right
        (Or.imp_right fun hfailed => absurd hfailed.1 (hopen c hc))⟩
    · cases hmove
    · cases htouch

/-- The steps of an execution that resolve tasks of its copy. -/
theorem run {touches : Touch → Prop} {lo hi : Nat} (h : Midway base parent m)
    (honly : ∀ touch, touches touch → ∃ p, touch = .resolved p)
    (hrun : LocalRun κ w touches lo hi m m') :
    Midway base parent m' ∧ SteadyRun κ w touches lo hi m m' := by
  refine TimedRun.strengthen (P := Midway base parent) ?_ hrun h
  rintro now m₁ m₂ h₁ ⟨touch, htouch, hstep⟩
  obtain ⟨p, rfl⟩ := honly touch htouch
  exact ⟨h₁.resolve hstep, .resolved p, htouch, h₁.steady hstep⟩

/-- Once the executed task is resolved, every creator is done. -/
theorem creatorsDone (h : Midway base parent m)
    (hresolved : ∀ c, m.get parent = some c → c.status ≠ .started) : CreatorsDone m := by
  intro id t p ht hparent
  cases ht₀ : base.get id with
  | some t₀ =>
      obtain ⟨t', ht', hkin, -⟩ := h.grown.keeps id t₀ ht₀
      rw [ht] at ht'
      cases ht'
      exact h.grown.concluded_of_creator h.begins.creators ht₀ (hkin.createdByTask ▸ hparent)
  | none =>
      obtain rfl : parent = p := by
        rw [(h.grown.only id t ht ht₀).1] at hparent
        cases hparent
        rfl
      obtain ⟨c, hc, howned, hstarted | hdone | ⟨-, hnone⟩⟩ := h.accounts
      · exact absurd hstarted (hresolved c hc)
      · exact ⟨c, hc, hdone, howned⟩
      · exact absurd hparent (hnone id t ht)

end Midway

end JobManager
