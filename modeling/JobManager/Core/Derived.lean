import JobManager.Core.Settlement

/-!
# What a merge derives, read off the state it begins with

A merge of a start first fails what outlived its lifetime and then runs the cascade.
Which tasks end up failed beyond retry and which end up skipped is a property of the
state the merge begins with: a task fails if it already has or is running past its
lifetime, and the skipped ones are the least set closed under the cascade.

Main results:

- Theorem {lit}`Derived.judged_unblocked`: a dependency the state already accepts is
  accepted once everything is derived.
- Theorem {lit}`Derived.unreachableIn`: a dependency that puts a task out once everything
  is derived did so in the state already.
-/

namespace JobManager

/-- What outlived its lifetime at one moment is failed, and at another one generations of
the cascade follow. -/
def Derived (lifetime cascade : Nat) (m m' : TaskMap) : Prop :=
  ∃ m₁, Outlived lifetime m m₁ ∧ Relation.ReflTransGen (Generation cascade) m₁ m'

section

variable (m : TaskMap) (lifetime cascade : Nat)

/-- The task has failed beyond retry, or is running past its lifetime. -/
def FailsIn (id : Uuid) : Prop :=
  ∃ t, m.get id = some t ∧ (t.isTerminallyFailedAt cascade = true ∨
    (t.status = .started ∧ t.isLifetimeExpiredAt lifetime = true))

/-- The task is skipped, or blocked by a task it does not accept as that one fails or is
skipped. -/
inductive SkipsIn : Uuid → Prop
  | settled {id : Uuid} {t : Task} {cause : SkipCause} :
      m.get id = some t → t.status = .skipped cause → SkipsIn id
  | failed {id d : Uuid} {t : Task} :
      m.get id = some t → t.status = .blocked → d ∈ t.dependsOn →
      t.tolerance.allowsFailed = false → FailsIn m lifetime cascade d → SkipsIn id
  | skipped {id d : Uuid} {t : Task} :
      m.get id = some t → t.status = .blocked → d ∈ t.dependsOn →
      t.tolerance.allowsSkipped = false → SkipsIn d → SkipsIn id

/-- The dependency has settled, or is bound to settle, in a way the task accepts. -/
def AcceptedIn (t : Task) (d : Uuid) : Prop :=
  (∃ dep, m.get d = some dep ∧ dep.status = .completed) ∨
    (t.tolerance.allowsFailed = true ∧ FailsIn m lifetime cascade d) ∨
    (t.tolerance.allowsSkipped = true ∧ SkipsIn m lifetime cascade d)

/-- The dependency has settled, or is bound to settle, in a way the task does not
accept. -/
def UnreachableIn (t : Task) (d : Uuid) : Prop :=
  (t.tolerance.allowsFailed = false ∧ FailsIn m lifetime cascade d) ∨
    (t.tolerance.allowsSkipped = false ∧ SkipsIn m lifetime cascade d)

end

/-! ## The two passes, entry by entry -/

/-- What a generation leaves was there before, or was blocked and put out. -/
theorem Generation.origin {now : Nat} {m m' : TaskMap} (h : Generation now m m') {id : Uuid}
    {t' : Task} (ht' : m'.get id = some t') :
    m.get id = some t' ∨ ∃ t reason cause, m.get id = some t ∧ t.status = .blocked ∧
      (∃ c, UnreachableFor m t now c) ∧ t' = t.skippedWith reason cause now := by
  have hsome : (m.get id).isSome := (h.get_isSome_iff id).mp (by rw [ht']; rfl)
  obtain ⟨t, ht⟩ := Option.isSome_iff_exists.mp hsome
  rcases h.get_eq_some ht with hget | ⟨hblocked, hunreachable, reason, cause, hget⟩
  · rw [ht'] at hget
    cases hget
    exact Or.inl ht
  · rw [ht'] at hget
    cases hget
    exact Or.inr ⟨t, reason, cause, ht, hblocked, hunreachable, rfl⟩

namespace Outlived

variable {now : Nat} {m m' : TaskMap} {id : Uuid} {t t' : Task}

theorem get_eq_some (h : Outlived now m m') (ht : m.get id = some t) :
    m'.get id = some t ∨ (t.status = .started ∧ t.isLifetimeExpiredAt now = true ∧
      m'.get id =
        some (t.failedWith (Job.describeOutlivedLifetime t) .whileBudgetLasts now)) := by
  by_cases hhit : t.status = .started ∧ t.isLifetimeExpiredAt now = true
  · exact Or.inr ⟨hhit.1, hhit.2, h.hit id t ht hhit.1 hhit.2⟩
  · left
    rw [h.kept id, ht]
    intro t₀ ht₀ hs
    rw [ht] at ht₀
    cases ht₀
    by_contra hl
    exact hhit ⟨hs, by simpa using hl⟩

theorem origin (h : Outlived now m m') (ht' : m'.get id = some t') :
    m.get id = some t' ∨ ∃ t, m.get id = some t ∧ t.status = .started ∧
      t.isLifetimeExpiredAt now = true ∧
      t' = t.failedWith (Job.describeOutlivedLifetime t) .whileBudgetLasts now := by
  cases ht : m.get id with
  | none =>
      rw [h.kept id (by simp [ht]), ht] at ht'
      cases ht'
  | some t =>
      rcases h.get_eq_some ht with hget | ⟨hs, hl, hget⟩
      · rw [ht'] at hget
        cases hget
        exact Or.inl rfl
      · rw [ht'] at hget
        cases hget
        exact Or.inr ⟨t, rfl, hs, hl, rfl⟩

end Outlived

/-- Only blocked tasks change in the cascade. -/
theorem generations_keep {now : Nat} {m m' : TaskMap}
    (h : Relation.ReflTransGen (Generation now) m m') {id : Uuid} {t : Task}
    (ht : m.get id = some t) (hs : t.status ≠ .blocked) : m'.get id = some t := by
  induction h with
  | refl => exact ht
  | tail _ hgen ih =>
      rcases hgen.get_eq_some ih with hget | ⟨hblocked, -⟩
      · exact hget
      · exact absurd hblocked hs

/-- What is neither blocked nor skipped after the cascade was so before it. -/
theorem generations_origin {now : Nat} {m m' : TaskMap}
    (h : Relation.ReflTransGen (Generation now) m m') {id : Uuid} {t' : Task}
    (ht' : m'.get id = some t') (hs : ∀ cause, t'.status ≠ .skipped cause) :
    m.get id = some t' := by
  induction h with
  | refl => exact ht'
  | tail _ hgen ih =>
      rcases hgen.origin ht' with hget | ⟨t, reason, cause, -, -, -, rfl⟩
      · exact ih hget
      · exact absurd rfl (hs cause)

/-- A derivation leaves every task alone that is not blocked. -/
theorem Derives.keep {now : Nat} {m m' : TaskMap} (h : Derives now m m') {id : Uuid} {t : Task}
    (ht : m.get id = some t) (hblocked : t.status ≠ .blocked) : m'.get id = some t := by
  obtain ⟨m₁, hgens, -, hrelease⟩ := h
  rcases hrelease.get_eq_some (generations_keep hgens ht hblocked) with hget | ⟨hs, -⟩
  · exact hget
  · exact absurd hs hblocked

/-- A derivation neither adds nor drops a task, changes no owner, and changes nothing that
is not blocked. -/
theorem Derives.trace {now : Nat} {m m' : TaskMap} (h : Derives now m m') (id : Uuid) :
    (m.get id = none ∧ m'.get id = none) ∨ ∃ t t', m.get id = some t ∧ m'.get id = some t' ∧
      t'.processingByWorker = t.processingByWorker ∧ (t' = t ∨ t.status = .blocked) := by
  obtain ⟨m₁, hgens, -, hrelease⟩ := h
  have hcascade : (m.get id = none ∧ m₁.get id = none) ∨ ∃ t t₁, m.get id = some t ∧
      m₁.get id = some t₁ ∧ t₁.processingByWorker = t.processingByWorker ∧
      (t₁ = t ∨ t.status = .blocked) := by
    clear hrelease
    induction hgens with
    | refl =>
        cases ht : m.get id with
        | none => exact Or.inl ⟨rfl, rfl⟩
        | some t => exact Or.inr ⟨t, t, rfl, rfl, rfl, Or.inl rfl⟩
    | tail _ hgen ih =>
        rcases ih with ⟨hnone, hnone₁⟩ | ⟨t, t₁, ht, ht₁, howner, hsame⟩
        · refine Or.inl ⟨hnone, ?_⟩
          rw [← Option.not_isSome_iff_eq_none, hgen.get_isSome_iff, hnone₁]
          simp
        · rcases hgen.get_eq_some ht₁ with hget | ⟨hblocked, -, reason, cause, hget⟩
          · exact Or.inr ⟨t, t₁, ht, hget, howner, hsame⟩
          · refine Or.inr ⟨t, _, ht, hget, howner, Or.inr ?_⟩
            rcases hsame with rfl | hbefore
            · exact hblocked
            · exact hbefore
  rcases hcascade with ⟨hnone, hnone₁⟩ | ⟨t, t₁, ht, ht₁, howner, hsame⟩
  · refine Or.inl ⟨hnone, ?_⟩
    rw [hrelease.kept id (by simp [hnone₁]), hnone₁]
  · rcases hrelease.get_eq_some ht₁ with hget | ⟨hblocked, -, hget⟩
    · exact Or.inr ⟨t, t₁, ht, hget, howner, hsame⟩
    · refine Or.inr ⟨t, _, ht, hget, howner, Or.inr ?_⟩
      rcases hsame with rfl | hbefore
      · exact hblocked
      · exact hbefore

/-- Two maps from which one map derives hold the same tasks. -/
theorem Derives.absent_of_absent {now : Nat} {l r m : TaskMap} (hl : Derives now l m)
    (hr : Derives now r m) {id : Uuid} (h : l.get id = none) : r.get id = none := by
  rcases hl.trace id with ⟨-, hgone⟩ | ⟨u, -, hu, -, -, -⟩
  · rcases hr.trace id with ⟨hnone, -⟩ | ⟨-, u', -, hu', -, -⟩
    · exact hnone
    · rw [hgone] at hu'
      cases hu'
  · rw [h] at hu
    cases hu

/-- Entries of two maps from which one map derives agree where the first is owned and neither is
both blocked and owned. -/
theorem Derives.eq_of_owned {now : Nat} {l r m : TaskMap} (hl : Derives now l m)
    (hr : Derives now r m) {id : Uuid} {t u : Task} (ht : l.get id = some t)
    (hu : r.get id = some u) {w : Uuid} (howner : t.processingByWorker = some w)
    (hleft : t.status = .blocked → t.processingByWorker = none)
    (hright : u.status = .blocked → u.processingByWorker = none) : t = u := by
  rcases hl.trace id with ⟨hnone, -⟩ | ⟨t₁, t', ht₁, ht', howner₁, hsame₁⟩
  · rw [ht] at hnone
    cases hnone
  rcases hr.trace id with ⟨hnone, -⟩ | ⟨u₁, u', hu₁, hu', howner₂, hsame₂⟩
  · rw [hu] at hnone
    cases hnone
  rw [ht] at ht₁
  rw [hu] at hu₁
  rw [ht'] at hu'
  cases ht₁
  cases hu₁
  cases hu'
  have hl' : t' = t := by
    rcases hsame₁ with heq | hblocked
    · exact heq
    · rw [hleft hblocked] at howner
      cases howner
  have hr' : t' = u := by
    rcases hsame₂ with heq | hblocked
    · exact heq
    · rw [hright hblocked, howner₁, howner] at howner₂
      cases howner₂
  rw [← hl', hr']

namespace Derived

variable {lifetime cascade : Nat} {m m' : TaskMap} {id d : Uuid} {t t' dep : Task}

/-! ## What the state is bound to comes true -/

theorem completed_kept (h : Derived lifetime cascade m m') (ht : m.get id = some t)
    (hcompleted : t.status = .completed) : m'.get id = some t := by
  obtain ⟨m₁, houtlived, hgens⟩ := h
  refine generations_keep hgens ?_ (by simp [hcompleted])
  rcases houtlived.get_eq_some ht with hget | ⟨hs, -⟩
  · exact hget
  · simp [hcompleted] at hs

theorem fails (h : Derived lifetime cascade m m') (hle : lifetime ≤ cascade)
    (hfails : FailsIn m lifetime cascade id) :
    ∃ t', m'.get id = some t' ∧ t'.isTerminallyFailedAt cascade = true := by
  obtain ⟨m₁, houtlived, hgens⟩ := h
  obtain ⟨t, ht, hcase⟩ := hfails
  rcases houtlived.get_eq_some ht with hget | ⟨hs, hl, hget⟩
  · rcases hcase with hterminal | ⟨hs, hl⟩
    · have hfailed := (Task.isTerminallyFailedAt_eq_true.mp hterminal).1
      exact ⟨t, generations_keep hgens hget (by simp [hfailed]), hterminal⟩
    · -- a task past its lifetime is not left as it was
      have hhit := houtlived.hit id t ht hs hl
      rw [hget] at hhit
      have hstatus := congrArg (Option.map Task.status) hhit
      simp [Task.failedWith, hs] at hstatus
  · refine ⟨_, generations_keep hgens hget (by simp [Task.failedWith]), ?_⟩
    rw [Task.isTerminallyFailedAt_eq_true]
    exact ⟨rfl, Or.inr (Or.inr (Task.isLifetimeExpiredAt_mono hle hl))⟩

/-- A task blocked before everything is derived is blocked or skipped after. -/
theorem of_blocked (h : Derived lifetime cascade m m') (ht : m.get id = some t)
    (hblocked : t.status = .blocked) :
    m'.get id = some t ∨ ∃ t' cause, m'.get id = some t' ∧ t'.status = .skipped cause := by
  obtain ⟨m₁, houtlived, hgens⟩ := h
  induction hgens with
  | refl =>
      left
      rcases houtlived.get_eq_some ht with hget | ⟨hs, -⟩
      · exact hget
      · simp [hblocked] at hs
  | tail _ hgen ih =>
      rcases ih with hget | ⟨t', cause, hget, hs⟩
      · rcases hgen.get_eq_some hget with hsame | ⟨-, -, reason, cause, hskipped⟩
        · exact Or.inl hsame
        · exact Or.inr ⟨_, cause, hskipped, rfl⟩
      · rcases hgen.get_eq_some hget with hsame | ⟨hb, -⟩
        · exact Or.inr ⟨t', cause, hsame, hs⟩
        · simp [hs] at hb

theorem skips (h : Derived lifetime cascade m m') (hle : lifetime ≤ cascade)
    (hdone : ∀ id t, m'.get id = some t → t.status = .blocked →
      ∀ cause, ¬ UnreachableFor m' t cascade cause)
    (hskips : SkipsIn m lifetime cascade id) :
    ∃ t' cause, m'.get id = some t' ∧ t'.status = .skipped cause := by
  induction hskips with
  | @settled id t cause ht hs =>
      obtain ⟨m₁, houtlived, hgens⟩ := h
      refine ⟨t, cause, generations_keep hgens ?_ (by simp [hs]), hs⟩
      rcases houtlived.get_eq_some ht with hget | ⟨hstarted, -⟩
      · exact hget
      · simp [hs] at hstarted
  | @failed id d t ht hblocked hd htolerance hfails =>
      rcases h.of_blocked ht hblocked with hget | hskipped
      · obtain ⟨dep, hdep, hterminal⟩ := h.fails hle hfails
        refine absurd ⟨d, hd, dep, hdep, ?_⟩ (hdone id t hget hblocked .failedDependency)
        exact Task.judgeDependency_eq_skipped.mpr (Or.inl ⟨hterminal, htolerance, rfl⟩)
      · exact hskipped
  | @skipped id d t ht hblocked hd htolerance _ ih =>
      rcases h.of_blocked ht hblocked with hget | hskipped
      · obtain ⟨dep, cause, hdep, hs⟩ := ih
        refine absurd ⟨d, hd, dep, hdep, ?_⟩ (hdone id t hget hblocked
          (if cause.carriesFailure then .failedDependency else .skippedDependency))
        exact Task.judgeDependency_eq_skipped.mpr (Or.inr ⟨htolerance, cause, hs, rfl⟩)
      · exact hskipped

/-- A dependency the state already accepts is accepted once everything is derived. -/
theorem judged_unblocked (h : Derived lifetime cascade m m') (hle : lifetime ≤ cascade)
    (hdone : ∀ id t, m'.get id = some t → t.status = .blocked →
      ∀ cause, ¬ UnreachableFor m' t cascade cause)
    (haccepted : AcceptedIn m lifetime cascade t d) :
    ∃ dep, m'.get d = some dep ∧ t.judgeDependency dep cascade = .unblocked := by
  simp only [Task.judgeDependency_eq_unblocked]
  rcases haccepted with ⟨dep, hdep, hs⟩ | ⟨htolerance, hfails⟩ | ⟨htolerance, hskips⟩
  · exact ⟨dep, h.completed_kept hdep hs, Or.inl hs⟩
  · obtain ⟨dep, hdep, hterminal⟩ := h.fails hle hfails
    exact ⟨dep, hdep, Or.inr (Or.inl ⟨hterminal, htolerance⟩)⟩
  · obtain ⟨dep, cause, hdep, hs⟩ := h.skips hle hdone hskips
    exact ⟨dep, hdep, Or.inr (Or.inr ⟨htolerance, cause, hs⟩)⟩

/-- A dependency the state already makes unreachable puts the task out once everything is
derived. -/
theorem judged_skipped (h : Derived lifetime cascade m m') (hle : lifetime ≤ cascade)
    (hdone : ∀ id t, m'.get id = some t → t.status = .blocked →
      ∀ cause, ¬ UnreachableFor m' t cascade cause)
    (hunreachable : UnreachableIn m lifetime cascade t d) :
    ∃ dep cause, m'.get d = some dep ∧ t.judgeDependency dep cascade = .skipped cause := by
  simp only [Task.judgeDependency_eq_skipped]
  rcases hunreachable with ⟨htolerance, hfails⟩ | ⟨htolerance, hskips⟩
  · obtain ⟨dep, hdep, hterminal⟩ := h.fails hle hfails
    exact ⟨dep, .failedDependency, hdep, Or.inl ⟨hterminal, htolerance, rfl⟩⟩
  · obtain ⟨dep, cause, hdep, hs⟩ := h.skips hle hdone hskips
    exact ⟨dep, _, hdep, Or.inr ⟨htolerance, cause, hs, rfl⟩⟩

/-! ## What came true, the state was bound to -/

/-- What is neither blocked nor skipped once everything is derived was so before. -/
theorem origin (h : Derived lifetime cascade m m') (ht' : m'.get id = some t')
    (hs : ∀ cause, t'.status ≠ .skipped cause) :
    m.get id = some t' ∨ ∃ t, m.get id = some t ∧ t.status = .started ∧
      t.isLifetimeExpiredAt lifetime = true ∧
      t' = t.failedWith (Job.describeOutlivedLifetime t) .whileBudgetLasts lifetime := by
  obtain ⟨m₁, houtlived, hgens⟩ := h
  exact houtlived.origin (generations_origin hgens ht' hs)

theorem failsIn (h : Derived lifetime cascade m m') (ht' : m'.get id = some t')
    (hterminal : t'.isTerminallyFailedAt cascade = true) : FailsIn m lifetime cascade id := by
  have hfailed := (Task.isTerminallyFailedAt_eq_true.mp hterminal).1
  rcases h.origin ht' (by simp [hfailed]) with hget | ⟨t, ht, hs, hl, -⟩
  · exact ⟨t', hget, Or.inl hterminal⟩
  · exact ⟨t, ht, Or.inr ⟨hs, hl⟩⟩

/-- What ends up skipped was skipped or blocked, and bound to be skipped. -/
theorem skipsIn (h : Derived lifetime cascade m m') (ht' : m'.get id = some t') {cause : SkipCause}
    (hs : t'.status = .skipped cause) :
    SkipsIn m lifetime cascade id ∧
      (m.get id = some t' ∨ ∃ t, m.get id = some t ∧ t.status = .blocked ∧ Kin t t') := by
  obtain ⟨m₁, houtlived, hgens⟩ := h
  induction hgens generalizing id t' cause with
  | refl =>
      rcases houtlived.origin ht' with hget | ⟨t, -, -, -, rfl⟩
      · exact ⟨.settled hget hs, Or.inl hget⟩
      · cases hs
  | tail hbefore hgen ih =>
      rcases hgen.origin ht' with hget | ⟨t, reason, cause', ht, hblocked, hunreachable, rfl⟩
      · exact ih hget hs
      · have hget : m.get id = some t := by
          rcases houtlived.origin (generations_origin hbefore ht (by simp [hblocked])) with
            hget | ⟨t₀, -, -, -, rfl⟩
          · exact hget
          · cases hblocked
        refine ⟨?_, Or.inr ⟨t, hget, hblocked, rfl, rfl, rfl, rfl, rfl, rfl⟩⟩
        obtain ⟨c, d, hd, dep, hdep, hjudge⟩ := hunreachable
        rcases Task.judgeDependency_eq_skipped.mp hjudge with
          ⟨hterminal, htolerance, -⟩ | ⟨htolerance, c', hskipped, -⟩
        · exact .failed hget hblocked hd htolerance
            (failsIn ⟨m₁, houtlived, hbefore⟩ hdep hterminal)
        · exact .skipped hget hblocked hd htolerance (ih hdep hskipped).1

/-- A dependency that puts a task out once everything is derived did so in the state
already. -/
theorem unreachableIn (h : Derived lifetime cascade m m') (hdep : m'.get d = some dep)
    {cause : SkipCause} (hjudge : t.judgeDependency dep cascade = .skipped cause) :
    UnreachableIn m lifetime cascade t d := by
  rcases Task.judgeDependency_eq_skipped.mp hjudge with
    ⟨hterminal, htolerance, -⟩ | ⟨htolerance, c, hs, -⟩
  · exact Or.inl ⟨htolerance, h.failsIn hdep hterminal⟩
  · exact Or.inr ⟨htolerance, (h.skipsIn hdep hs).1⟩

end Derived

end JobManager
