import JobManager.Execution.Executor
import JobManager.Core.Derived
import JobManager.Protocol.Pedigree

/-!
# Schedules of one iteration

One copy of an iteration in which no task creates another and every execution has a
final outcome: the tasks are started and their results applied in any order, at any
moments, each followed by a settlement.  A result the domain refuses at that moment, for
having come past the task's lifetime, is not the outcome of the task and no step of a
schedule.

Main results:

- Theorem {lit}`scheduleStep_eq_some`: what one step of a schedule does.
- Theorem {lit}`ScheduleInv.step`: what every step keeps, and the order of the results it
  keeps count of.
-/

namespace JobManager

/-! ## The model -/

/-- What a task ends with when it is executed. -/
inductive FinalOutcome where
  | completed (output : Bytes)
  | terminallyFailed (reason : String)
  | skippedBranch (reason : String)
deriving DecidableEq

namespace FinalOutcome

/-- The outcome as the executor returns it. -/
def toOutcome : FinalOutcome → ExecutorOutcome
  | .completed output => .completed output
  | .terminallyFailed reason => .terminallyFailed reason
  | .skippedBranch reason => .skippedBranch reason

/-- What a task it was applied to ended as. -/
def resolution : FinalOutcome → TaskResolution
  | .completed _ => .completed
  | .terminallyFailed _ => .failed
  | .skippedBranch _ => .skipped

/-- The status it leaves. -/
def status : FinalOutcome → TaskStatus
  | .completed _ => .completed
  | .terminallyFailed _ => .failed
  | .skippedBranch _ => .skipped .executorDecision

/-- The task it was applied to. -/
def apply (t : Task) (now : Nat) : FinalOutcome → Task
  | .completed output => t.completedWith output now
  | .terminallyFailed reason => t.failedWith reason .never now
  | .skippedBranch reason => t.skippedWith reason .executorDecision now

@[simp] theorem status_apply (o : FinalOutcome) (t : Task) (now : Nat) :
    (o.apply t now).status = o.status := by
  cases o <;> rfl

/-- No outcome blocks a task. -/
theorem status_ne_blocked (o : FinalOutcome) : o.status ≠ .blocked := by
  cases o <;> simp [status]

end FinalOutcome

/-- A step of a schedule: a worker starts a task, or the result of its execution is
applied. -/
inductive ScheduleAction where
  | start (w taskId : Uuid) (now : Nat)
  | result (w taskId : Uuid) (now : Nat)
deriving DecidableEq

/-- One step of a schedule, followed by a settlement. -/
def scheduleStep (outcome : Uuid → FinalOutcome) (job : Job) : ScheduleAction → Option Job
  | .start w taskId now =>
      match Job.startTask taskId w now job with
      | (.ok (), job) => some (Job.trySettleIteration w now job).2
      | (.error _, _) => none
  | .result w taskId now =>
      if (job.task? taskId).any Task.isStarted then
        match resolveByOutcome w taskId now (outcome taskId).toOutcome job with
        | (.ok _, job) => some (Job.trySettleIteration w now job).2
        | (.error _, _) => none
      else none

/-- An iteration in work of which nothing was started: its tasks wait for tasks of the
iteration that rank below them, and none was created by another. -/
structure Job.Unstarted (rank : Uuid → Nat) (job : Job) : Prop where
  running : job.status = .running
  nonempty : job.tasks ≠ []
  closed : ∀ t ∈ job.tasks, ∀ d ∈ t.dependsOn, (job.task? d).isSome = true
  ranked : ∀ t ∈ job.tasks, ∀ d ∈ t.dependsOn, rank d < rank t.id
  fresh : ∀ t ∈ job.tasks, t.status = (if t.dependsOn.isEmpty then .todo else .blocked) ∧
    t.createdByTask = none ∧ t.startedAt = none

/-! ## Judging without a clock -/

/-- Whether a task accepts a dependency that ended so. -/
def DependencyTolerance.accepts (tolerance : DependencyTolerance) : TaskResolution → Bool
  | .completed => true
  | .failed => tolerance.allowsFailed
  | .skipped => tolerance.allowsSkipped

/-- A dependency whose failures are final releases a task by what it ended as, at any
moment. -/
theorem Task.judgeDependency_unblocked_accepts {t d : Task} (now : Nat)
    (hnever : d.status = .failed → d.retry = .never) :
    t.judgeDependency d now = .unblocked ↔
      ∃ r, d.resolution = some r ∧ t.tolerance.accepts r = true := by
  rw [judgeDependency_eq_unblocked, isTerminallyFailedAt_eq_true]
  unfold resolution DependencyTolerance.accepts
  cases hs : d.status <;> simp_all

/-- And puts it out likewise. -/
theorem Task.judgeDependency_skipped_rejects {t d : Task} (now : Nat)
    (hnever : d.status = .failed → d.retry = .never) :
    (∃ cause, t.judgeDependency d now = .skipped cause) ↔
      ∃ r, d.resolution = some r ∧ t.tolerance.accepts r = false := by
  simp only [judgeDependency_eq_skipped, isTerminallyFailedAt_eq_true]
  unfold resolution DependencyTolerance.accepts
  cases hs : d.status <;> simp_all

/-- Every dependency of the task ended in a way it accepts. -/
def AcceptsAll (m : TaskMap) (t : Task) : Prop :=
  ∀ d ∈ t.dependsOn, ∃ dep r, m.get d = some dep ∧ dep.resolution = some r ∧
    t.tolerance.accepts r = true

/-- Some dependency of the task ended in a way it does not accept. -/
def Rejects (m : TaskMap) (t : Task) : Prop :=
  ∃ d ∈ t.dependsOn, ∃ dep r, m.get d = some dep ∧ dep.resolution = some r ∧
    t.tolerance.accepts r = false

/-- Failures of the map are final. -/
def FailsForGood (m : TaskMap) : Prop :=
  ∀ id t, m.get id = some t → t.status = .failed → t.retry = .never

/-- Where failures are for good, being satisfied does not depend on the clock. -/
theorem FailsForGood.satisfied_iff {m : TaskMap} (hgood : FailsForGood m) (t : Task) (now : Nat) :
    Satisfied m t now ↔ AcceptsAll m t := by
  constructor
  · intro h d hd
    obtain ⟨dep, hdep, hjudge⟩ := h d hd
    obtain ⟨r, hr, haccepts⟩ :=
      (Task.judgeDependency_unblocked_accepts now (hgood d dep hdep)).mp hjudge
    exact ⟨dep, r, hdep, hr, haccepts⟩
  · intro h d hd
    obtain ⟨dep, r, hdep, hr, haccepts⟩ := h d hd
    exact ⟨dep, hdep, (Task.judgeDependency_unblocked_accepts now (hgood d dep hdep)).mpr
      ⟨r, hr, haccepts⟩⟩

/-- Nor does being unreachable. -/
theorem FailsForGood.unreachable_iff {m : TaskMap} (hgood : FailsForGood m) (t : Task)
    (now : Nat) : (∃ cause, UnreachableFor m t now cause) ↔ Rejects m t := by
  constructor
  · rintro ⟨cause, d, hd, dep, hdep, hjudge⟩
    obtain ⟨r, hr, hrejects⟩ :=
      (Task.judgeDependency_skipped_rejects now (hgood d dep hdep)).mp ⟨cause, hjudge⟩
    exact ⟨d, hd, dep, r, hdep, hr, hrejects⟩
  · rintro ⟨d, hd, dep, r, hdep, hr, hrejects⟩
    obtain ⟨cause, hjudge⟩ :=
      (Task.judgeDependency_skipped_rejects now (hgood d dep hdep)).mpr ⟨r, hr, hrejects⟩
    exact ⟨cause, d, hd, dep, hdep, hjudge⟩

/-- What has ended stays as it is. -/
def KeepsResolved (m m' : TaskMap) : Prop :=
  ∀ id t, m.get id = some t → t.resolution ≠ none → m'.get id = some t

/-- What a task waits for, what it tolerates, what created it and the time it is given. -/
def Task.wiring (t : Task) : List Uuid × DependencyTolerance × Option Uuid × Nat × Nat :=
  (t.dependsOn, t.tolerance, t.createdByTask, t.timeout, t.maxLifetime)

/-- Accepted dependencies stay accepted. -/
theorem AcceptsAll.keep {m m' : TaskMap} {t t' : Task} (hkeeps : KeepsResolved m m')
    (hwiring : t'.wiring = t.wiring) (h : AcceptsAll m t) : AcceptsAll m' t' := by
  simp only [Task.wiring, Prod.mk.injEq] at hwiring
  obtain ⟨hdeps, htolerance, -⟩ := hwiring
  intro d hd
  obtain ⟨dep, r, hdep, hr, haccepts⟩ := h d (hdeps ▸ hd)
  exact ⟨dep, r, hkeeps d dep hdep (by simp [hr]), hr, htolerance.symm ▸ haccepts⟩

/-- And a rejected one stays rejected. -/
theorem Rejects.keep {m m' : TaskMap} {t t' : Task} (hkeeps : KeepsResolved m m')
    (hwiring : t'.wiring = t.wiring) (h : Rejects m t) : Rejects m' t' := by
  simp only [Task.wiring, Prod.mk.injEq] at hwiring
  obtain ⟨hdeps, htolerance, -⟩ := hwiring
  obtain ⟨d, hd, dep, r, hdep, hr, hrejects⟩ := h
  exact ⟨d, hdeps.symm ▸ hd, dep, r, hkeeps d dep hdep (by simp [hr]), hr,
    htolerance.symm ▸ hrejects⟩

/-! ## The invariant of the task map -/

/-- The tasks {lit}`order` lists were executed, the latest first; a task beside them is
pending or was put out, and nothing was released or put out without reason. -/
structure Scheduled (m₀ : TaskMap) (outcome : Uuid → FinalOutcome) (order : List Uuid)
    (m : TaskMap) : Prop where
  wiring : ∀ id, (m.get id).map Task.wiring = (m₀.get id).map Task.wiring
  ran : ∀ id t, m.get id = some t → id ∈ order →
    t.status = (outcome id).status ∧ (t.status = .failed → t.retry = .never)
  pending : ∀ id t, m.get id = some t → id ∉ order →
    t.status = .todo ∨ t.status = .blocked ∨ t.status = .started ∨ IsCascaded t
  recorded : ∀ id t, m.get id = some t →
    (t.startedAt.isSome = true ↔ t.status = .started ∨ id ∈ order)
  ordered : ∀ id t, m.get id = some t → t.status ≠ .blocked → ¬ IsCascaded t → AcceptsAll m t
  justified : ∀ id t, m.get id = some t → IsCascaded t → Rejects m t

/-- Nothing blocked is left to release or to put out. -/
def Quiet (m : TaskMap) : Prop :=
  ∀ id t, m.get id = some t → t.status = .blocked → ¬ AcceptsAll m t ∧ ¬ Rejects m t

namespace Scheduled

variable {m₀ m m' : TaskMap} {outcome : Uuid → FinalOutcome} {order order' : List Uuid}
  {id : Uuid} {t t' : Task} {now : Nat}

/-- Every failure of a schedule is for good. -/
theorem failsForGood (h : Scheduled m₀ outcome order m) : FailsForGood m := by
  intro id t ht hfailed
  by_cases hmem : id ∈ order
  · exact (h.ran id t ht hmem).2 hfailed
  · rcases h.pending id t ht hmem with hs | hs | hs | ⟨cause, hs, -⟩ <;> simp [hs] at hfailed

/-- A schedule is settled where it is quiet. -/
theorem settled_iff_quiet (h : Scheduled m₀ outcome order m) (now : Nat) :
    Settled m now ↔ Quiet m := by
  have hgood := h.failsForGood
  constructor
  · intro hsettled id t ht hblocked
    constructor
    · intro haccepts
      exact hsettled.unsatisfied id t ht hblocked ((hgood.satisfied_iff t now).mpr haccepts)
    · intro hrejects
      obtain ⟨cause, hcause⟩ := (hgood.unreachable_iff t now).mpr hrejects
      exact hsettled.reachable id t ht hblocked cause hcause
  · intro hquiet
    constructor
    · intro id t ht hblocked cause hcause
      exact (hquiet id t ht hblocked).2 ((hgood.unreachable_iff t now).mp ⟨cause, hcause⟩)
    · intro id t ht hblocked hsat
      exact (hquiet id t ht hblocked).1 ((hgood.satisfied_iff t now).mp hsat)

/-- A pending task is started, or its result applied. -/
theorem insert (h : Scheduled m₀ outcome order m) (ht : m.get t.id = some t)
    (hopen : t.resolution = none) (hreached : t.status ≠ .blocked)
    (hwiring : t'.wiring = t.wiring) (hstarted : t'.startedAt.isSome = true)
    (horder : ∀ id, id ≠ t.id → (id ∈ order' ↔ id ∈ order))
    (hstate : (t.id ∉ order' ∧ t'.status = .started) ∨
      (t.id ∈ order' ∧ t'.status = (outcome t.id).status ∧
        (t'.status = .failed → t'.retry = .never)))
    (hget : ∀ id, m'.get id = if t.id = id then some t' else m.get id) :
    Scheduled m₀ outcome order' m' := by
  have hself : m'.get t.id = some t' := by rw [hget, if_pos rfl]
  have hother : ∀ {id : Uuid}, id ≠ t.id → m'.get id = m.get id := by
    intro id hne
    rw [hget, if_neg fun heq => hne heq.symm]
  have hkeeps : KeepsResolved m m' := by
    intro id u hu hresolved
    by_cases hid : id = t.id
    · rw [hid, ht] at hu
      cases hu
      exact absurd hopen hresolved
    · rw [hother hid, hu]
  have hnot : ¬ IsCascaded t := by
    rintro ⟨cause, hs, -⟩
    simp [Task.resolution, hs] at hopen
  have hnot' : ¬ IsCascaded t' := by
    rintro ⟨cause, hs, hne⟩
    rcases hstate with ⟨-, hs'⟩ | ⟨-, hs', -⟩
    · simp [hs] at hs'
    · rw [hs'] at hs
      cases hout : outcome t.id with
      | skippedBranch reason =>
          simp only [FinalOutcome.status, hout, TaskStatus.skipped.injEq] at hs
          exact hne hs.symm
      | _ => simp [FinalOutcome.status, hout] at hs
  -- an entry is the one replaced, or as it was
  have hcases : ∀ {id : Uuid} {u : Task}, m'.get id = some u →
      (id = t.id ∧ u = t') ∨ (id ≠ t.id ∧ m.get id = some u) := by
    intro id u hu
    by_cases hid : id = t.id
    · rw [hid, hself] at hu
      cases hu
      exact Or.inl ⟨hid, rfl⟩
    · exact Or.inr ⟨hid, hother hid ▸ hu⟩
  constructor
  · intro id
    by_cases hid : id = t.id
    · rw [hid, hself, ← h.wiring, ht, Option.map_some, Option.map_some, hwiring]
    · rw [hother hid, h.wiring]
  · intro id u hu hmem
    rcases hcases hu with ⟨rfl, rfl⟩ | ⟨hid, hu⟩
    · rcases hstate with ⟨hnew, -⟩ | ⟨-, hs⟩
      · exact absurd hmem hnew
      · exact hs
    · exact h.ran id u hu ((horder id hid).mp hmem)
  · intro id u hu hmem
    rcases hcases hu with ⟨rfl, rfl⟩ | ⟨hid, hu⟩
    · rcases hstate with ⟨-, hs⟩ | ⟨hnew, -⟩
      · exact Or.inr (Or.inr (Or.inl hs))
      · exact absurd hnew hmem
    · exact h.pending id u hu fun hin => hmem ((horder id hid).mpr hin)
  · intro id u hu
    rcases hcases hu with ⟨rfl, rfl⟩ | ⟨hid, hu⟩
    · refine iff_of_true hstarted ?_
      rcases hstate with ⟨-, hs⟩ | ⟨hin, -⟩
      · exact Or.inl hs
      · exact Or.inr hin
    · rw [h.recorded id u hu, horder id hid]
  · intro id u hu hblocked hcascaded
    rcases hcases hu with ⟨rfl, rfl⟩ | ⟨-, hu⟩
    · exact (h.ordered _ t ht hreached hnot).keep hkeeps hwiring
    · exact (h.ordered id u hu hblocked hcascaded).keep hkeeps rfl
  · intro id u hu hcascaded
    rcases hcases hu with ⟨rfl, rfl⟩ | ⟨-, hu⟩
    · exact absurd hcascaded hnot'
    · exact (h.justified id u hu hcascaded).keep hkeeps rfl

/-- What a blocked task can become without being executed. -/
theorem relax (h : Scheduled m₀ outcome order m) (hkeeps : KeepsResolved m m')
    (hentry : ∀ id t', m'.get id = some t' → m.get id = some t' ∨ ∃ t, m.get id = some t ∧
      t.status = .blocked ∧ t'.wiring = t.wiring ∧ t'.startedAt = t.startedAt ∧
      ((t'.status = .todo ∧ AcceptsAll m t) ∨ (IsCascaded t' ∧ Rejects m t)))
    (hkept : ∀ id t, m.get id = some t → ∃ t', m'.get id = some t') :
    Scheduled m₀ outcome order m' := by
  have hnew : ∀ {id : Uuid} {t : Task}, m.get id = some t → t.status = .blocked → id ∉ order := by
    intro id t ht hblocked hmem
    rw [(h.ran id t ht hmem).1] at hblocked
    exact (outcome id).status_ne_blocked hblocked
  constructor
  · intro id
    cases ht' : m'.get id with
    | some t' =>
        rcases hentry id t' ht' with ht | ⟨t, ht, -, hwiring, -⟩
        · rw [← h.wiring, ht]
        · rw [← h.wiring, ht, Option.map_some, Option.map_some, hwiring]
    | none =>
        rw [← h.wiring]
        cases ht : m.get id with
        | none => rfl
        | some t =>
            obtain ⟨t', ht''⟩ := hkept id t ht
            rw [ht'] at ht''
            cases ht''
  · intro id t' ht' hmem
    rcases hentry id t' ht' with ht | ⟨t, ht, hblocked, -⟩
    · exact h.ran id t' ht hmem
    · exact absurd hmem (hnew ht hblocked)
  · intro id t' ht' hmem
    rcases hentry id t' ht' with ht | ⟨t, -, -, -, -, ⟨hs, -⟩ | ⟨hs, -⟩⟩
    · exact h.pending id t' ht hmem
    · exact Or.inl hs
    · exact Or.inr (Or.inr (Or.inr hs))
  · intro id t' ht'
    rcases hentry id t' ht' with ht | ⟨t, ht, hblocked, -, hat, hcase⟩
    · exact h.recorded id t' ht
    · have hbefore := h.recorded id t ht
      rw [hat, hbefore, hblocked]
      have hne : t'.status ≠ .started := by
        rcases hcase with ⟨hs, -⟩ | ⟨⟨cause, hs, -⟩, -⟩ <;> simp [hs]
      simp [hne]
  · intro id t' ht' hblocked' hcascaded
    rcases hentry id t' ht' with ht | ⟨t, ht, -, hwiring, -, ⟨-, haccepts⟩ | ⟨hs, -⟩⟩
    · exact (h.ordered id t' ht hblocked' hcascaded).keep hkeeps rfl
    · exact haccepts.keep hkeeps hwiring
    · exact absurd hs hcascaded
  · intro id t' ht' hcascaded
    rcases hentry id t' ht' with ht | ⟨t, ht, -, hwiring, -, ⟨hs, -⟩ | ⟨-, hrejects⟩⟩
    · exact (h.justified id t' ht hcascaded).keep hkeeps rfl
    · obtain ⟨cause, hs', -⟩ := hcascaded
      simp [hs] at hs'
    · exact hrejects.keep hkeeps hwiring

/-- A generation of the cascade goes on with the schedule. -/
theorem generation (h : Scheduled m₀ outcome order m) (hgen : Generation now m m') :
    Scheduled m₀ outcome order m' := by
  refine h.relax ?_ ?_ ?_
  · intro id t ht hresolved
    rcases hgen.get_eq_some ht with hget | ⟨hblocked, -⟩
    · exact hget
    · simp [Task.resolution, hblocked] at hresolved
  · intro id t' ht'
    rcases hgen.origin ht' with hget | ⟨t, _, _, ht, hblocked, hunreachable, -⟩
    · exact Or.inl hget
    · obtain ⟨reason, cause, hskipped, ⟨d, hd, dep, hdep, hjudge⟩, -⟩ :=
        hgen.hit id t ht hblocked hunreachable
      rw [ht'] at hskipped
      cases hskipped
      exact Or.inr ⟨t, ht, hblocked, rfl, rfl, Or.inr
        ⟨⟨cause, rfl, cause_ne_executorDecision hjudge⟩,
          (h.failsForGood.unreachable_iff t now).mp ⟨cause, d, hd, dep, hdep, hjudge⟩⟩⟩
  · intro id t ht
    have hsome := (hgen.get_isSome_iff id).mpr (by rw [ht]; rfl)
    exact Option.isSome_iff_exists.mp hsome

/-- And so does a release. -/
theorem release (h : Scheduled m₀ outcome order m) (hrelease : Release now m m') :
    Scheduled m₀ outcome order m' := by
  refine h.relax ?_ ?_ ?_
  · intro id t ht hresolved
    rcases hrelease.get_eq_some ht with hget | ⟨hblocked, -⟩
    · exact hget
    · simp [Task.resolution, hblocked] at hresolved
  · intro id t' ht'
    cases ht : m.get id with
    | none =>
        rw [hrelease.kept id (by simp [ht]), ht] at ht'
        cases ht'
    | some t =>
        rcases hrelease.get_eq_some ht with hget | ⟨hblocked, hsat, hget⟩
        · rw [ht'] at hget
          cases hget
          exact Or.inl rfl
        · rw [ht'] at hget
          cases hget
          exact Or.inr ⟨t, rfl, hblocked, rfl, rfl, Or.inl
            ⟨rfl, (h.failsForGood.satisfied_iff t now).mp hsat⟩⟩
  · intro id t ht
    rcases hrelease.get_eq_some ht with hget | ⟨-, -, hget⟩
    · exact ⟨t, hget⟩
    · exact ⟨_, hget⟩

/-- And so does all that is derived. -/
theorem derives (h : Scheduled m₀ outcome order m) (hderives : Derives now m m') :
    Scheduled m₀ outcome order m' := by
  obtain ⟨m₁, hgens, -, hrelease⟩ := hderives
  have hcascaded : Scheduled m₀ outcome order m₁ := by
    clear hrelease
    induction hgens with
    | refl => exact h
    | tail _ hgen ih => exact ih.generation hgen
  exact hcascaded.release hrelease

/-- Every task has the counterpart it began as. -/
theorem origin (h : Scheduled m₀ outcome order m) (ht : m.get id = some t) :
    ∃ t₀, m₀.get id = some t₀ ∧ t.wiring = t₀.wiring := by
  have hwiring := h.wiring id
  rw [ht, Option.map_some, eq_comm, Option.map_eq_some_iff] at hwiring
  obtain ⟨t₀, ht₀, hsame⟩ := hwiring
  exact ⟨t₀, ht₀, hsame.symm⟩

/-- Every task of the start is there, wired as it was. -/
theorem image (h : Scheduled m₀ outcome order m) {t₀ : Task} (ht₀ : m₀.get id = some t₀) :
    ∃ t, m.get id = some t ∧ t.wiring = t₀.wiring := by
  have hwiring := h.wiring id
  rw [ht₀, Option.map_some, Option.map_eq_some_iff] at hwiring
  obtain ⟨t, ht, hsame⟩ := hwiring
  exact ⟨t, ht, hsame⟩

/-- Dependencies stay within the tasks. -/
theorem dependenciesClosed (h : Scheduled m₀ outcome order m) (hclosed : DependenciesClosed m₀) :
    DependenciesClosed m := by
  intro id t ht d hd
  obtain ⟨t₀, ht₀, hwiring⟩ := h.origin ht
  simp only [Task.wiring, Prod.mk.injEq] at hwiring
  obtain ⟨dep, hdep⟩ := hclosed id t₀ ht₀ d (hwiring.1 ▸ hd)
  obtain ⟨dep', hdep', -⟩ := h.image hdep
  exact ⟨dep', hdep'⟩

/-- And keep their rank. -/
theorem dependenciesRanked (h : Scheduled m₀ outcome order m) {rank : Uuid → Nat}
    (hranked : DependenciesRanked rank m₀) : DependenciesRanked rank m := by
  intro id t ht d hd
  obtain ⟨t₀, ht₀, hwiring⟩ := h.origin ht
  simp only [Task.wiring, Prod.mk.injEq] at hwiring
  exact hranked id t₀ ht₀ d (hwiring.1 ▸ hd)

/-- Only a task to do is still to be picked up. -/
theorem not_coming (h : Scheduled m₀ outcome order m) (ht : m.get id = some t)
    (htodo : t.status ≠ .todo) (hstarted : t.status ≠ .started) :
    Job.isStillComing t now = false := by
  unfold Job.isStillComing Task.checkAvailabilityAt
  cases hs : t.status with
  | todo => exact absurd hs htodo
  | started => exact absurd hs hstarted
  | failed =>
      have hterminal : t.isTerminallyFailedAt now = true :=
        Task.isTerminallyFailedAt_eq_true.mpr ⟨hs, Or.inl (h.failsForGood id t ht hs)⟩
      simp [hterminal]
  | _ => rfl

/-- Where nothing is left to derive, something is to be done or everything is resolved. -/
theorem pending_or_resolved (h : Scheduled m₀ outcome order m) (hquiet : Quiet m)
    {rank : Uuid → Nat} (hclosed : DependenciesClosed m₀) (hranked : DependenciesRanked rank m₀) :
    (∃ id t, m.get id = some t ∧ (t.status = .todo ∨ t.status = .started)) ∨
      ∀ id t, m.get id = some t → t.isResolved = true := by
  by_cases hpending : ∃ id t, m.get id = some t ∧ (t.status = .todo ∨ t.status = .started)
  · exact Or.inl hpending
  · right
    refine resolved_of_settled ((h.settled_iff_quiet 0).mpr hquiet) (h.dependenciesClosed hclosed)
      (h.dependenciesRanked hranked) ?_
    intro id t ht
    have htodo : t.status ≠ .todo := fun hs => hpending ⟨id, t, ht, Or.inl hs⟩
    have hstarted : t.status ≠ .started := fun hs => hpending ⟨id, t, ht, Or.inr hs⟩
    exact ⟨hstarted, h.not_coming ht htodo hstarted⟩

end Scheduled

/-! ## One step -/

/-- The cause the cascade hands down from a task that ended so. -/
def FinalOutcome.cascadeCause : FinalOutcome → SkipCause
  | .terminallyFailed _ => .failedDependency
  | .completed _ | .skippedBranch _ => .skippedDependency

theorem FinalOutcome.cascadeCause_ne (o : FinalOutcome) : o.cascadeCause ≠ .executorDecision := by
  cases o <;> simp [cascadeCause]

/-- A task is put out on account of an outcome for the cause the outcome hands down. -/
theorem FinalOutcome.cascadeCause_of_judged {o : FinalOutcome} {t u : Task} {now now' : Nat}
    {cause : SkipCause} (h : u.judgeDependency (o.apply t now) now' = .skipped cause) :
    cause = o.cascadeCause := by
  rw [Task.judgeDependency_eq_skipped] at h
  cases o <;>
    simp_all [apply, cascadeCause, Task.completedWith, Task.failedWith, Task.skippedWith,
      Task.isTerminallyFailedAt, Task.isFailed, SkipCause.carriesFailure]

/-- Where all a cascade begins with hands down one cause, everything it puts out is put out
for that cause. -/
theorem generations_cause {now : Nat} {m m' : TaskMap} {cause : SkipCause}
    (hcause : cause ≠ .executorDecision)
    (hfirst : ∀ id t, m.get id = some t → t.status = .blocked →
      ∀ c, UnreachableFor m t now c → c = cause)
    (h : Relation.ReflTransGen (Generation now) m m') :
    ∀ id t', m'.get id = some t' → m.get id = some t' ∨
      ∃ t reason, m.get id = some t ∧ t.status = .blocked ∧
        t' = t.skippedWith reason cause now := by
  induction h with
  | refl => exact fun id t' ht' => Or.inl ht'
  | tail _ hgen ih =>
      intro id t' ht'
      rcases hgen.origin ht' with hget | ⟨t, _, _, ht, hblocked, hunreachable, -⟩
      · exact ih id t' hget
      · obtain ⟨reason, c, hskipped, ⟨d, hd, dep, hdep, hjudge⟩, -⟩ :=
          hgen.hit id t ht hblocked hunreachable
        rw [ht'] at hskipped
        cases hskipped
        have htm : m.get id = some t := by
          rcases ih id t ht with hm | ⟨t₀, _, -, -, rfl⟩
          · exact hm
          · cases hblocked
        have hc : c = cause := by
          rcases ih d dep hdep with hm | ⟨dep₀, _, -, -, rfl⟩
          · exact hfirst id t htm hblocked c ⟨d, hd, dep, hm, hjudge⟩
          · -- the dependency was put out by this cascade
            rcases Task.judgeDependency_eq_skipped.mp hjudge with ⟨hterminal, -⟩ | ⟨-, c', hs, hc⟩
            · exact absurd (Task.isTerminallyFailedAt_eq_true.mp hterminal).1
                (by simp [Task.skippedWith])
            · simp only [Task.skippedWith, TaskStatus.skipped.injEq] at hs
              rw [hc, ← hs]
              cases cause with
              | executorDecision => exact absurd rfl hcause
              | failedDependency => rfl
              | skippedDependency => rfl
        subst hc
        exact Or.inr ⟨t, reason, htm, hblocked, rfl⟩

/-- What one step of a schedule does: a task is started or its outcome applied, and what
that leaves is settled. -/
theorem scheduleStep_eq_some {outcome : Uuid → FinalOutcome} {job job' : Job}
    {a : ScheduleAction} (hstatic : ∀ id t, job.task? id = some t → t.createdByTask = none)
    (h : scheduleStep outcome job a = some job') :
    ∃ (w : Uuid) (now : Nat) (t t' : Task) (base : Job), job.task? t.id = some t ∧
      (∀ id, base.task? id = if t.id = id then some t' else job.task? id) ∧
      base.status = job.status ∧ base.taskLimits = job.taskLimits ∧
      job' = (Job.trySettleIteration w now base).2 ∧
      ((a = .start w t.id now ∧ t.start w now = .ok t') ∨
        (a = .result w t.id now ∧ t.status = .started ∧ t' = (outcome t.id).apply t now)) := by
  cases a with
  | start w taskId now =>
      rw [scheduleStep] at h
      split at h <;> rename_i hstart
      · cases h
        obtain ⟨t, t', ht, ht', rfl⟩ := Job.startTask_eq_ok.mp hstart
        have hid : t'.id = t.id := (TaskMove.start (w := w) ht').kin.id
        obtain rfl := Job.id_of_task? ht
        refine ⟨w, now, t, t', { job.setTask t' with updatedByWorkerId := w }, ht, ?_, rfl, rfl,
          rfl, Or.inl ⟨rfl, ht'⟩⟩
        intro id
        rw [← hid]
        exact Job.task?_setTask job t' id
      · cases h
  | result w taskId now =>
      rw [scheduleStep] at h
      split at h <;> rename_i hstarted
      · obtain ⟨t, ht, hs⟩ := (Option.any_eq_true _ _).mp hstarted
        rw [Task.isStarted, decide_eq_true_eq] at hs
        obtain rfl := Job.id_of_task? ht
        split at h <;> rename_i hresolve
        · cases h
          have hset : ∀ (t' : Task) (id : Uuid), t'.id = t.id →
              (job.setTask t').task? id = if t.id = id then some t' else job.task? id := by
            intro t' id hid
            rw [← hid]
            exact Job.task?_setTask job t' id
          cases hout : outcome t.id with
          | completed output =>
              simp only [hout, FinalOutcome.toOutcome, resolveByOutcome, Mutation.bind_eq_ok,
                Mutation.pure_apply, Prod.mk.injEq] at hresolve
              obtain ⟨_, job₁, hcomplete, -, rfl⟩ := hresolve
              obtain ⟨-, t₁, ht₁, -, -, -, rfl⟩ := Job.completeTask_eq_ok hcomplete
              rw [ht] at ht₁
              cases ht₁
              exact ⟨w, now, t, t.completedWith output now, _, ht, fun id => hset _ id rfl, rfl,
                rfl, rfl, Or.inr ⟨rfl, hs, by rw [hout]; rfl⟩⟩
          | skippedBranch reason =>
              simp only [hout, FinalOutcome.toOutcome, resolveByOutcome, Mutation.bind_eq_ok,
                Mutation.pure_apply, Prod.mk.injEq] at hresolve
              obtain ⟨_, job₁, hskip, -, rfl⟩ := hresolve
              obtain ⟨t₁, ht₁, -, -, rfl⟩ := Job.skipTaskByExecutor_eq_ok hskip
              rw [ht] at ht₁
              cases ht₁
              exact ⟨w, now, t, t.skippedWith reason .executorDecision now, _, ht,
                fun id => hset _ id rfl, rfl, rfl, rfl, Or.inr ⟨rfl, hs, by rw [hout]; rfl⟩⟩
          | terminallyFailed reason =>
              simp only [hout, FinalOutcome.toOutcome, resolveByOutcome, Mutation.bind_eq_ok,
                Mutation.pure_apply, Prod.mk.injEq] at hresolve
              obtain ⟨_, job₁, hfail, -, rfl⟩ := hresolve
              obtain ⟨t₁, ht₁, -, -, rfl⟩ := Job.failTask_eq_ok hfail
              rw [ht] at ht₁
              cases ht₁
              refine ⟨w, now, t, t.failedWith reason .never now,
                (job.setTask (t.failedWith reason .never now)).rollback t.id, ht, ?_, rfl, rfl, rfl,
                Or.inr ⟨rfl, hs, by rw [hout]; rfl⟩⟩
              -- nothing was created by another task, so nothing is rolled back
              intro id
              rw [Job.task?_rollback, hset (t.failedWith reason .never now) id rfl]
              split
              · simp [Option.filter, Task.failedWith, hstatic _ t ht]
              · cases hget : job.task? id with
                | none => rfl
                | some u => simp [Option.filter, hstatic id u hget]
        · cases h
      · cases h

/-- A task to do can be started at any moment its deadlines can be told from. -/
theorem scheduleStep_of_todo (outcome : Uuid → FinalOutcome) {job : Job} {id : Uuid} {t : Task}
    (ht : job.task? id = some t) (hs : t.status = .todo) (w : Uuid) (now : Nat)
    (hlifetime : now + t.maxLifetime ≤ maxMoment) (htimeout : now + t.timeout ≤ maxMoment) :
    ∃ job', scheduleStep outcome job (.start w id now) = some job' := by
  obtain ⟨t', ht'⟩ := Task.start_of_todo hs w hlifetime htimeout
  have hstart : Job.startTask id w now job =
      (.ok (), { job.setTask t' with updatedByWorkerId := w }) :=
    Job.startTask_eq_ok.mpr ⟨t, t', ht, ht', rfl⟩
  rw [scheduleStep, hstart]
  exact ⟨_, rfl⟩

/-- The domain accepts the outcome of a started task from its worker, within the task's
lifetime and the limit on outputs. -/
theorem resolveByOutcome_of_started {outcome : FinalOutcome} {job : Job} {id : Uuid} {t : Task}
    (ht : job.task? id = some t) (hs : t.status = .started) {w : Uuid}
    (hw : t.processingByWorker = none ∨ t.processingByWorker = some w) {now : Nat}
    (hl : t.isLifetimeExpiredAt now = false)
    (hlimit : ∀ output, outcome = .completed output →
      output.length ≤ job.taskLimits.maxOutputBytes) :
    ∃ r job', resolveByOutcome w id now outcome.toOutcome job = (.ok r, job') := by
  have howner : Job.checkTaskOwner t w = .ok () := Job.checkTaskOwner_eq_ok.mpr hw
  cases outcome with
  | completed output =>
      have hvalid : Job.validateTaskOutput output job.taskLimits = .ok () := by
        have hfits := hlimit output rfl
        unfold Job.validateTaskOutput
        rw [if_neg (by omega)]
      have hcomplete : Job.completeTask id output w now job =
          (.ok (), job.setTask (t.completedWith output now)) := by
        simp only [Job.completeTask, Mutation.current_bind_apply, Mutation.ofExcept_bind_eq_ok,
          Job.updateTask_eq_ok, bind_eq_ok]
        exact ⟨(), hvalid, t, _, ht, ⟨(), howner, Task.complete_eq_ok.mpr ⟨hs, hl, rfl⟩⟩, rfl⟩
      simp only [FinalOutcome.toOutcome, resolveByOutcome, Mutation.bind_eq_ok]
      exact ⟨.completed, _, (), _, hcomplete, rfl⟩
  | terminallyFailed reason =>
      have hupdate : Job.updateTask id (fun task => do
          Job.checkTaskOwner task w
          task.fail reason .never now) job =
          (.ok (), job.setTask (t.failedWith reason .never now)) :=
        Job.updateTask_eq_ok.mpr ⟨t, _, ht, bind_eq_ok.mpr ⟨(), howner,
          Task.fail_eq_ok.mpr ⟨hs, rfl⟩⟩, rfl⟩
      simp only [FinalOutcome.toOutcome, resolveByOutcome, Job.failTask, Mutation.bind_eq_ok]
      exact ⟨.failed, _, _, _, ⟨(), _, hupdate, _, _, rfl, (), _, rfl, _, _, rfl, rfl⟩, rfl⟩
  | skippedBranch reason =>
      have hskip : Job.skipTaskByExecutor id reason w now job =
          (.ok (), job.setTask (t.skippedWith reason .executorDecision now)) := by
        simp only [Job.skipTaskByExecutor, Job.updateTask_eq_ok, bind_eq_ok]
        exact ⟨t, _, ht, ⟨(), howner, Task.skip_eq_ok.mpr ⟨Or.inl ⟨hs, hl⟩, rfl⟩⟩, rfl⟩
      simp only [FinalOutcome.toOutcome, resolveByOutcome, Mutation.bind_eq_ok]
      exact ⟨.skipped, _, (), _, hskip, rfl⟩

/-- A running task can be given its outcome. -/
theorem scheduleStep_of_started {outcome : Uuid → FinalOutcome} {job : Job} {id : Uuid} {t : Task}
    (ht : job.task? id = some t) (hs : t.status = .started) {w : Uuid}
    (hw : t.processingByWorker = none ∨ t.processingByWorker = some w) {now : Nat}
    (hl : t.isLifetimeExpiredAt now = false)
    (hlimit : ∀ output, outcome id = .completed output →
      output.length ≤ job.taskLimits.maxOutputBytes) :
    ∃ job', scheduleStep outcome job (.result w id now) = some job' := by
  obtain ⟨r, job', hresolve⟩ := resolveByOutcome_of_started ht hs hw hl hlimit
  rw [scheduleStep, if_pos (by simp [ht, Task.isStarted, hs]), hresolve]
  exact ⟨_, rfl⟩

/-! ## The invariant of a schedule -/

/-- What holds after any number of steps, the tasks {lit}`order` lists having been
executed: nothing is left to derive, and the iteration is in work with something to do or
closed under the verdict it earned. -/
structure ScheduleInv (job₀ : Job) (outcome : Uuid → FinalOutcome) (order : List Uuid)
    (job : Job) : Prop where
  tasks : Scheduled job₀.tasksById outcome order job.tasksById
  quiet : Quiet job.tasksById
  limits : job.taskLimits = job₀.taskLimits
  state : (job.status = .running ∧ ∃ id t, job.task? id = some t ∧
      (t.status = .todo ∨ t.status = .started)) ∨
    (∃ now, job.status = (job.deriveIterationVerdict now).toStatus) ∧
      ∀ id t, job.task? id = some t → t.isResolved = true

namespace Job.Unstarted

variable {rank : Uuid → Nat} {job : Job}

/-- Its dependencies are among its tasks. -/
theorem dependenciesClosed (h : job.Unstarted rank) : DependenciesClosed job.tasksById := by
  intro id t ht d hd
  exact Option.isSome_iff_exists.mp (h.closed t (mem_tasks_of_task? ht) d hd)

/-- And are ranked. -/
theorem dependenciesRanked (h : job.Unstarted rank) : DependenciesRanked rank job.tasksById := by
  intro id t ht d hd
  rw [← id_of_task? ht]
  exact h.ranked t (mem_tasks_of_task? ht) d hd

/-- A task that waits for nothing, of which there is one, is to do; every other one is
blocked. -/
theorem scheduleInv (h : job.Unstarted rank) (outcome : Uuid → FinalOutcome) :
    ScheduleInv job outcome [] job := by
  have hfresh : ∀ id t, job.task? id = some t → t.status = .todo ∧ t.dependsOn = [] ∨
      t.status = .blocked ∧ t.dependsOn ≠ [] := by
    intro id t ht
    have hs := (h.fresh t (mem_tasks_of_task? ht)).1
    cases hdeps : t.dependsOn with
    | nil => exact Or.inl ⟨by simpa [hdeps] using hs, rfl⟩
    | cons d ds => exact Or.inr ⟨by simpa [hdeps] using hs, by simp⟩
  have hopen : ∀ id t, job.task? id = some t → t.resolution = none := by
    intro id t ht
    rcases hfresh id t ht with ⟨hs, -⟩ | ⟨hs, -⟩ <;> simp [Task.resolution, hs]
  have hscheduled : Scheduled job.tasksById outcome [] job.tasksById := by
    refine ⟨fun _ => rfl, by simp, ?_, ?_, ?_, ?_⟩
    · intro id t ht _
      rcases hfresh id t ht with ⟨hs, -⟩ | ⟨hs, -⟩
      · exact Or.inl hs
      · exact Or.inr (Or.inl hs)
    · intro id t ht
      have hnone := (h.fresh t (mem_tasks_of_task? ht)).2.2
      rcases hfresh id t ht with ⟨hs, -⟩ | ⟨hs, -⟩ <;> simp [hs, hnone]
    · intro id t ht hblocked _ d hd
      rcases hfresh id t ht with ⟨-, hdeps⟩ | ⟨hs, -⟩
      · rw [hdeps] at hd
        cases hd
      · exact absurd hs hblocked
    · rintro id t ht ⟨cause, hs, -⟩
      rcases hfresh id t ht with ⟨hs', -⟩ | ⟨hs', -⟩ <;> simp [hs] at hs'
  have hquiet : Quiet job.tasksById := by
    intro id t ht hblocked
    constructor
    · intro haccepts
      rcases hfresh id t ht with ⟨hs, -⟩ | ⟨-, hdeps⟩
      · simp [hblocked] at hs
      · obtain ⟨d, hd⟩ := List.exists_mem_of_ne_nil _ hdeps
        obtain ⟨dep, r, hdep, hr, -⟩ := haccepts d hd
        rw [hopen d dep hdep] at hr
        cases hr
    · rintro ⟨d, -, dep, r, hdep, hr, -⟩
      rw [hopen d dep hdep] at hr
      cases hr
  refine ⟨hscheduled, hquiet, rfl, Or.inl ⟨h.running, ?_⟩⟩
  rcases hscheduled.pending_or_resolved hquiet h.dependenciesClosed h.dependenciesRanked with
    hpending | hresolved
  · exact hpending
  · obtain ⟨t, ht⟩ := List.exists_mem_of_ne_nil _ h.nonempty
    have hnot := hresolved t.id t (mem_tasks_iff.mp ht)
    rw [Task.isResolved, hopen t.id t (mem_tasks_iff.mp ht)] at hnot
    cases hnot

end Job.Unstarted

namespace ScheduleInv

variable {job₀ job job' : Job} {outcome : Uuid → FinalOutcome} {order : List Uuid}
  {rank : Uuid → Nat} {t : Task}

theorem static (hfresh : job₀.Unstarted rank) (hinv : ScheduleInv job₀ outcome order job) :
    ∀ id t, job.task? id = some t → t.createdByTask = none := by
  intro id t ht
  obtain ⟨t₀, ht₀, hwiring⟩ := hinv.tasks.origin ht
  simp only [Task.wiring, Prod.mk.injEq] at hwiring
  exact hwiring.2.2.1.trans (hfresh.fresh t₀ (Job.mem_tasks_of_task? ht₀)).2.1

/-- A task with something left to do was not executed, and the iteration is in work. -/
theorem running_of_open (hinv : ScheduleInv job₀ outcome order job)
    (ht : job.task? t.id = some t) (hopen : t.resolution = none) :
    job.status = .running ∧ t.id ∉ order := by
  constructor
  · rcases hinv.state with ⟨hrunning, -⟩ | ⟨-, hresolved⟩
    · exact hrunning
    · have hdone := hresolved t.id t ht
      rw [Task.isResolved, hopen] at hdone
      cases hdone
  · intro hmem
    rw [Task.resolution, (hinv.tasks.ran t.id t ht hmem).1] at hopen
    cases hout : outcome t.id <;> simp [FinalOutcome.status, hout] at hopen

/-- What a settlement in work leaves of a schedule. -/
theorem settle (hfresh : job₀.Unstarted rank) {base : Job}
    (htasks : Scheduled job₀.tasksById outcome order base.tasksById)
    (hrunning : base.status = .running) (hlimits : base.taskLimits = job₀.taskLimits)
    (w : Uuid) (now : Nat) :
    ScheduleInv job₀ outcome order (Job.trySettleIteration w now base).2 ∧
      Derives now base.tasksById (Job.trySettleIteration w now base).2.tasksById := by
  obtain ⟨m, -, hderives, hsettled, hend⟩ := Job.trySettleIteration_end w now base
  have htasks' := htasks.derives hderives
  have hquiet := (htasks'.settled_iff_quiet now).mp hsettled
  have hsplit := htasks'.pending_or_resolved hquiet hfresh.dependenciesClosed
    hfresh.dependenciesRanked
  have hstill : (base.withTasks m).isMoving now = false →
      ∀ id t, m.get id = some t → t.isResolved = true := by
    intro hmoving
    rcases hsplit with ⟨id, t, ht, hs⟩ | hresolved
    · obtain ⟨hstarted, hcoming⟩ := Job.isMoving_eq_false.mp hmoving id t ht
      rcases hs with hs | hs
      · rw [isStillComing_of_todo hs] at hcoming
        cases hcoming
      · exact absurd hs hstarted
    · exact hresolved
  generalize hresult : Job.trySettleIteration w now base = result at hend
  cases hend with
  | moving hmoving =>
      refine ⟨⟨htasks', hquiet, hlimits, Or.inl ⟨hrunning, ?_⟩⟩, hderives⟩
      by_contra hnone
      have hnot : (base.withTasks m).isMoving now = false := by
        rw [Job.isMoving_eq_false]
        intro id t ht
        have htodo : t.status ≠ .todo := fun hs => hnone ⟨id, t, ht, Or.inl hs⟩
        have hstarted : t.status ≠ .started := fun hs => hnone ⟨id, t, ht, Or.inr hs⟩
        exact ⟨hstarted, htasks'.not_coming ht htodo hstarted⟩
      rw [hnot] at hmoving
      cases hmoving
  | deadlock hmoving hunresolved =>
      obtain ⟨t₀, ht₀⟩ := List.exists_mem_of_ne_nil _ hfresh.nonempty
      obtain ⟨t, ht, -⟩ := htasks'.image (Job.mem_tasks_iff.mp ht₀)
      have hall : (base.withTasks m).allTasksResolved = true :=
        Job.allTasksResolved_eq_true.mpr ⟨⟨t₀.id, t, ht⟩, hstill hmoving⟩
      rw [hall] at hunresolved
      cases hunresolved
  | refused _ _ hallows _ =>
      rw [hrunning, JobStatus.running_allows_verdict] at hallows
      cases hallows
  | closed hmoving _ _ =>
      exact ⟨⟨htasks', hquiet, hlimits, Or.inr ⟨⟨now, rfl⟩, hstill hmoving⟩⟩, hderives⟩

section Result

variable {base : Job} {now : Nat}
  (hget : ∀ id, base.task? id =
    if t.id = id then some ((outcome t.id).apply t now) else job.task? id)

include hget

/-- Nothing was left to put out before a result, so the result alone begins a cascade. -/
theorem cause_of_result (hinv : ScheduleInv job₀ outcome order job) :
    ∀ id u, base.tasksById.get id = some u → u.status = .blocked →
      ∀ c, UnreachableFor base.tasksById u now c → c = (outcome t.id).cascadeCause := by
  rintro id u hu hblocked c ⟨d, hd, dep, hdep, hjudge⟩
  have hu' := (hget id).symm.trans hu
  have hdep' := (hget d).symm.trans hdep
  split at hu'
  · cases hu'
    rw [FinalOutcome.status_apply] at hblocked
    exact absurd hblocked (outcome t.id).status_ne_blocked
  · split at hdep'
    · cases hdep'
      exact FinalOutcome.cascadeCause_of_judged hjudge
    · refine absurd ?_ (hinv.quiet id u hu' hblocked).2
      exact (hinv.tasks.failsForGood.unreachable_iff u now).mp ⟨c, d, hd, dep, hdep', hjudge⟩

/-- What the settlement after a result puts out, it puts out for the cause the result hands
down. -/
theorem cascaded_of_result (hinv : ScheduleInv job₀ outcome order job) {m' : TaskMap}
    (hderives : Derives now base.tasksById m') {id : Uuid} {u : Task}
    (hu : m'.get id = some u) (hcascaded : IsCascaded u) :
    job.task? id = some u ∨ u.status = .skipped (outcome t.id).cascadeCause := by
  obtain ⟨m₁, hgens, -, hrelease⟩ := hderives
  obtain ⟨c, hskipped, hne⟩ := hcascaded
  have hu₁ := (hrelease.get_of_ne_todo hu (by simp [hskipped])).1
  rcases generations_cause (outcome t.id).cascadeCause_ne (hinv.cause_of_result hget) hgens id u
    hu₁ with hbefore | ⟨_, _, -, -, rfl⟩
  · left
    have hbefore' := (hget id).symm.trans hbefore
    split at hbefore'
    · cases hbefore'
      cases hout : outcome t.id <;> simp_all [FinalOutcome.status]
    · exact hbefore'
  · exact Or.inr rfl

end Result

/-- Every step keeps the invariant, and every other task that is not blocked.  A start
leaves the order of results as it was; a result extends it, and what it puts out is put out
for the cause it hands down. -/
theorem step (hfresh : job₀.Unstarted rank) (hinv : ScheduleInv job₀ outcome order job)
    {a : ScheduleAction} (h : scheduleStep outcome job a = some job') :
    ∃ w t now, job.task? t.id = some t ∧ t.resolution = none ∧
      (∀ id u, id ≠ t.id → job.task? id = some u → u.status ≠ .blocked →
        job'.task? id = some u) ∧
      ((a = .start w t.id now ∧ (t.status = .todo ∨ t.status = .started) ∧
          ScheduleInv job₀ outcome order job' ∧
          ∃ t', t.start w now = .ok t' ∧ job'.task? t.id = some t') ∨
        a = .result w t.id now ∧ t.status = .started ∧
          ScheduleInv job₀ outcome (t.id :: order) job' ∧
          ∀ id t', job'.task? id = some t' → IsCascaded t' →
            job.task? id = some t' ∨ t'.status = .skipped (outcome t.id).cascadeCause) := by
  obtain ⟨w, now, t, t', base, ht, hget, hstatus, hlimits, rfl, hcase⟩ :=
    scheduleStep_eq_some (hinv.static hfresh) h
  have hlimits' := hlimits.trans hinv.limits
  have hkeep : ∀ id u, id ≠ t.id → job.task? id = some u → base.task? id = some u := by
    intro id u hne hu
    rw [hget, if_neg hne.symm, hu]
  rcases hcase with ⟨rfl, hstart⟩ | ⟨rfl, hs, rfl⟩
  · obtain ⟨hpick, _, _, -, -, rfl⟩ := Task.start_eq_ok hstart
    have hpending : t.status = .todo ∨ t.status = .started := by
      rcases Task.canBePickedUpAt_cases hpick with hs | ⟨hs, hopen⟩ | ⟨hs, -⟩
      · exact Or.inl hs
      · -- a failure is final here
        have hnever := hinv.tasks.failsForGood t.id t ht hs
        simp [Task.isTerminallyFailedAt, Task.isFailed, hs, hnever] at hopen
      · exact Or.inr hs
    have hopen : t.resolution = none := by
      rcases hpending with hs | hs <;> simp [Task.resolution, hs]
    have hblocked : t.status ≠ .blocked := by
      rcases hpending with hs | hs <;> simp [hs]
    obtain ⟨hrunning, hnew⟩ := hinv.running_of_open ht hopen
    have hbase : Scheduled job₀.tasksById outcome order base.tasksById := by
      refine hinv.tasks.insert ht hopen hblocked ?_ ?_ (fun _ _ => Iff.rfl)
        (Or.inl ⟨hnew, ?_⟩) hget
      · rfl
      · rfl
      · rfl
    obtain ⟨hsettled, hderives⟩ := settle hfresh hbase (hstatus.trans hrunning) hlimits' w now
    refine ⟨w, t, now, ht, hopen, ?_, Or.inl ⟨rfl, hpending, hsettled, _, hstart, ?_⟩⟩
    · intro id u hne hu hreached
      exact hderives.keep (hkeep id u hne hu) hreached
    · exact hderives.keep ((hget t.id).trans (if_pos rfl)) (by simp)
  · have hopen : t.resolution = none := by simp [Task.resolution, hs]
    obtain ⟨hrunning, -⟩ := hinv.running_of_open ht hopen
    have hrecorded : t.startedAt.isSome = true :=
      (hinv.tasks.recorded t.id t ht).mpr (Or.inl hs)
    have hbase : Scheduled job₀.tasksById outcome (t.id :: order) base.tasksById := by
      refine hinv.tasks.insert ht hopen (by simp [hs]) ?_ ?_ ?_
        (Or.inr ⟨List.mem_cons_self .., ?_, ?_⟩) hget
      · cases outcome t.id <;> rfl
      · cases outcome t.id <;> exact hrecorded
      · intro id hne
        simp [hne]
      · exact FinalOutcome.status_apply ..
      · cases outcome t.id <;> simp [FinalOutcome.apply, Task.completedWith, Task.failedWith,
          Task.skippedWith]
    obtain ⟨hsettled, hderives⟩ := settle hfresh hbase (hstatus.trans hrunning) hlimits' w now
    refine ⟨w, t, now, ht, hopen, ?_, Or.inr ⟨rfl, hs, hsettled, ?_⟩⟩
    · intro id u hne hu hreached
      exact hderives.keep (hkeep id u hne hu) hreached
    · intro id u hu hcascaded
      exact hinv.cascaded_of_result hget hderives hu hcascaded

end ScheduleInv

end JobManager
