import JobManager.Core.Task
import JobManager.Library.Transition

/-!
# The life of one task

Any workers call the operations of one task in any order, at clock readings that never
run back; a refused call leaves the task as it is.  Beside the task the calls that were
answered are tallied: starts that were no takeovers, takeovers, refusals of the executor.
Attempts, deadline and lifetime are three limits that meet in one availability rule, and
one invariant says how they keep each other in bounds.

Main results:

- Theorem {lit}`LifeInv.move`: every answered call keeps the invariant.
- Theorem {lit}`lifecycle_bounded`: what holds in every state of every life, and what
  never changes again.
- Theorem {lit}`starts_bounded`: how often one task is started at most.
-/

namespace JobManager

/-- A call of one of the operations of a task. -/
inductive TaskCall where
  | start (worker : Uuid)
  | complete (output : Bytes)
  | fail (errorMsg : String) (retry : TaskRetry)
  | skip (reason : String) (cause : SkipCause)
  | unblock

/-- What a task answers a call with. -/
def Task.answer (t : Task) (now : Nat) : TaskCall → Except JobError Task
  | .start worker => t.start worker now
  | .complete output => t.complete output now
  | .fail errorMsg retry => t.fail errorMsg retry now
  | .skip reason cause => t.skip reason cause now
  | .unblock => .ok t.unblock

/-- A task with the tally of its successful starts, takeovers apart, and of the successful
refusals, the moment of its first start and the state a skip found it in. -/
structure Life where
  task : Task
  starts : Nat
  takeovers : Nat
  refusals : Nat
  firstStartAt : Option Nat
  skippedFrom : Option TaskStatus

namespace Life

/-- The life of a task nothing has happened to. -/
def born (t : Task) : Life := ⟨t, 0, 0, 0, none, none⟩

/-- Tally a call the task answered with {lit}`t'`. -/
def record (l : Life) (now : Nat) (call : TaskCall) (t' : Task) : Life :=
  match call with
  | .start _ =>
      if l.task.isStarted then { l with task := t', takeovers := l.takeovers + 1 }
      else
        { l with
          task := t', starts := l.starts + 1
          firstStartAt := l.firstStartAt.or (some now) }
  | .fail _ _ => { l with task := t', refusals := l.refusals + 1 }
  | .skip _ _ => { l with task := t', skippedFrom := some l.task.status }
  | .complete _ | .unblock => { l with task := t' }

/-- Call an operation; a refused call changes nothing. -/
def call (l : Life) (now : Nat) (c : TaskCall) : Life :=
  match l.task.answer now c with
  | .ok t' => l.record now c t'
  | .error _ => l

/-- One call of any operation. -/
def Step (now : Nat) (l l' : Life) : Prop := ∃ c, l.call now c = l'

end Life

/-- Calls at readings that never run back, from {lit}`lo` to {lit}`hi`. -/
abbrev LifeRun (lo hi : Nat) (l l' : Life) : Prop := TimedRun (· ≤ ·) Life.Step lo hi l l'

/-! ## What one call can do -/

/-- Everything a call can do to a life. -/
inductive LifeMove (now : Nat) (l : Life) : Life → Prop
  | refused : LifeMove now l l
  | begun {worker : Uuid} {t' : Task} :
      l.task.start worker now = .ok t' → l.task.status ≠ .started →
      LifeMove now l { l with
        task := t', starts := l.starts + 1, firstStartAt := l.firstStartAt.or (some now) }
  | takenOver {worker : Uuid} {t' : Task} :
      l.task.start worker now = .ok t' → l.task.status = .started →
      LifeMove now l { l with task := t', takeovers := l.takeovers + 1 }
  | completed {output : Bytes} :
      l.task.status = .started → l.task.isLifetimeExpiredAt now = false →
      LifeMove now l { l with task := l.task.completedWith output now }
  | failed {errorMsg : String} {retry : TaskRetry} :
      l.task.status = .started →
      LifeMove now l { l with
        task := l.task.failedWith errorMsg retry now, refusals := l.refusals + 1 }
  | skipped {reason : String} {cause : SkipCause} :
      (l.task.status = .started ∧ l.task.isLifetimeExpiredAt now = false) ∨
        l.task.status = .blocked →
      LifeMove now l { l with
        task := l.task.skippedWith reason cause now, skippedFrom := some l.task.status }
  | released :
      l.task.status = .blocked →
      LifeMove now l { l with task := { l.task with status := .todo } }

/-- Every step is a move of the life. -/
theorem Life.Step.move {now : Nat} {l l' : Life} (h : Life.Step now l l') :
    LifeMove now l l' := by
  obtain ⟨c, rfl⟩ := h
  unfold Life.call
  split
  · rename_i t' hanswer
    cases c with
    | start worker =>
        by_cases hs : l.task.status = .started
        · rw [Life.record, if_pos (by simp [Task.isStarted, hs])]
          exact .takenOver hanswer hs
        · rw [Life.record, if_neg (by simp [Task.isStarted, hs])]
          exact .begun hanswer hs
    | complete output =>
        obtain ⟨hs, hl, rfl⟩ := Task.complete_eq_ok.mp hanswer
        exact .completed hs hl
    | fail errorMsg retry =>
        obtain ⟨hs, rfl⟩ := Task.fail_eq_ok.mp hanswer
        exact .failed hs
    | skip reason cause =>
        obtain ⟨hs, rfl⟩ := Task.skip_eq_ok.mp hanswer
        exact .skipped hs
    | unblock =>
        cases hanswer
        unfold Task.unblock
        split <;> rename_i hs
        · exact .released hs
        · exact .refused
  · exact .refused

/-! ## The invariant -/

/-- The attempts a task has spent and the refusals it was met with, state by state: an
attempt is open while the task runs, and a refusal answers one. -/
def Life.Tallied (l : Life) : Prop :=
  match l.task.status with
  | .todo | .blocked => l.starts = 0 ∧ l.refusals = 0
  | .started | .completed => l.starts = l.refusals + 1
  | .failed => l.starts = l.refusals ∧ 0 < l.starts
  | .skipped _ => l.refusals ≤ l.starts ∧ l.starts ≤ l.refusals + 1

/-- The moments of a life that has begun: the lifetime runs from the first start, the last
start has its deadline within it, and each takeover lies one timeout after the start it
took over. -/
structure StartedWithin (d : TaskDefinition) (now : Nat) (l : Life) (first last : Nat) :
    Prop where
  firstStartAt : l.firstStartAt = some first
  startedAt : l.task.startedAt = some last
  deadlineAt : l.task.deadlineAt = some (min (last + d.timeout) (first + d.maxLifetime))
  lifetimeDeadlineAt : l.task.lifetimeDeadlineAt = some (first + d.maxLifetime)
  takeovers_le : first + l.takeovers * d.timeout ≤ last
  last_le_now : last ≤ now
  last_le_lifetime : last ≤ first + d.maxLifetime

/-- What a task was resolved with came within its lifetime. -/
def ResolvedInTime (t : Task) : Prop :=
  ∃ completedAt lifetimeDeadline, t.completedAt = some completedAt ∧
    t.lifetimeDeadlineAt = some lifetimeDeadline ∧ completedAt ≤ lifetimeDeadline

/-- The invariant of a life at {lit}`now`. -/
structure LifeInv (d : TaskDefinition) (now : Nat) (l : Life) : Prop where
  timeout_eq : l.task.timeout = d.timeout
  maxLifetime_eq : l.task.maxLifetime = d.maxLifetime
  maxAttempts_eq : l.task.maxAttempts = d.maxAttempts
  attempt_eq : l.task.attempt = l.starts
  starts_le : l.starts ≤ d.maxAttempts
  tallied : l.Tallied
  unstarted : l.starts = 0 →
    l.task.lifetimeDeadlineAt = none ∧ l.firstStartAt = none ∧ l.takeovers = 0
  started : 0 < l.starts → ∃ first last, StartedWithin d now l first last
  skipped_of_skippedFrom : l.skippedFrom ≠ none → ∃ cause, l.task.status = .skipped cause
  inTime : l.task.status = .completed ∨ l.skippedFrom = some .started → ResolvedInTime l.task
  output_eq : l.task.status ≠ .completed → l.task.output = []

namespace LifeInv

variable {d : TaskDefinition} {now : Nat} {l : Life}

/-- The invariant is not lost as time passes. -/
theorem mono {later : Nat} (hle : now ≤ later) (h : LifeInv d now l) : LifeInv d later l := by
  refine { h with started := ?_ }
  intro hpos
  obtain ⟨first, last, hwithin⟩ := h.started hpos
  exact ⟨first, last, { hwithin with last_le_now := Nat.le_trans hwithin.last_le_now hle }⟩

theorem skippedFrom_eq_none (h : LifeInv d now l) (hs : ∀ cause, l.task.status ≠ .skipped cause) :
    l.skippedFrom = none := by
  by_contra hne
  obtain ⟨cause, hcause⟩ := h.skipped_of_skippedFrom hne
  exact hs cause hcause

/-- A lifetime that has not run out reaches to {lit}`now`. -/
theorem le_lifetimeDeadline {t : Task} {deadline : Nat} (hl : t.isLifetimeExpiredAt now = false)
    (hdeadline : t.lifetimeDeadlineAt = some deadline) : now ≤ deadline := by
  by_contra hlt
  have hexpired : t.isLifetimeExpiredAt now = true :=
    Task.isLifetimeExpiredAt_eq_true.mpr ⟨deadline, hdeadline, by omega⟩
  rw [hl] at hexpired
  cases hexpired

/-- A start that is no takeover spends an attempt that was left. -/
theorem begun (h : LifeInv d now l) (hattempts : 0 < d.maxAttempts) {worker : Uuid} {t' : Task}
    (hstart : l.task.start worker now = .ok t') (hs : l.task.status ≠ .started) :
    LifeInv d now { l with
      task := t', starts := l.starts + 1, firstStartAt := l.firstStartAt.or (some now) } := by
  obtain ⟨hpick, L, D, hlifetime, htimeout, rfl⟩ := Task.start_eq_ok hstart
  have hstarted : l.task.isStarted = false := by simp [Task.isStarted, hs]
  obtain ⟨hD, -⟩ := checkedAdd_eq_some.mp htimeout
  rw [h.timeout_eq] at hD
  have hnone : l.skippedFrom = none := by
    refine h.skippedFrom_eq_none ?_
    intro cause hcause
    rcases Task.canBePickedUpAt_cases hpick with hc | ⟨hc, -⟩ | ⟨hc, -⟩ <;>
      rw [hcause] at hc <;> cases hc
  -- to do, or failed with an attempt and lifetime left
  have hcases : (l.starts = 0 ∧ l.refusals = 0) ∨
      (0 < l.starts ∧ l.starts = l.refusals ∧ l.starts < d.maxAttempts ∧
        l.task.isLifetimeExpiredAt now = false) := by
    have htallied := h.tallied
    unfold Life.Tallied at htallied
    rcases Task.canBePickedUpAt_cases hpick with hc | ⟨hc, hterminal⟩ | ⟨hc, -⟩
    · rw [hc] at htallied
      exact Or.inl htallied
    · rw [hc] at htallied
      refine Or.inr ⟨htallied.2, htallied.1, ?_, ?_⟩
      · by_contra hspent
        rw [Task.isTerminallyFailedAt_eq_true.mpr ⟨hc, Or.inr (Or.inl (by
          rw [h.maxAttempts_eq, h.attempt_eq]; omega))⟩] at hterminal
        cases hterminal
      · by_contra hexpired
        rw [Bool.not_eq_false] at hexpired
        rw [Task.isTerminallyFailedAt_eq_true.mpr ⟨hc, Or.inr (Or.inr hexpired)⟩] at hterminal
        cases hterminal
    · exact absurd hc hs
  refine ⟨h.timeout_eq, h.maxLifetime_eq, h.maxAttempts_eq, ?_, ?_, ?_, by simp, ?_, ?_, ?_, ?_⟩
  · simp [hstarted, h.attempt_eq]
  · rcases hcases with ⟨hzero, -⟩ | ⟨-, -, hlt, -⟩
    · dsimp only
      omega
    · exact hlt
  · unfold Life.Tallied
    dsimp only
    rcases hcases with ⟨hzero, hrefusals⟩ | ⟨-, heq, -⟩ <;> omega
  · intro _
    rcases hcases with ⟨hzero, -⟩ | ⟨hpos, -, -, hl⟩
    · obtain ⟨hdeadline, hfirst, htakeovers⟩ := h.unstarted hzero
      rw [hdeadline, Option.none_or] at hlifetime
      obtain ⟨hL, -⟩ := checkedAdd_eq_some.mp hlifetime
      rw [h.maxLifetime_eq] at hL
      refine ⟨now, now, by simp [hfirst], rfl, by simp [hD, hL], by simp [hL], ?_,
        Nat.le_refl now, by omega⟩
      simp [htakeovers]
    · obtain ⟨first, last, hwithin⟩ := h.started hpos
      rw [hwithin.lifetimeDeadlineAt, Option.some_or, Option.some.injEq] at hlifetime
      have hnow := le_lifetimeDeadline hl hwithin.lifetimeDeadlineAt
      refine ⟨first, now, by simp [hwithin.firstStartAt], rfl, by simp [hD, hlifetime],
        by simp [hlifetime], ?_, Nat.le_refl now, hnow⟩
      exact Nat.le_trans hwithin.takeovers_le hwithin.last_le_now
  · simp [hnone]
  · simp [hnone]
  · intro _
    refine h.output_eq ?_
    intro hc
    rcases Task.canBePickedUpAt_cases hpick with hc' | ⟨hc', -⟩ | ⟨hc', -⟩ <;>
      rw [hc] at hc' <;> cases hc'

/-- A takeover lies more than one timeout after the start it takes over. -/
theorem takenOver (h : LifeInv d now l) {worker : Uuid} {t' : Task}
    (hstart : l.task.start worker now = .ok t') (hs : l.task.status = .started) :
    LifeInv d now { l with task := t', takeovers := l.takeovers + 1 } := by
  obtain ⟨hpick, L, D, hlifetime, htimeout, rfl⟩ := Task.start_eq_ok hstart
  have hstarted : l.task.isStarted = true := by simp [Task.isStarted, hs]
  obtain ⟨hD, -⟩ := checkedAdd_eq_some.mp htimeout
  rw [h.timeout_eq] at hD
  have hnone : l.skippedFrom = none := h.skippedFrom_eq_none (by simp [hs])
  have htallied : l.starts = l.refusals + 1 := by
    have htallied := h.tallied
    unfold Life.Tallied at htallied
    rwa [hs] at htallied
  obtain ⟨first, last, hwithin⟩ := h.started (by omega)
  rw [hwithin.lifetimeDeadlineAt, Option.some_or, Option.some.injEq] at hlifetime
  have hlimits : l.task.isLifetimeExpiredAt now = false ∧ l.task.isExpiredAt now = true := by
    rcases Task.canBePickedUpAt_cases hpick with hc | ⟨hc, -⟩ | ⟨-, hl, he⟩
    · rw [hs] at hc
      cases hc
    · rw [hs] at hc
      cases hc
    · exact ⟨hl, he⟩
  have hnow := le_lifetimeDeadline hlimits.1 hwithin.lifetimeDeadlineAt
  obtain ⟨deadline, hdeadline, hlt⟩ := Task.isExpiredAt_eq_true.mp hlimits.2
  rw [hwithin.deadlineAt, Option.some.injEq] at hdeadline
  refine ⟨h.timeout_eq, h.maxLifetime_eq, h.maxAttempts_eq, ?_, h.starts_le, ?_, ?_, ?_, ?_, ?_,
    ?_⟩
  · simp [hstarted, h.attempt_eq]
  · exact htallied
  · dsimp only
    omega
  · intro _
    refine ⟨first, now, hwithin.firstStartAt, rfl, by simp [hD, hlifetime], by simp [hlifetime],
      ?_, Nat.le_refl now, hnow⟩
    have htakeovers := hwithin.takeovers_le
    dsimp only
    rw [Nat.add_mul]
    omega
  · simp [hnone]
  · simp [hnone]
  · intro _
    exact h.output_eq (by simp [hs])

/-- What a running task was started within stays when it is resolved. -/
theorem resolvedInTime (h : LifeInv d now l) (hs : l.task.status = .started)
    (hl : l.task.isLifetimeExpiredAt now = false) {t' : Task}
    (hcompleted : t'.completedAt = some now)
    (hdeadline : t'.lifetimeDeadlineAt = l.task.lifetimeDeadlineAt) : ResolvedInTime t' := by
  have htallied := h.tallied
  unfold Life.Tallied at htallied
  rw [hs] at htallied
  have hpos : 0 < l.starts := by
    dsimp only at htallied
    omega
  obtain ⟨first, last, hwithin⟩ := h.started hpos
  exact ⟨now, _, hcompleted, hdeadline.trans hwithin.lifetimeDeadlineAt,
    le_lifetimeDeadline hl hwithin.lifetimeDeadlineAt⟩

/-- Every answered call keeps the invariant. -/
theorem move (h : LifeInv d now l) (hattempts : 0 < d.maxAttempts) {l' : Life}
    (hmove : LifeMove now l l') : LifeInv d now l' := by
  have htallied := h.tallied
  unfold Life.Tallied at htallied
  cases hmove with
  | refused => exact h
  | begun hstart hs => exact h.begun hattempts hstart hs
  | takenOver hstart hs => exact h.takenOver hstart hs
  | completed hs hl =>
      rw [hs] at htallied
      refine ⟨h.timeout_eq, h.maxLifetime_eq, h.maxAttempts_eq, h.attempt_eq, h.starts_le,
        htallied, h.unstarted, ?_, ?_, ?_, by simp [Task.completedWith]⟩
      · intro hpos
        obtain ⟨first, last, hwithin⟩ := h.started hpos
        exact ⟨first, last, { hwithin with }⟩
      · simp [h.skippedFrom_eq_none (by simp [hs])]
      · intro _
        exact h.resolvedInTime hs hl rfl rfl
  | failed hs =>
      rw [hs] at htallied
      refine ⟨h.timeout_eq, h.maxLifetime_eq, h.maxAttempts_eq, h.attempt_eq, h.starts_le,
        ?_, h.unstarted, ?_, ?_, ?_, fun _ => h.output_eq (by simp [hs])⟩
      · exact ⟨htallied, by dsimp only at htallied ⊢; omega⟩
      · intro hpos
        obtain ⟨first, last, hwithin⟩ := h.started hpos
        exact ⟨first, last, { hwithin with }⟩
      · simp [h.skippedFrom_eq_none (by simp [hs])]
      · simp [h.skippedFrom_eq_none (by simp [hs]), Task.failedWith]
  | @skipped reason cause hs =>
      refine ⟨h.timeout_eq, h.maxLifetime_eq, h.maxAttempts_eq, h.attempt_eq, h.starts_le,
        ?_, h.unstarted, ?_, fun _ => ⟨cause, rfl⟩, ?_, ?_⟩
      · change l.refusals ≤ l.starts ∧ l.starts ≤ l.refusals + 1
        rcases hs with ⟨hs, -⟩ | hs <;> rw [hs] at htallied <;> dsimp only at htallied <;> omega
      · intro hpos
        obtain ⟨first, last, hwithin⟩ := h.started hpos
        exact ⟨first, last, { hwithin with }⟩
      · intro hfrom
        rcases hs with ⟨hs, hl⟩ | hs
        · exact h.resolvedInTime hs hl rfl rfl
        · simp [Task.skippedWith, hs] at hfrom
      · intro _
        refine h.output_eq ?_
        rcases hs with ⟨hs, -⟩ | hs <;> simp [hs]
  | released hs =>
      rw [hs] at htallied
      refine ⟨h.timeout_eq, h.maxLifetime_eq, h.maxAttempts_eq, h.attempt_eq, h.starts_le,
        htallied, h.unstarted, ?_, ?_, ?_, fun _ => h.output_eq (by simp [hs])⟩
      · intro hpos
        obtain ⟨first, last, hwithin⟩ := h.started hpos
        exact ⟨first, last, { hwithin with }⟩
      · simp [h.skippedFrom_eq_none (by simp [hs])]
      · simp [h.skippedFrom_eq_none (by simp [hs])]

end LifeInv

/-! ## Whole lives -/

section

variable {d : TaskDefinition} {limits : TaskLimits}

/-- It holds of a task as it is created. -/
theorem lifeInv_born (hvalid : d.validate limits = .ok ()) (now id createdBy : Nat)
    (parent : Option Uuid) (dependsOn : List Uuid) :
    LifeInv d now (.born (Task.new id createdBy parent d dependsOn)) := by
  obtain ⟨-, hle, hmax, -, -⟩ := TaskDefinition.validate_eq_ok.mp hvalid
  have htimeout : durationFromStd d.timeout = some d.timeout := by
    rw [durationFromStd, if_pos (by omega)]
  have hlifetime : durationFromStd d.maxLifetime = some d.maxLifetime := by
    rw [durationFromStd, if_pos hmax]
  have hstatus : (Task.new id createdBy parent d dependsOn).status = .todo ∨
      (Task.new id createdBy parent d dependsOn).status = .blocked := by
    cases hdeps : dependsOn.isEmpty <;> simp [Task.new, hdeps]
  refine ⟨by simp [Life.born, Task.new, htimeout], by simp [Life.born, Task.new, hlifetime], rfl,
    rfl, Nat.zero_le _, ?_, fun _ => ⟨rfl, rfl, rfl⟩, ?_, ?_, ?_, fun _ => rfl⟩
  · unfold Life.Tallied Life.born
    rcases hstatus with hs | hs <;> simp [hs]
  · intro hpos
    cases hpos
  · intro hne
    exact absurd rfl hne
  · rintro (hs | hs)
    · rcases hstatus with hs' | hs' <;> simp [Life.born, hs'] at hs
    · cases hs

/-- And over every life. -/
theorem lifeInv_of_run (hvalid : d.validate limits = .ok ()) {lo hi : Nat} {l l' : Life}
    (hrun : LifeRun lo hi l l') (h : LifeInv d lo l) : LifeInv d hi l' := by
  have hattempts : 0 < d.maxAttempts := (TaskDefinition.validate_eq_ok.mp hvalid).2.2.2.1
  exact hrun.preserves (fun _ _ _ hle hinv => hinv.mono hle)
    (fun _ _ _ hstep hinv => hinv.move hattempts hstep.move) h

end

section

variable {lo hi : Nat} {l l' : Life}

/-- Once set, the end of the lifetime stays. -/
theorem LifeRun.keeps_lifetimeDeadline (hrun : LifeRun lo hi l l') {deadline : Nat}
    (h : l.task.lifetimeDeadlineAt = some deadline) :
    l'.task.lifetimeDeadlineAt = some deadline := by
  refine hrun.preserves_untimed (P := fun l => l.task.lifetimeDeadlineAt = some deadline) ?_ h
  intro now l l' hstep hdeadline
  cases hstep.move with
  | refused => exact hdeadline
  | begun hstart _ | takenOver hstart _ =>
      obtain ⟨-, L, D, hlifetime, -, rfl⟩ := Task.start_eq_ok hstart
      rw [hdeadline, Option.some_or] at hlifetime
      exact hlifetime.symm
  | completed _ _ => exact hdeadline
  | failed _ => exact hdeadline
  | skipped _ => exact hdeadline
  | released _ => exact hdeadline

/-- A call finds the task running, blocked, or to be picked up. -/
theorem LifeMove.eq_of_idle {now : Nat} (hmove : LifeMove now l l')
    (hstarted : l.task.status ≠ .started) (hblocked : l.task.status ≠ .blocked)
    (hpick : l.task.canBePickedUpAt now = false) : l' = l := by
  cases hmove with
  | refused => rfl
  | begun hstart _ =>
      rw [(Task.start_eq_ok hstart).1] at hpick
      cases hpick
  | takenOver _ hs => exact absurd hs hstarted
  | completed hs _ => exact absurd hs hstarted
  | failed hs => exact absurd hs hstarted
  | skipped hs =>
      rcases hs with ⟨hs, -⟩ | hs
      · exact absurd hs hstarted
      · exact absurd hs hblocked
  | released hs => exact absurd hs hblocked

/-- A task that completed or was skipped takes no further call. -/
theorem LifeRun.keeps_resolved (hrun : LifeRun lo hi l l')
    (h : l.task.status = .completed ∨ ∃ cause, l.task.status = .skipped cause) : l' = l := by
  refine hrun.preserves_untimed (P := fun l' => l' = l) ?_ rfl
  intro now _ l'' hstep heq
  subst heq
  refine hstep.move.eq_of_idle ?_ ?_ ?_ <;> rcases h with hs | ⟨cause, hs⟩ <;>
    simp [Task.canBePickedUpAt, Task.checkAvailabilityAt, hs]

/-- Nor does one that failed for good. -/
theorem LifeRun.keeps_terminallyFailed (hrun : LifeRun lo hi l l')
    (h : l.task.isTerminallyFailedAt lo = true) :
    l' = l ∧ l'.task.isTerminallyFailedAt hi = true := by
  refine hrun.preserves
    (P := fun now l' => l' = l ∧ l'.task.isTerminallyFailedAt now = true) ?_ ?_ ⟨rfl, h⟩
  · intro now later l' hle hl'
    exact ⟨hl'.1, Task.isTerminallyFailedAt_mono hle hl'.2⟩
  · rintro now l₁ l₂ hstep ⟨rfl, hterminal⟩
    have hfailed := (Task.isTerminallyFailedAt_eq_true.mp hterminal).1
    obtain rfl := hstep.move.eq_of_idle (by simp [hfailed]) (by simp [hfailed])
      (by simp [Task.canBePickedUpAt, Task.checkAvailabilityAt, hfailed, hterminal])
    exact ⟨rfl, hterminal⟩

end

theorem Life.Tallied.bounds {l : Life} (h : l.Tallied) :
    l.refusals ≤ l.starts ∧ l.starts ≤ l.refusals + 1 := by
  unfold Life.Tallied at h
  split at h <;> omega

/-- The life of a task made from an accepted definition, by whatever calls at readings that
never run back.  The attempts spent are the starts that were no takeovers; they stay within
the budget and within one of the refusals.  The first start sets the lifetime, which never
changes, and every start keeps its deadline within it.  A task that completed, was skipped
or failed for good takes no further call.  What completed, or was skipped while it ran, was
so within the lifetime, and only a completed task has an output. -/
theorem lifecycle_bounded (d : TaskDefinition) (limits : TaskLimits)
    (hvalid : d.validate limits = .ok ()) (id createdBy : Uuid) (parent : Option Uuid)
    (dependsOn : List Uuid) (lo mid hi : Nat) (l l' : Life)
    (hrun : LifeRun lo mid (.born (Task.new id createdBy parent d dependsOn)) l)
    (hmore : LifeRun mid hi l l') :
    l.task.attempt = l.starts ∧ l.task.attempt ≤ d.maxAttempts ∧
      (d.maxAttempts < 2 ^ 32 → l.task.attempt < 2 ^ 32) ∧
      l.refusals ≤ l.task.attempt ∧ l.task.attempt ≤ l.refusals + 1 ∧
      (l.starts = 0 → l.task.lifetimeDeadlineAt = none) ∧
      (0 < l.starts → ∃ first startedAt deadlineAt lifetimeDeadlineAt,
        l.firstStartAt = some first ∧ lifetimeDeadlineAt = first + d.maxLifetime ∧
        l.task.startedAt = some startedAt ∧ l.task.deadlineAt = some deadlineAt ∧
        l.task.lifetimeDeadlineAt = some lifetimeDeadlineAt ∧ startedAt ≤ deadlineAt ∧
        deadlineAt ≤ lifetimeDeadlineAt ∧
        l'.task.lifetimeDeadlineAt = some lifetimeDeadlineAt) ∧
      (l.task.status = .completed ∨ (∃ cause, l.task.status = .skipped cause) → l' = l) ∧
      (l.task.isTerminallyFailedAt mid = true →
        l'.task.isTerminallyFailedAt hi = true ∧ l'.starts = l.starts ∧
          l'.takeovers = l.takeovers) ∧
      (l.task.status = .completed ∨ l.skippedFrom = some .started → ResolvedInTime l.task) ∧
      (l.task.output ≠ [] → l.task.status = .completed) := by
  have hinv := lifeInv_of_run hvalid hrun (lifeInv_born hvalid lo id createdBy parent dependsOn)
  obtain ⟨hrefusals, hattempt⟩ := hinv.tallied.bounds
  have hbudget := hinv.starts_le
  have heq := hinv.attempt_eq
  refine ⟨heq, by omega, by omega, by omega, by omega, fun hzero => (hinv.unstarted hzero).1, ?_,
    hmore.keeps_resolved, ?_, hinv.inTime, ?_⟩
  · intro hpos
    obtain ⟨first, last, hwithin⟩ := hinv.started hpos
    refine ⟨first, last, _, _, hwithin.firstStartAt, rfl, hwithin.startedAt, hwithin.deadlineAt,
      hwithin.lifetimeDeadlineAt, ?_, Nat.min_le_right _ _,
      hmore.keeps_lifetimeDeadline hwithin.lifetimeDeadlineAt⟩
    exact Nat.le_min.mpr ⟨Nat.le_add_right _ _, hwithin.last_le_lifetime⟩
  · intro hterminal
    obtain ⟨rfl, hstill⟩ := hmore.keeps_terminallyFailed hterminal
    exact ⟨hstill, rfl, rfl⟩
  · intro houtput
    by_contra hs
    exact houtput (hinv.output_eq hs)

/-- A definition with a timeout of 1000 ns and a lifetime of 5000 ns. -/
def briefDefinition : TaskDefinition := .new "task" 1000

/-- A task that is started, taken over past its deadline, and completed. -/
def takenOverLife : Life :=
  ((Life.born (Task.new 1 0 none briefDefinition [])).call 10 (.start 7)
    |>.call 1500 (.start 8)).call 2000 (.complete [1])

theorem takenOverLife_run :
    LifeRun 0 2000 (.born (Task.new 1 0 none briefDefinition [])) takenOverLife := by
  have hborn : LifeRun 0 10 (.born (Task.new 1 0 none briefDefinition [])) _ :=
    .refl (by decide)
  have hstarted : LifeRun 0 1500 (.born (Task.new 1 0 none briefDefinition [])) _ :=
    .tail hborn (by decide) ⟨.start 7, rfl⟩
  have htakenOver : LifeRun 0 2000 (.born (Task.new 1 0 none briefDefinition [])) _ :=
    .tail hstarted (by decide) ⟨.start 8, rfl⟩
  exact .tail htakenOver (Nat.le_refl 2000) ⟨.complete [1], rfl⟩

/-- The takeover spends no attempt, and what completes is within the lifetime. -/
theorem takenOverLife_bounded :
    takenOverLife.task.attempt = takenOverLife.starts ∧ takenOverLife.takeovers = 1 ∧
      ResolvedInTime takenOverLife.task := by
  obtain ⟨hattempt, -, -, -, -, -, -, -, -, hinTime, -⟩ := lifecycle_bounded briefDefinition
    .default rfl 1 0 none [] 0 2000 2000 takenOverLife takenOverLife takenOverLife_run
    (.refl (Nat.le_refl 2000))
  exact ⟨hattempt, by decide, hinTime (Or.inl (by decide))⟩

/-- A task made from an accepted definition is started at most as often as it has attempts
and as its timeout fits into its lifetime, first start, retries and takeovers together. -/
theorem starts_bounded (d : TaskDefinition) (limits : TaskLimits)
    (hvalid : d.validate limits = .ok ()) (id createdBy : Uuid) (parent : Option Uuid)
    (dependsOn : List Uuid) (lo hi : Nat) (l : Life)
    (hrun : LifeRun lo hi (.born (Task.new id createdBy parent d dependsOn)) l) :
    l.starts + l.takeovers ≤ d.maxAttempts + d.maxLifetime / d.timeout := by
  have hinv := lifeInv_of_run hvalid hrun (lifeInv_born hvalid lo id createdBy parent dependsOn)
  obtain ⟨htimeout, -⟩ := TaskDefinition.validate_eq_ok.mp hvalid
  have htakeovers : l.takeovers ≤ d.maxLifetime / d.timeout := by
    rw [Nat.le_div_iff_mul_le htimeout]
    rcases Nat.eq_zero_or_pos l.starts with hzero | hpos
    · simp [(hinv.unstarted hzero).2.2]
    · -- the takeovers lie one timeout apart between the first start and the last
      obtain ⟨first, last, hwithin⟩ := hinv.started hpos
      have hle := hwithin.takeovers_le
      have hlast := hwithin.last_le_lifetime
      omega
  exact Nat.add_le_add hinv.starts_le htakeovers

theorem takenOverLife_starts :
    takenOverLife.starts + takenOverLife.takeovers = 2 ∧
      takenOverLife.starts + takenOverLife.takeovers ≤
        briefDefinition.maxAttempts + briefDefinition.maxLifetime / briefDefinition.timeout :=
  ⟨by decide, starts_bounded briefDefinition .default rfl 1 0 none [] 0 2000 takenOverLife
    takenOverLife_run⟩

end JobManager
