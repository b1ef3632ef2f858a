import JobManager.Core.Basic

/-!
# Tasks

The task of a job iteration: its definition, its lifecycle state and the
operations a worker performs on it.  Every operation that can be refused returns
the changed task or the error; the source assigns nothing before its last check,
so a refused operation leaves no other trace.

Main results:

- Theorems {lit}`start_eq_ok`, {lit}`complete_eq_ok`, {lit}`skip_eq_ok` and
  {lit}`fail_eq_ok`: what an accepted operation required and what it assigns.
- Theorem {lit}`isTerminallyFailedAt_mono`: a terminal failure stays terminal as
  the clock advances.
- Theorem {lit}`judgeDependency_unblocked_mono`: a dependency that no longer
  holds a task back does not start to again.
-/

namespace JobManager

/-! ## Task vocabulary -/

/-- Attempts a task gets before it is terminally failed. -/
def defaultMaxAttempts : Nat := 5

/-- How many times the default maximum lifetime of a task exceeds its deadline. -/
def defaultLifetimeMultiplier : Nat := 5

/-- How long a refused task waits before it may be started again: one second. -/
def failedTaskRetryPause : Nat := 1000000000

/-- The longest duration of the standard library: `u64::MAX` seconds and 999999999 ns. -/
def stdDurationMax : Nat := (2 ^ 64 - 1) * 1000000000 + 999999999

/-- Why a task ended up skipped. -/
inductive SkipCause where
  | executorDecision
  | failedDependency
  | skippedDependency
deriving DecidableEq

/-- Whether a task skipped for this cause carries a failure into the verdict. -/
def SkipCause.carriesFailure : SkipCause → Bool
  | .failedDependency => true
  | .executorDecision | .skippedDependency => false

/-- Display text of a skip cause. -/
def SkipCause.toText : SkipCause → String
  | .executorDecision => "executor decision"
  | .failedDependency => "failed dependency"
  | .skippedDependency => "skipped dependency"

/-- Task lifecycle state. -/
inductive TaskStatus where
  | todo
  | blocked
  | started
  | completed
  | failed
  | skipped (cause : SkipCause)
deriving DecidableEq

/-- Display text of a task status. -/
def TaskStatus.toText : TaskStatus → String
  | .todo => "todo"
  | .blocked => "blocked"
  | .started => "started"
  | .completed => "completed"
  | .failed => "failed"
  | .skipped cause => s!"skipped ({cause.toText})"

/-- Debug text of a task status. -/
def TaskStatus.debugText : TaskStatus → String
  | .todo => "Todo"
  | .blocked => "Blocked"
  | .started => "Started"
  | .completed => "Completed"
  | .failed => "Failed"
  | .skipped .executorDecision => "Skipped(ExecutorDecision)"
  | .skipped .failedDependency => "Skipped(FailedDependency)"
  | .skipped .skippedDependency => "Skipped(SkippedDependency)"

/-- What a resolved task ended as. -/
inductive TaskResolution where
  | completed
  | failed
  | skipped
deriving DecidableEq

/-- Whether a refusal of the executor may be repeated. -/
inductive TaskRetry where
  | whileBudgetLasts
  | never
deriving DecidableEq

/-- States of a dependency a task still starts on. -/
structure DependencyTolerance where
  allowsFailed : Bool := false
  allowsSkipped : Bool := false
deriving DecidableEq

/-- Whether anything was declared at all. -/
def DependencyTolerance.isDeclared (t : DependencyTolerance) : Bool :=
  t.allowsFailed || t.allowsSkipped

/-- How a task names another task it waits for: the position of an initial task in
the description it belongs to, or the identifier of a task of the iteration. -/
inductive TaskRef where
  | initial (jobDefinition : Uuid) (position : Nat)
  | created (id : Uuid)
deriving DecidableEq

/-- Definition of a task to be executed. -/
structure TaskDefinition where
  code : String
  input : Bytes
  timeout : Nat
  maxLifetime : Nat
  dependsOn : List TaskRef
  maxAttempts : Nat
  tolerance : DependencyTolerance
deriving DecidableEq

/-- A definition with no input, no dependencies and the default limits. -/
def TaskDefinition.new (code : String) (timeout : Nat) : TaskDefinition where
  code := code
  input := []
  timeout := timeout
  maxLifetime :=
    if timeout * defaultLifetimeMultiplier ≤ stdDurationMax then
      timeout * defaultLifetimeMultiplier
    else stdDurationMax
  dependsOn := []
  maxAttempts := defaultMaxAttempts
  tolerance := {}

/-- Whether a declared tolerance has a dependency to describe. -/
def TaskDefinition.isDeclaresToleranceValid (d : TaskDefinition) : Bool :=
  !(d.tolerance.isDeclared && d.dependsOn.isEmpty)

/-- Check the definition against the limits of the job it is about to join. -/
def TaskDefinition.validate (d : TaskDefinition) (limits : TaskLimits) :
    Except JobError Unit :=
  if d.timeout = 0 then
    .error (.other "task timeout must be positive")
  else if (durationFromStd d.timeout).isNone then
    .error (.other "task timeout is too large")
  else if d.maxLifetime = 0 then
    .error (.other "task max lifetime must be positive")
  else if (durationFromStd d.maxLifetime).isNone then
    .error (.other "task max lifetime is too large")
  else if d.maxLifetime < d.timeout then
    .error (.other "task max lifetime must not be below the task timeout")
  else if d.maxAttempts = 0 then
    .error (.other "task max attempts must be positive")
  else if limits.maxInputBytes < d.input.length then
    .error (.other
      s!"task input size {d.input.length} exceeds limit {limits.maxInputBytes}")
  else .ok ()

/-- A duration is refused exactly where it is beyond the greatest one. -/
theorem durationFromStd_isNone {d : Nat} : (durationFromStd d).isNone = true ↔ maxDuration < d := by
  unfold durationFromStd
  split <;> simp <;> omega

/-- What an accepted definition keeps to. -/
theorem TaskDefinition.validate_eq_ok {d : TaskDefinition} {limits : TaskLimits} :
    d.validate limits = .ok () ↔ 0 < d.timeout ∧ d.timeout ≤ d.maxLifetime ∧
      d.maxLifetime ≤ maxDuration ∧ 0 < d.maxAttempts ∧
      d.input.length ≤ limits.maxInputBytes := by
  unfold TaskDefinition.validate
  simp only [durationFromStd_isNone]
  constructor
  · intro h
    repeat' split at h
    all_goals cases h
    omega
  · rintro ⟨htimeout, hle, hmax, hattempts, hinput⟩
    rw [if_neg (by omega), if_neg (by omega), if_neg (by omega), if_neg (by omega),
      if_neg (by omega), if_neg (by omega), if_neg (by omega)]

/-- How a dependency of a task has settled, judged by what that task tolerates. -/
inductive DependencyVerdict where
  | unblocked
  | blocked
  | skipped (cause : SkipCause)
deriving DecidableEq

/-- What a worker may do with a task right now. -/
inductive TaskAvailability where
  | pickable
  | awaitingRetry (retryAt : Nat)
  | expiredPastLifetime
  | unavailable
deriving DecidableEq

/-- Internal task representation. -/
structure Task where
  id : Uuid
  code : String
  status : TaskStatus
  processingByWorker : Option Uuid
  createdByWorker : Uuid
  createdByTask : Option Uuid
  timeout : Nat
  maxLifetime : Nat
  startedAt : Option Nat
  completedAt : Option Nat
  deadlineAt : Option Nat
  lifetimeDeadlineAt : Option Nat
  attempt : Nat
  maxAttempts : Nat
  input : Bytes
  output : Bytes
  resolutionReason : String
  retry : TaskRetry
  tolerance : DependencyTolerance
  dependsOn : List Uuid
deriving DecidableEq

namespace Task

/-- A task in its starting state: blocked when it has dependencies, to do otherwise. -/
def new (id createdByWorker : Uuid) (createdByTask : Option Uuid)
    (taskDef : TaskDefinition) (dependsOn : List Uuid) : Task where
  id := id
  code := taskDef.code
  status := if dependsOn.isEmpty then .todo else .blocked
  processingByWorker := none
  createdByWorker := createdByWorker
  createdByTask := createdByTask
  timeout := (durationFromStd taskDef.timeout).getD 0
  maxLifetime := (durationFromStd taskDef.maxLifetime).getD 0
  startedAt := none
  completedAt := none
  deadlineAt := none
  lifetimeDeadlineAt := none
  attempt := 0
  maxAttempts := taskDef.maxAttempts
  input := taskDef.input
  output := []
  resolutionReason := ""
  retry := .whileBudgetLasts
  tolerance := taskDef.tolerance
  dependsOn := dependsOn

section New

variable {id createdByWorker : Uuid} {createdByTask : Option Uuid} {taskDef : TaskDefinition}
  {dependsOn : List Uuid}

/-- A new task waits where it depends on something. -/
theorem status_new_eq_blocked :
    (new id createdByWorker createdByTask taskDef dependsOn).status = .blocked ↔
      dependsOn ≠ [] := by
  cases dependsOn <;> simp [new]

/-- And is free where it does not. -/
theorem status_new_eq_todo :
    (new id createdByWorker createdByTask taskDef dependsOn).status = .todo ↔
      dependsOn = [] := by
  cases dependsOn <;> simp [new]

end New

/-! ## State checks -/

/-- The cause a skipped task carries. -/
def skipCause (t : Task) : Option SkipCause :=
  match t.status with
  | .skipped cause => some cause
  | _ => none

/-- Whether the execution deadline has passed. -/
def isExpiredAt (t : Task) (now : Nat) : Bool :=
  match t.deadlineAt with
  | none => false
  | some deadline => deadline < now

/-- Whether the task has outlived the time it may occupy its iteration. -/
def isLifetimeExpiredAt (t : Task) (now : Nat) : Bool :=
  match t.lifetimeDeadlineAt with
  | none => false
  | some deadline => deadline < now

def isCompleted (t : Task) : Bool := t.status = .completed

def isFailed (t : Task) : Bool := t.status = .failed

def isStarted (t : Task) : Bool := t.status = .started

def isBlocked (t : Task) : Bool := t.status = .blocked

def isSkipped (t : Task) : Bool := t.skipCause.isSome

/-- What the task ended as, or nothing while it can still be executed. -/
def resolution (t : Task) : Option TaskResolution :=
  match t.status with
  | .completed => some .completed
  | .failed => some .failed
  | .skipped _ => some .skipped
  | .todo | .blocked | .started => none

def isResolved (t : Task) : Bool := t.resolution.isSome

theorem resolution_eq_failed {t : Task} :
    t.resolution = some .failed ↔ t.status = .failed := by
  unfold resolution
  cases t.status <;> simp

/-- Whether the task failed and will never run again. -/
def isTerminallyFailedAt (t : Task) (now : Nat) : Bool :=
  t.isFailed &&
    (t.retry = .never || t.maxAttempts ≤ t.attempt || t.isLifetimeExpiredAt now)

/-- What a worker may do with this task at the moment {lit}`now`. -/
def checkAvailabilityAt (t : Task) (now : Nat) : TaskAvailability :=
  match t.status with
  | .todo => .pickable
  | .blocked | .completed | .skipped _ => .unavailable
  | .failed =>
      if t.isTerminallyFailedAt now then .unavailable
      else
        -- a failure that recorded no moment holds the retry back for nothing
        match t.completedAt.bind (checkedAdd · failedTaskRetryPause) with
        | none => .pickable
        | some retryAt => if now < retryAt then .awaitingRetry retryAt else .pickable
  | .started =>
      if t.isLifetimeExpiredAt now then .expiredPastLifetime
      else if t.isExpiredAt now then .pickable
      else .unavailable

def canBePickedUpAt (t : Task) (now : Nat) : Bool :=
  t.checkAvailabilityAt now = .pickable

/-- How {lit}`dependency` has settled for this task. -/
def judgeDependency (t dependency : Task) (now : Nat) : DependencyVerdict :=
  if dependency.isCompleted then .unblocked
  else if dependency.isTerminallyFailedAt now then
    if t.tolerance.allowsFailed then .unblocked else .skipped .failedDependency
  else
    match dependency.skipCause with
    | some cause =>
        if t.tolerance.allowsSkipped then .unblocked
        else if cause.carriesFailure then .skipped .failedDependency
        else .skipped .skippedDependency
    | none => .blocked

/-! ## State mutations -/

/-- Release a blocked task. -/
def unblock (t : Task) : Task :=
  if t.status = .blocked then { t with status := .todo } else t

/-- Hand the task to {lit}`worker`, placing the deadline of that ownership and, on
the first start, the moment the task's lifetime expires. -/
def start (t : Task) (worker : Uuid) (now : Nat) : Except JobError Task :=
  match t.checkAvailabilityAt now with
  | .awaitingRetry retryAt =>
      .error (.other
        s!"cannot start task (id: {t.id}; code: {t.code}): it awaits its retry until {retryAt}")
  | .expiredPastLifetime | .unavailable =>
      if t.processingByWorker ≠ some worker then .error .taskWorkerMismatch
      else
        .error (.other
          (s!"cannot start task (id: {t.id}; code: {t.code}; status: {t.status.debugText}; " ++
            s!"deadline at: {debugMoment t.deadlineAt})"))
  | .pickable =>
      match t.lifetimeDeadlineAt.or (checkedAdd now t.maxLifetime),
          checkedAdd now t.timeout with
      | some lifetimeDeadlineAt, some timeoutDeadlineAt =>
          .ok { t with
            status := .started
            processingByWorker := some worker
            startedAt := some now
            deadlineAt := some (min timeoutDeadlineAt lifetimeDeadlineAt)
            lifetimeDeadlineAt := some lifetimeDeadlineAt
            -- a task already started is reached by a takeover, which spends no attempt
            attempt := if t.isStarted then t.attempt else t.attempt + 1 }
      | _, _ =>
          .error (.other
            (s!"cannot start task (id: {t.id}; code: {t.code}): its timeout of " ++
              s!"{numMilliseconds t.timeout} ms or its maximum lifetime of " ++
              s!"{numMilliseconds t.maxLifetime} ms falls outside the range of dates"))

/-- Store {lit}`output` as the task's result. -/
def complete (t : Task) (output : Bytes) (now : Nat) : Except JobError Task :=
  if t.status ≠ .started then
    .error (.other
      s!"cannot complete task (id: {t.id}; code: {t.code}) with status {t.status.debugText}")
  else if t.isLifetimeExpiredAt now then
    .error (.other
      (s!"cannot complete task (id: {t.id}; code: {t.code}): it outlived its maximum lifetime " ++
        s!"of {numMilliseconds t.maxLifetime} ms"))
  else
    .ok { t with output := output, status := .completed, completedAt := some now }

/-- End the task without running it to a result, recording why. -/
def skip (t : Task) (reason : String) (cause : SkipCause) (now : Nat) :
    Except JobError Task :=
  if t.status ≠ .started ∧ t.status ≠ .blocked then
    .error (.other
      s!"cannot skip task (id: {t.id}; code: {t.code}) with status {t.status.debugText}")
  else if t.isStarted && t.isLifetimeExpiredAt now then
    .error (.other
      (s!"cannot skip task (id: {t.id}; code: {t.code}): it outlived its maximum lifetime of " ++
        s!"{numMilliseconds t.maxLifetime} ms"))
  else
    .ok { t with
      resolutionReason := reason, status := .skipped cause, completedAt := some now }

/-- Record a refusal of the executor, and whether it is one worth repeating. -/
def fail (t : Task) (errorMsg : String) (retry : TaskRetry) (now : Nat) :
    Except JobError Task :=
  if t.status ≠ .started then
    .error (.other
      s!"cannot fail task (id: {t.id}; code: {t.code}) with status {t.status.debugText}")
  else
    .ok { t with
      resolutionReason := errorMsg, retry := retry, status := .failed,
      completedAt := some now }

/-! ## What the operations assign -/

/-- The task after an accepted {lit}`complete`. -/
def completedWith (t : Task) (output : Bytes) (now : Nat) : Task :=
  { t with output := output, status := .completed, completedAt := some now }

/-- The task after an accepted {lit}`skip`. -/
def skippedWith (t : Task) (reason : String) (cause : SkipCause) (now : Nat) : Task :=
  { t with resolutionReason := reason, status := .skipped cause, completedAt := some now }

/-- The task after an accepted {lit}`fail`. -/
def failedWith (t : Task) (errorMsg : String) (retry : TaskRetry) (now : Nat) : Task :=
  { t with
    resolutionReason := errorMsg, retry := retry, status := .failed,
    completedAt := some now }

/-- A completion is taken of a task that runs within its lifetime. -/
theorem complete_eq_ok {t t' : Task} {output : Bytes} {now : Nat} :
    t.complete output now = .ok t' ↔
      t.status = .started ∧ t.isLifetimeExpiredAt now = false ∧
        t' = t.completedWith output now := by
  constructor
  · intro h
    unfold complete at h
    split at h <;> rename_i hs
    · cases h
    · split at h <;> rename_i hl
      · cases h
      · cases h
        exact ⟨not_not.mp hs, by simpa using hl, rfl⟩
  · rintro ⟨hs, hl, rfl⟩
    simp [complete, completedWith, hs, hl]

/-- A skip is taken of such a task, and of a blocked one. -/
theorem skip_eq_ok {t t' : Task} {reason : String} {cause : SkipCause} {now : Nat} :
    t.skip reason cause now = .ok t' ↔
      ((t.status = .started ∧ t.isLifetimeExpiredAt now = false) ∨
        t.status = .blocked) ∧ t' = t.skippedWith reason cause now := by
  constructor
  · intro h
    unfold skip at h
    split at h <;> rename_i hs
    · cases h
    · split at h <;> rename_i hl
      · cases h
      · cases h
        refine ⟨?_, rfl⟩
        by_cases hstarted : t.status = .started
        · exact Or.inl ⟨hstarted, by simpa [isStarted, hstarted] using hl⟩
        · exact Or.inr (by tauto)
  · rintro ⟨⟨hs, hl⟩ | hb, rfl⟩
    · simp [skip, skippedWith, hs, hl]
    · simp [skip, skippedWith, isStarted, hb]

/-- A failure is taken of every task that runs. -/
theorem fail_eq_ok {t t' : Task} {errorMsg : String} {retry : TaskRetry} {now : Nat} :
    t.fail errorMsg retry now = .ok t' ↔
      t.status = .started ∧ t' = t.failedWith errorMsg retry now := by
  constructor
  · intro h
    unfold fail at h
    split at h <;> rename_i hs
    · cases h
    · cases h
      exact ⟨not_not.mp hs, rfl⟩
  · rintro ⟨hs, rfl⟩
    simp [fail, failedWith, hs]

/-- An accepted start found the task pickable and hands it to the worker with a
deadline no later than the lifetime, which the first start alone places. -/
theorem start_eq_ok {t t' : Task} {worker : Uuid} {now : Nat}
    (h : t.start worker now = .ok t') :
    t.canBePickedUpAt now = true ∧
      ∃ lifetimeDeadline timeoutDeadline,
        t.lifetimeDeadlineAt.or (checkedAdd now t.maxLifetime) = some lifetimeDeadline ∧
        checkedAdd now t.timeout = some timeoutDeadline ∧
        t' = { t with
          status := .started
          processingByWorker := some worker
          startedAt := some now
          deadlineAt := some (min timeoutDeadline lifetimeDeadline)
          lifetimeDeadlineAt := some lifetimeDeadline
          attempt := if t.isStarted then t.attempt else t.attempt + 1 } := by
  unfold start at h
  unfold canBePickedUpAt
  split at h
  · cases h
  · split at h <;> cases h
  · split at h <;> cases h
  · rename_i havailable
    split at h
    · rename_i lifetimeDeadline timeoutDeadline hlifetime htimeout
      cases h
      exact ⟨by simp [havailable], lifetimeDeadline, timeoutDeadline, hlifetime, htimeout, rfl⟩
    · cases h

/-- A task to do can be started whenever its deadlines can be told. -/
theorem start_of_todo {t : Task} (hs : t.status = .todo) (worker : Uuid) {now : Nat}
    (hlifetime : now + t.maxLifetime ≤ maxMoment) (htimeout : now + t.timeout ≤ maxMoment) :
    ∃ t', t.start worker now = .ok t' := by
  have hpick : t.checkAvailabilityAt now = .pickable := by simp [checkAvailabilityAt, hs]
  have htimeout' := checkedAdd_eq_some.mpr ⟨rfl, htimeout⟩
  have hlifetime' := checkedAdd_eq_some.mpr ⟨rfl, hlifetime⟩
  unfold start
  rw [hpick, htimeout', hlifetime']
  cases t.lifetimeDeadlineAt with
  | none => exact ⟨_, rfl⟩
  | some deadline => exact ⟨_, rfl⟩

/-! ## Monotonicity in the clock -/

/-- A task has expired once its deadline is past. -/
theorem isExpiredAt_eq_true {t : Task} {now : Nat} :
    t.isExpiredAt now = true ↔ ∃ d, t.deadlineAt = some d ∧ d < now := by
  unfold isExpiredAt
  split <;> rename_i h <;> simp [h]

/-- And has outlived its lifetime once that one's is. -/
theorem isLifetimeExpiredAt_eq_true {t : Task} {now : Nat} :
    t.isLifetimeExpiredAt now = true ↔ ∃ d, t.lifetimeDeadlineAt = some d ∧ d < now := by
  unfold isLifetimeExpiredAt
  split <;> rename_i h <;> simp [h]

theorem isLifetimeExpiredAt_mono {t : Task} {now later : Nat} (hle : now ≤ later)
    (h : t.isLifetimeExpiredAt now = true) : t.isLifetimeExpiredAt later = true := by
  rw [isLifetimeExpiredAt_eq_true] at h ⊢
  rcases h with ⟨d, hd, hlt⟩
  exact ⟨d, hd, by omega⟩

/-- A failed task is failed for good where nothing will retry it. -/
theorem isTerminallyFailedAt_eq_true {t : Task} {now : Nat} :
    t.isTerminallyFailedAt now = true ↔
      t.status = .failed ∧
        (t.retry = .never ∨ t.maxAttempts ≤ t.attempt ∨
          t.isLifetimeExpiredAt now = true) := by
  simp [isTerminallyFailedAt, isFailed, or_assoc]

/-- A terminal failure stays terminal as the clock advances. -/
theorem isTerminallyFailedAt_mono {t : Task} {now later : Nat} (hle : now ≤ later)
    (h : t.isTerminallyFailedAt now = true) : t.isTerminallyFailedAt later = true := by
  rw [isTerminallyFailedAt_eq_true] at h ⊢
  rcases h with ⟨hfailed, h | h | h⟩
  · exact ⟨hfailed, Or.inl h⟩
  · exact ⟨hfailed, Or.inr (Or.inl h)⟩
  · exact ⟨hfailed, Or.inr (Or.inr (isLifetimeExpiredAt_mono hle h))⟩

theorem skipCause_eq_some {t : Task} {cause : SkipCause} :
    t.skipCause = some cause ↔ t.status = .skipped cause := by
  unfold skipCause
  split <;> simp_all

/-- The three ways a dependency stops holding a task back. -/
theorem judgeDependency_eq_unblocked {t d : Task} {now : Nat} :
    t.judgeDependency d now = .unblocked ↔
      d.status = .completed ∨
        (d.isTerminallyFailedAt now = true ∧ t.tolerance.allowsFailed = true) ∨
        (t.tolerance.allowsSkipped = true ∧ ∃ cause, d.status = .skipped cause) := by
  unfold judgeDependency isCompleted skipCause isTerminallyFailedAt isFailed
  cases hs : d.status <;> simp_all <;> grind

/-- The two ways a dependency puts a task out. -/
theorem judgeDependency_eq_skipped {t d : Task} {now : Nat} {cause : SkipCause} :
    t.judgeDependency d now = .skipped cause ↔
      (d.isTerminallyFailedAt now = true ∧ t.tolerance.allowsFailed = false ∧
          cause = .failedDependency) ∨
        (t.tolerance.allowsSkipped = false ∧ ∃ c, d.status = .skipped c ∧
          cause = if c.carriesFailure then .failedDependency else .skippedDependency) := by
  unfold judgeDependency isCompleted skipCause isTerminallyFailedAt isFailed
  cases hs : d.status <;> simp_all <;> grind

theorem isResolved_eq_true {t : Task} :
    t.isResolved = true ↔
      t.status = .completed ∨ t.status = .failed ∨ ∃ cause, t.status = .skipped cause := by
  unfold isResolved resolution
  cases t.status <;> simp

/-- Only a dependency that was resolved can release a task or put it out. -/
theorem isResolved_of_judgeDependency {t d : Task} {now : Nat}
    (h : t.judgeDependency d now ≠ .blocked) : d.isResolved = true := by
  rw [isResolved_eq_true]
  unfold judgeDependency isCompleted isTerminallyFailedAt isFailed skipCause at h
  cases hs : d.status <;> simp_all

/-- A dependency that no longer holds a task back does not start to again. -/
theorem judgeDependency_unblocked_mono {t d : Task} {now later : Nat} (hle : now ≤ later)
    (h : t.judgeDependency d now = .unblocked) :
    t.judgeDependency d later = .unblocked := by
  rw [judgeDependency_eq_unblocked] at h ⊢
  rcases h with h | ⟨hterm, htol⟩ | h
  · exact Or.inl h
  · exact Or.inr (Or.inl ⟨isTerminallyFailedAt_mono hle hterm, htol⟩)
  · exact Or.inr (Or.inr h)

/-- Nor does one that put a task out take that back. -/
theorem judgeDependency_skipped_mono {t d : Task} {now later : Nat} {cause : SkipCause}
    (hle : now ≤ later) (h : t.judgeDependency d now = .skipped cause) :
    t.judgeDependency d later = .skipped cause := by
  rw [judgeDependency_eq_skipped] at h ⊢
  rcases h with ⟨hterm, hrest⟩ | h
  · exact Or.inl ⟨isTerminallyFailedAt_mono hle hterm, hrest⟩
  · exact Or.inr h

/-- The states a worker may start a task from. -/
theorem canBePickedUpAt_cases {t : Task} {now : Nat} (h : t.canBePickedUpAt now = true) :
    t.status = .todo ∨
      (t.status = .failed ∧ t.isTerminallyFailedAt now = false) ∨
      (t.status = .started ∧ t.isLifetimeExpiredAt now = false ∧
        t.isExpiredAt now = true) := by
  unfold canBePickedUpAt checkAvailabilityAt at h
  cases hs : t.status with
  | todo => exact Or.inl rfl
  | blocked => simp [hs] at h
  | completed => simp [hs] at h
  | skipped cause => simp [hs] at h
  | failed =>
      right; left
      refine ⟨rfl, ?_⟩
      cases hterm : t.isTerminallyFailedAt now
      · rfl
      · simp [hs, hterm] at h
  | started =>
      right; right
      cases hl : t.isLifetimeExpiredAt now
      · cases he : t.isExpiredAt now
        · simp [hs, hl, he] at h
        · exact ⟨rfl, rfl, rfl⟩
      · simp [hs, hl] at h

/-- Only a started task outlives its lifetime; any other state is unavailable or still
to be picked up. -/
theorem checkAvailabilityAt_eq_expiredPastLifetime {t : Task} {now : Nat} :
    t.checkAvailabilityAt now = .expiredPastLifetime ↔
      t.status = .started ∧ t.isLifetimeExpiredAt now = true := by
  unfold checkAvailabilityAt
  cases hs : t.status with
  | todo => simp
  | blocked => simp
  | completed => simp
  | skipped cause => simp
  | failed =>
      simp only [reduceCtorEq, false_and, iff_false]
      split
      · simp
      · split
        · simp
        · split <;> simp
  | started =>
      cases hl : t.isLifetimeExpiredAt now
      · cases t.isExpiredAt now <;> simp
      · simp

/-- A failed task that is not terminal is to be picked up now or after its pause. -/
theorem checkAvailabilityAt_of_failed {t : Task} {now : Nat} (hs : t.status = .failed)
    (hterm : t.isTerminallyFailedAt now = false) :
    t.checkAvailabilityAt now = .pickable ∨
      ∃ retryAt, t.checkAvailabilityAt now = .awaitingRetry retryAt := by
  unfold checkAvailabilityAt
  rw [hs]
  simp only [hterm, Bool.false_eq_true, if_false]
  split
  · exact Or.inl rfl
  · rename_i retryAt _
    split
    · exact Or.inr ⟨retryAt, rfl⟩
    · exact Or.inl rfl

end Task

end JobManager
