import JobManager.Core.Job
import JobManager.Library.OrderedIndex
import Mathlib.Data.String.Basic

/-!
# The poll schedule of a pool

When each job of a pool is polled next and which jobs a worker is passing over.  A
job waits in the due queue, is claimed by one worker, or is exhausted; what a task
start and an execution end report moves it between the three.  A moment of the
monotonic clock and a duration count nanoseconds.  The clocks and the random
generator are never read inside a definition: a function that reads them takes the
readings as an argument.

Main results:

- Theorem {lit}`JobPoll.release_recorded`: what a release makes of a job for which
  execution ends were recorded under the claim.
- Theorem {lit}`PollScheduler.transitionJob_known`: a transition of a job on the
  schedule changes that job and the position of its entry, and is never refused.
-/

namespace JobManager

/-- Job identifier. -/
abbrev JobCode := String

/-- What a call reads of its surroundings: the monotonic clock, the system clock and
one draw of the random generator. -/
structure Reading where
  now : Nat
  utc : Nat
  draw : Nat
deriving DecidableEq

/-! ## Polling settings -/

/-- Longest interval a pool accepts, either as its base or as its backoff ceiling. -/
def longestAcceptedPollInterval : Nat := 365 * 24 * 60 * 60 * 1000000000

/-- Polling settings of a schedule, each checked as it is set. -/
structure PollSchedulerConfig where
  pollInterval : Nat
  pollJitter : Nat
  maxPollInterval? : Option Nat
  pollInterval_pos : 0 < pollInterval
  pollInterval_le : pollInterval ≤ longestAcceptedPollInterval
  ceiling_bounds : ∀ ceiling ∈ maxPollInterval?,
    pollInterval ≤ ceiling ∧ ceiling ≤ longestAcceptedPollInterval

namespace PollSchedulerConfig

/-- How many times above the base interval the backoff ceiling sits when no ceiling
was named. -/
def defaultMaxPollIntervalFactor : Nat := 10

/-- Settings a pool polls by unless one of them is replaced. -/
def new : PollSchedulerConfig where
  pollInterval := milliseconds 200
  pollJitter := milliseconds 50
  maxPollInterval? := none
  pollInterval_pos := by decide
  pollInterval_le := by decide
  ceiling_bounds := by simp

/-- Replace the interval a job is polled at after a task start that moved it. -/
def withPollInterval (config : PollSchedulerConfig) (interval : Nat) :
    Except Error PollSchedulerConfig :=
  if hzero : interval = 0 then
    .error (.other "poll interval must be positive")
  else if hlong : longestAcceptedPollInterval < interval then
    .error (.other "poll interval must not exceed a year")
  else if hceiling : ∃ ceiling ∈ config.maxPollInterval?, ceiling < interval then
    .error (.other "max poll interval must not be below the poll interval")
  else
    .ok
      { config with
        pollInterval := interval
        pollInterval_pos := Nat.pos_of_ne_zero hzero
        pollInterval_le := Nat.le_of_not_lt hlong
        ceiling_bounds := fun ceiling h =>
          ⟨Nat.le_of_not_lt fun hlt => hceiling ⟨ceiling, h, hlt⟩,
            (config.ceiling_bounds ceiling h).2⟩ }

/-- Replace the upper bound of the random delay. -/
def withPollJitter (config : PollSchedulerConfig) (jitter : Nat) : PollSchedulerConfig :=
  { config with pollJitter := jitter }

/-- Replace the ceiling the poll interval backs off to while there is no work. -/
def withMaxPollInterval (config : PollSchedulerConfig) (ceiling : Nat) :
    Except Error PollSchedulerConfig :=
  if hlow : ceiling < config.pollInterval then
    .error (.other "max poll interval must not be below the poll interval")
  else if hlong : longestAcceptedPollInterval < ceiling then
    .error (.other "max poll interval must not exceed a year")
  else
    .ok
      { config with
        maxPollInterval? := some ceiling
        ceiling_bounds := by
          intro c hc
          cases hc
          exact ⟨Nat.le_of_not_lt hlow, Nat.le_of_not_lt hlong⟩ }

/-- The backoff ceiling: the one named, or a multiple of the base interval. -/
def maxPollInterval (config : PollSchedulerConfig) : Nat :=
  config.maxPollInterval?.getD (config.pollInterval * defaultMaxPollIntervalFactor)

end PollSchedulerConfig

/-! ## What a worker reports -/

/-- A task whose start was written, with the state that write stored. -/
structure StartedTask where
  job : Job
  taskId : Uuid

/-- What the state an execution ended with leaves of the job's iteration. -/
inductive ExecutionEnd where
  | iterationClosed (next : NextIterationStatus)
  | taskEnded (hasPickableTaskLeft : Bool)
deriving DecidableEq

/-- How a task start ended. -/
inductive TaskStart where
  | started (startedTask : StartedTask) (hasPickableTaskLeft : Bool)
  | noTaskAvailable (retryAt : Option Nat)
  | iterationClosed (next : NextIterationStatus)
  | lostToAnotherWorker
  | stalled

/-- The task whose start was written, if one was. -/
def TaskStart.intoStartedTask : TaskStart → Option StartedTask
  | .started startedTask _ => some startedTask
  | .noTaskAvailable _ | .iterationClosed _ | .lostToAnotherWorker | .stalled => none

/-- What the last state a worker read or wrote says about when polling the job again
can change anything. -/
inductive JobProgress where
  | iterationsEnded
  | nextIterationDueAt (dueAt : Nat)
  | taskPickable
  | retryDueAt (retryAt : Nat)
  | nothingPickable
  | stalled
deriving DecidableEq

namespace JobProgress

def fromTasksLeft (hasPickableTaskLeft : Bool) : JobProgress :=
  if hasPickableTaskLeft then .taskPickable else .nothingPickable

/-- What a task start says, read at the system moment {lit}`utc`. -/
def fromTaskStart (utc : Nat) : TaskStart → JobProgress
  | .started _ hasPickableTaskLeft => fromTasksLeft hasPickableTaskLeft
  | .iterationClosed .budgetSpent => .iterationsEnded
  | .iterationClosed (.dueAt dueAt) => .nextIterationDueAt dueAt
  | .iterationClosed .ready => .nextIterationDueAt utc
  -- Nothing to wait for and nothing terminal: the ordinary backoff.
  | .iterationClosed .unscheduled => .stalled
  | .lostToAnotherWorker => .nothingPickable
  | .noTaskAvailable (some retryAt) => .retryDueAt retryAt
  | .noTaskAvailable none | .stalled => .stalled

/-- What an execution end says; nothing stands for an execution that ended without a
state. -/
def fromJobExecution : Option ExecutionEnd → JobProgress
  | none => .nothingPickable
  | some (.taskEnded hasPickableTaskLeft) => fromTasksLeft hasPickableTaskLeft
  | some (.iterationClosed .budgetSpent) => .iterationsEnded
  | some (.iterationClosed (.dueAt dueAt)) => .nextIterationDueAt dueAt
  | some (.iterationClosed .ready) => .taskPickable
  | some (.iterationClosed .unscheduled) => .nothingPickable

/-- The progress of an execution end that closed the iteration and names when the next
one is due, or that none is. -/
def closesIteration : JobProgress → Bool
  | .iterationsEnded | .nextIterationDueAt _ => true
  | .taskPickable | .retryDueAt _ | .nothingPickable | .stalled => false

end JobProgress

/-! ## When a job is polled next -/

/-- When a job is polled next. -/
inductive PollDue where
  | at (moment : Nat)
  | never
deriving DecidableEq

/-- The poll that answers for both: `never` outweighs any moment, and of two moments
the earlier one wins. -/
def PollDue.merge : PollDue → PollDue → PollDue
  | .never, _ => .never
  | _, .never => .never
  | .at first, .at second => .at (min first second)

/-- The interval arithmetic of a pool's poll settings. -/
structure PollPolicy where
  config : PollSchedulerConfig

namespace PollPolicy

def baseInterval (policy : PollPolicy) : Nat := policy.config.pollInterval

/-- Interval for the poll after an idle task start: twice the last, capped. -/
def calculateBackedOffPollInterval (policy : PollPolicy) (lastPollInterval : Nat) : Nat :=
  min (lastPollInterval * 2) policy.config.maxPollInterval

/-- Time left until a system moment, capped at a year. -/
def calculateDurationUntil (r : Reading) (moment : Nat) : Nat :=
  min (moment - r.utc) longestAcceptedPollInterval

/-- Wait until a failed task may be started again, capped at the backoff ceiling. -/
def calculateRetryWait (policy : PollPolicy) (r : Reading) (retryAt : Nat) : Nat :=
  min (calculateDurationUntil r retryAt) policy.config.maxPollInterval

/-- A random share of the configured jitter. -/
def calculateJitter (policy : PollPolicy) (r : Reading) : Nat :=
  let maxJitterNanos := min policy.config.pollJitter (2 ^ 64 - 1)
  if maxJitterNanos = 0 then 0 else r.draw % maxJitterNanos

/-- The moment {lit}`wait` from now, spread by one draw of the jitter.  A zero wait is
due now and draws nothing. -/
def calculatePollAt (policy : PollPolicy) (r : Reading) (wait : Nat) : Nat :=
  if wait = 0 then r.now else r.now + wait + policy.calculateJitter r

end PollPolicy

/-! ## One job of the schedule -/

/-- Where a job of the schedule stands. -/
inductive JobSlot where
  | queued (pollAt : Nat)
  | claimed (overwrittenPollDue : Option PollDue)
  | exhausted
deriving DecidableEq

/-- When one job is polled next, and its backoff step. -/
structure JobPoll where
  pollInterval : Nat
  slot : JobSlot
deriving DecidableEq

namespace JobPoll

/-- The moment the job waits in the due queue under, if it is queued. -/
def queuedAt (job : JobPoll) : Option Nat :=
  match job.slot with
  | .queued pollAt => some pollAt
  | .claimed _ | .exhausted => none

def claim (job : JobPoll) : JobPoll := { job with slot := .claimed none }

/-- The poll a progress asks for, and the backoff step that answers for it. -/
def calculatePoll (job : JobPoll) (progress : JobProgress) (policy : PollPolicy)
    (r : Reading) : PollDue × Nat :=
  match progress with
  | .iterationsEnded => (.never, job.pollInterval)
  | .nextIterationDueAt dueAt =>
      (.at (policy.calculatePollAt r (PollPolicy.calculateDurationUntil r dueAt)),
        policy.baseInterval)
  | .taskPickable => (.at r.now, policy.baseInterval)
  | .retryDueAt retryAt =>
      (.at (policy.calculatePollAt r (policy.calculateRetryWait r retryAt)), policy.baseInterval)
  | .nothingPickable => (.at (policy.calculatePollAt r policy.baseInterval), policy.baseInterval)
  | .stalled =>
      let backedOffInterval := policy.calculateBackedOffPollInterval job.pollInterval
      (.at (policy.calculatePollAt r backedOffInterval), backedOffInterval)

def schedulePoll (job : JobPoll) (pollDue : PollDue) : JobPoll :=
  match pollDue with
  | .at pollAt => { job with slot := .queued pollAt }
  | .never => { job with slot := .exhausted }

/-- Give a claimed job back to the schedule.  Answers `false`, changing nothing, when
the job is not claimed. -/
def release (job : JobPoll) (progress : JobProgress) (policy : PollPolicy) (r : Reading) :
    Bool × JobPoll :=
  match job.slot with
  | .claimed overwrittenPollDue =>
      let (taskStartDue, taskStartPollInterval) := job.calculatePoll progress policy r
      match overwrittenPollDue with
      | none =>
          (true, { job with pollInterval := taskStartPollInterval }.schedulePoll taskStartDue)
      -- An execution ended meanwhile, so the step the task start would have doubled
      -- answers for nothing.
      | some overwrittenPollDue =>
          (true, { job with pollInterval := policy.baseInterval }.schedulePoll
            (taskStartDue.merge overwrittenPollDue))
  | .queued _ | .exhausted => (false, job)

/-- Record what the end of an execution asks for. -/
def reschedule (job : JobPoll) (progress : JobProgress) (policy : PollPolicy) (r : Reading) :
    JobPoll :=
  let requestedDue := (job.calculatePoll progress policy r).1
  match job.slot with
  | .exhausted => job
  | .claimed overwrittenPollDue =>
      { job with
        slot := .claimed (some (overwrittenPollDue.elim requestedDue fun recordedDue =>
          recordedDue.merge requestedDue)) }
  | .queued pollAt =>
      { job with pollInterval := policy.baseInterval }.schedulePoll
        (match progress with
        -- The execution closed the iteration: the task start of that task saw none of
        -- the state it wrote.
        | .iterationsEnded | .nextIterationDueAt _ => requestedDue
        | .taskPickable | .retryDueAt _ | .nothingPickable | .stalled =>
            (PollDue.at pollAt).merge requestedDue)

end JobPoll

/-! ## The schedule -/

/-- The right of one worker to prepare one job. -/
structure JobClaim where
  jobCode : JobCode
deriving DecidableEq

/-- A call naming a job the schedule cannot act on. -/
inductive ScheduleError where
  | unknownJob (jobCode : JobCode)
  | notClaimed (jobCode : JobCode)
deriving DecidableEq

/-- Display text of a schedule error. -/
def ScheduleError.toText : ScheduleError → String
  | .unknownJob jobCode => s!"job '{jobCode}' is not on the poll schedule"
  | .notClaimed jobCode => s!"job '{jobCode}' was released while it was not claimed"

/-- What one look at the schedule gives a pool that has a free worker. -/
inductive ClaimAttempt where
  | claimed (claim : JobClaim)
  | waitUntil (moment : Nat)
  | waitForPoolEvent
deriving DecidableEq

/-- The poll schedule of one pool: the jobs by their codes, and the queued ones by
their poll moments. -/
structure PollScheduler where
  policy : PollPolicy
  jobs : JobCode → Option JobPoll
  dueQueue : OrderedIndex Nat JobCode

namespace PollScheduler

/-- A schedule over the given jobs, every one of them due at once. -/
def new (jobCodes : List JobCode) (config : PollSchedulerConfig) (now : Nat) : PollScheduler where
  policy := ⟨config⟩
  jobs := fun code =>
    if code ∈ jobCodes then some ⟨config.pollInterval, .queued now⟩ else none
  dueQueue := (jobCodes.map fun code => toLex (now, code)).toFinset

/-- Apply a transition to the state of a job and move its entry in the due queue to
where the new state is queued. -/
def transitionJob {α : Type} (jobCode : JobCode)
    (transition : JobPoll → PollPolicy → α × JobPoll) : Mutation PollScheduler ScheduleError α :=
  fun s =>
    match s.jobs jobCode with
    | none => (.error (.unknownJob jobCode), s)
    | some job =>
        let (result, job') := transition job s.policy
        let moved := { s with jobs := Function.update s.jobs jobCode (some job') }
        if job.queuedAt = job'.queuedAt then
          (.ok result, moved)
        else
          (.ok result,
            { moved with
              dueQueue := (s.dueQueue.take jobCode job.queuedAt).place jobCode job'.queuedAt })

/-- Claim the earliest due job, or name when to look again. -/
def tryClaimDueJob (now : Nat) : Mutation PollScheduler ScheduleError ClaimAttempt := fun s =>
  match s.dueQueue.first with
  | none => (.ok .waitForPoolEvent, s)
  | some (pollAt, jobCode) =>
      if now < pollAt then
        (.ok (.waitUntil pollAt), s)
      else
        -- Taken off before the transition: an entry the transition refuses would
        -- otherwise stay first in the queue.
        (do
          let _ ← transitionJob jobCode fun job _ => ((), job.claim)
          return .claimed ⟨jobCode⟩ : Mutation PollScheduler ScheduleError ClaimAttempt)
        { s with dueQueue := s.dueQueue.erase (toLex (pollAt, jobCode)) }

/-- Move the poll of a job to where the end of an execution of one of its tasks says
polling can change anything again. -/
def rescheduleJob (jobCode : JobCode) (progress : JobProgress) (r : Reading) :
    Mutation PollScheduler ScheduleError Unit :=
  transitionJob jobCode fun job policy => ((), job.reschedule progress policy r)

/-- Return a claimed job to the schedule. -/
def releaseJob (claim : JobClaim) (progress : JobProgress) (r : Reading) :
    Mutation PollScheduler ScheduleError Unit := do
  let isReleased ← transitionJob claim.jobCode fun job policy => job.release progress policy r
  if isReleased then return () else Mutation.refuse (.notClaimed claim.jobCode)

end PollScheduler

/-! ## What the operations of one job do -/

namespace JobPoll

variable {job : JobPoll} {progress : JobProgress} {policy : PollPolicy} {r : Reading}

/-- A job is queued at the moment its slot names. -/
theorem queuedAt_eq_some_iff {pollAt : Nat} :
    job.queuedAt = some pollAt ↔ job.slot = .queued pollAt := by
  rw [queuedAt]
  cases job.slot with
  | queued at_ => simp
  | claimed due => simp
  | exhausted => simp

/-- What a job is scheduled for is where it stands, and its backoff step stays. -/
theorem schedulePoll_eq (job : JobPoll) (pollDue : PollDue) :
    job.schedulePoll pollDue =
      ⟨job.pollInterval, match pollDue with
        | .at pollAt => .queued pollAt
        | .never => .exhausted⟩ := by
  cases pollDue <;> rfl

/-- A job whose poll is scheduled is not claimed. -/
theorem not_claimed_schedulePoll (job : JobPoll) (pollDue : PollDue) :
    ¬∃ recorded, (job.schedulePoll pollDue).slot = .claimed recorded := by
  rw [schedulePoll_eq]
  cases pollDue <;> simp

/-- A release is refused exactly when the job is not claimed. -/
theorem release_fst :
    (job.release progress policy r).1 = true ↔ ∃ due, job.slot = .claimed due := by
  rw [release]
  cases hslot : job.slot with
  | queued pollAt => simp
  | exhausted => simp
  | claimed due => cases due <;> simp

/-- A job claimed with no execution end recorded is scheduled for what the task start
asks for. -/
theorem release_unrecorded (hslot : job.slot = .claimed none) :
    (job.release progress policy r).2 =
      { job with pollInterval := (job.calculatePoll progress policy r).2 }.schedulePoll
        (job.calculatePoll progress policy r).1 := by
  simp only [release, hslot]

/-- A job claimed with execution ends recorded is scheduled for what answers for both,
from the base interval on. -/
theorem release_recorded {recorded : PollDue} (hslot : job.slot = .claimed (some recorded)) :
    (job.release progress policy r).2 =
      { job with pollInterval := policy.baseInterval }.schedulePoll
        ((job.calculatePoll progress policy r).1.merge recorded) := by
  simp only [release, hslot]

/-- An exhausted job stays so. -/
theorem reschedule_exhausted (hslot : job.slot = .exhausted) :
    job.reschedule progress policy r = job := by
  rw [reschedule, hslot]

/-- A claimed job records the poll it was asked for, merged with what it had recorded. -/
theorem reschedule_claimed {due : Option PollDue} (hslot : job.slot = .claimed due) :
    job.reschedule progress policy r =
      ⟨job.pollInterval, .claimed (some (due.elim (job.calculatePoll progress policy r).1
        fun recorded => recorded.merge (job.calculatePoll progress policy r).1))⟩ := by
  simp only [reschedule, hslot]

/-- A queued job is polled no later than asked. -/
theorem reschedule_queued {pollAt : Nat} (hslot : job.slot = .queued pollAt) :
    job.reschedule progress policy r =
      { job with pollInterval := policy.baseInterval }.schedulePoll
        (if progress.closesIteration then (job.calculatePoll progress policy r).1
        else (PollDue.at pollAt).merge (job.calculatePoll progress policy r).1) := by
  simp only [reschedule, hslot]
  cases progress <;> rfl

end JobPoll

/-! ## What the operations of the schedule do -/

namespace PollScheduler

variable {s : PollScheduler} {code : JobCode} {job : JobPoll} {α : Type}

/-- The moment a job of the schedule is queued at. -/
def position (s : PollScheduler) (code : JobCode) : Option Nat :=
  (s.jobs code).bind JobPoll.queuedAt

/-- Where a job of the schedule stands. -/
def slot (s : PollScheduler) (code : JobCode) : Option JobSlot :=
  (s.jobs code).map JobPoll.slot

/-- The index holds the queued jobs. -/
theorem position_eq_some_iff {pollAt : Nat} :
    s.position code = some pollAt ↔ s.slot code = some (.queued pollAt) := by
  rw [position, slot]
  cases s.jobs code with
  | none => simp
  | some job => simp [JobPoll.queuedAt_eq_some_iff]

/-- A job that is not on the list is refused. -/
theorem transitionJob_unknown {transition : JobPoll → PollPolicy → α × JobPoll}
    (hjob : s.jobs code = none) :
    transitionJob code transition s = (.error (.unknownJob code), s) := by
  rw [transitionJob, hjob]

/-- A transition of a job on the schedule changes that job and the due queue alone, and
is never refused. -/
theorem transitionJob_known (transition : JobPoll → PollPolicy → α × JobPoll)
    (hjob : s.jobs code = some job) :
    ∃ dueQueue, transitionJob code transition s =
      (.ok (transition job s.policy).1,
        { s with
          jobs := Function.update s.jobs code (some (transition job s.policy).2)
          dueQueue := dueQueue }) := by
  rw [transitionJob, hjob]
  by_cases hat : job.queuedAt = (transition job s.policy).2.queuedAt
  · exact ⟨s.dueQueue, by simp [hat]⟩
  · exact ⟨(s.dueQueue.take code job.queuedAt).place code (transition job s.policy).2.queuedAt,
      by simp [hat]⟩

/-- A transition keeps the due queue exact.  The entry of the job itself may be missing
beforehand when the transition moves it. -/
theorem transitionJob_indexes (transition : JobPoll → PollPolicy → α × JobPoll)
    (hjob : s.jobs code = some job)
    (hother : ∀ t k, k ≠ code → (toLex (t, k) ∈ s.dueQueue ↔ s.position k = some t))
    (hself : ∀ t, toLex (t, code) ∈ s.dueQueue → s.position code = some t)
    (hstays : job.queuedAt = (transition job s.policy).2.queuedAt →
      s.dueQueue.Indexes s.position) :
    (transitionJob code transition s).2.dueQueue.Indexes
      (transitionJob code transition s).2.position := by
  have hposition : s.position code = job.queuedAt := by
    rw [position, hjob]
    rfl
  have hnew : ∀ dueQueue, PollScheduler.position
      { s with
        jobs := Function.update s.jobs code (some (transition job s.policy).2)
        dueQueue := dueQueue } =
      Function.update s.position code (transition job s.policy).2.queuedAt := by
    intro dueQueue
    funext k
    by_cases hk : k = code
    · subst hk
      simp [position]
    · simp [position, hk]
  rw [transitionJob, hjob]
  by_cases hat : job.queuedAt = (transition job s.policy).2.queuedAt
  · simp only [hat, ↓reduceIte]
    rw [hnew, ← hat, ← hposition, Function.update_eq_self]
    exact hstays hat
  · simp only [hat, ↓reduceIte]
    rw [hnew, ← hposition]
    exact OrderedIndex.Indexes.move hother hself _

end PollScheduler

end JobManager
