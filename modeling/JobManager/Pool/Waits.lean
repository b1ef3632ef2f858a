import JobManager.Pool.Polling

/-!
# The waits between two polls

The poll interval of a job doubles while there is no work and falls back to the base
interval when there is; jobs name moments of their own, which pass no check.  The settings
bound both: an interval stays between the base interval and the backoff ceiling, and no
poll is asked for further away than the ceiling or a year, whichever is longer, and one
draw of the jitter.  The machine's durations and instants have an end, past which a product
or a sum panics; none is reached.

Main results:

- Theorem {lit}`reachable_waitInv`: the interval of every job stays between the base and
  the ceiling in every run.
- Theorem {lit}`poll_waits_bounded`: which moments a poll is asked for in every run, and that
  the arithmetic behind it does not overflow.
-/

namespace JobManager

/-! ## Arithmetic that can overflow -/

/-- Which operation panicked. -/
inductive Overflow where
  | duration
  | instant
deriving DecidableEq

/-- Multiply a duration, which must not leave the range of durations. -/
def multiplyDuration (duration factor : Nat) : Except Overflow Nat :=
  if duration * factor ≤ stdDurationMax then .ok (duration * factor) else .error .duration

/-- Add a duration to an instant of a clock that counts to {lit}`latest`. -/
def addToInstant (latest instant duration : Nat) : Except Overflow Nat :=
  if instant + duration ≤ latest then .ok (instant + duration) else .error .instant

/-- The backoff ceiling.  The multiple of the base interval is computed even where a ceiling
was named. -/
def PollSchedulerConfig.checkedMaxPollInterval (config : PollSchedulerConfig) :
    Except Overflow Nat := do
  let derived ← multiplyDuration config.pollInterval defaultMaxPollIntervalFactor
  return config.maxPollInterval?.getD derived

namespace PollPolicy

def checkedBackedOffPollInterval (policy : PollPolicy) (lastPollInterval : Nat) :
    Except Overflow Nat := do
  let doubled ← multiplyDuration lastPollInterval 2
  let ceiling ← policy.config.checkedMaxPollInterval
  return min doubled ceiling

def checkedRetryWait (policy : PollPolicy) (r : Reading) (retryAt : Nat) :
    Except Overflow Nat := do
  let ceiling ← policy.config.checkedMaxPollInterval
  return min (calculateDurationUntil r retryAt) ceiling

def checkedPollAt (policy : PollPolicy) (latest : Nat) (r : Reading) (wait : Nat) :
    Except Overflow Nat :=
  if wait = 0 then .ok r.now
  else do
    let waited ← addToInstant latest r.now wait
    addToInstant latest waited (policy.calculateJitter r)

end PollPolicy

/-- The poll a progress asks for, every product and sum checked. -/
def JobPoll.checkedPoll (job : JobPoll) (progress : JobProgress) (policy : PollPolicy)
    (latest : Nat) (r : Reading) : Except Overflow (PollDue × Nat) :=
  match progress with
  | .iterationsEnded => .ok (.never, job.pollInterval)
  | .nextIterationDueAt dueAt => do
      let pollAt ← policy.checkedPollAt latest r (PollPolicy.calculateDurationUntil r dueAt)
      return (.at pollAt, policy.baseInterval)
  | .taskPickable => .ok (.at r.now, policy.baseInterval)
  | .retryDueAt retryAt => do
      let wait ← policy.checkedRetryWait r retryAt
      let pollAt ← policy.checkedPollAt latest r wait
      return (.at pollAt, policy.baseInterval)
  | .nothingPickable => do
      let pollAt ← policy.checkedPollAt latest r policy.baseInterval
      return (.at pollAt, policy.baseInterval)
  | .stalled => do
      let backedOffInterval ← policy.checkedBackedOffPollInterval job.pollInterval
      let pollAt ← policy.checkedPollAt latest r backedOffInterval
      return (.at pollAt, backedOffInterval)

/-! ## What the settings bound -/

namespace PollSchedulerConfig

variable (config : PollSchedulerConfig)

/-- The backoff ceiling is not below the base interval, named or derived. -/
theorem pollInterval_le_maxPollInterval : config.pollInterval ≤ config.maxPollInterval := by
  rw [maxPollInterval]
  cases hnamed : config.maxPollInterval? with
  | none =>
      rw [Option.getD_none, defaultMaxPollIntervalFactor]
      omega
  | some ceiling => exact (config.ceiling_bounds ceiling hnamed).1

/-- The longest interval stays within what the type of a duration holds. -/
theorem maxPollInterval_le :
    config.maxPollInterval ≤ longestAcceptedPollInterval * defaultMaxPollIntervalFactor := by
  rw [maxPollInterval]
  cases hnamed : config.maxPollInterval? with
  | none => exact Nat.mul_le_mul_right _ config.pollInterval_le
  | some ceiling =>
      have hle := (config.ceiling_bounds ceiling hnamed).2
      rw [Option.getD_some, defaultMaxPollIntervalFactor]
      omega

/-- Computing it never overflows. -/
theorem checkedMaxPollInterval_eq : config.checkedMaxPollInterval = .ok config.maxPollInterval := by
  have hfits : config.pollInterval * defaultMaxPollIntervalFactor ≤ stdDurationMax :=
    calc config.pollInterval * defaultMaxPollIntervalFactor
        ≤ longestAcceptedPollInterval * defaultMaxPollIntervalFactor :=
          Nat.mul_le_mul_right _ config.pollInterval_le
      _ ≤ stdDurationMax := by decide
  rw [checkedMaxPollInterval, multiplyDuration, if_pos hfits]
  rfl

end PollSchedulerConfig

/-! ## The interval of one job -/

/-- The interval of a job is one the backoff can leave. -/
def JobPoll.WithinBackoff (policy : PollPolicy) (job : JobPoll) : Prop :=
  policy.baseInterval ≤ job.pollInterval ∧ job.pollInterval ≤ policy.config.maxPollInterval

namespace JobPoll

variable {job : JobPoll} {progress : JobProgress} {policy : PollPolicy} {r : Reading}

/-- The base interval is within the back-off. -/
theorem withinBackoff_base {slot : JobSlot} : WithinBackoff policy ⟨policy.baseInterval, slot⟩ :=
  ⟨Nat.le_refl _, policy.config.pollInterval_le_maxPollInterval⟩

/-- Queueing a poll leaves the interval alone. -/
theorem WithinBackoff.schedulePoll (h : job.WithinBackoff policy) (pollDue : PollDue) :
    (job.schedulePoll pollDue).WithinBackoff policy := by
  rw [schedulePoll_eq]
  exact h

/-- Whatever a task start or an execution end reports, the step it leaves is within bounds. -/
theorem WithinBackoff.calculatePoll (h : job.WithinBackoff policy) (slot : JobSlot) :
    WithinBackoff policy ⟨(job.calculatePoll progress policy r).2, slot⟩ := by
  cases progress with
  | iterationsEnded => exact h
  | nextIterationDueAt dueAt => exact withinBackoff_base
  | taskPickable => exact withinBackoff_base
  | retryDueAt retryAt => exact withinBackoff_base
  | nothingPickable => exact withinBackoff_base
  | stalled =>
      -- Twice the last step is not below the base interval, and the minimum caps it.
      have hbase := h.1
      have hceiling := policy.config.pollInterval_le_maxPollInterval
      constructor
      · refine Nat.le_min.mpr ⟨?_, hceiling⟩
        omega
      · exact Nat.min_le_right _ _

/-- Giving a job back keeps its interval within the back-off. -/
theorem WithinBackoff.release (h : job.WithinBackoff policy) {due : Option PollDue}
    (hslot : job.slot = .claimed due) : (job.release progress policy r).2.WithinBackoff policy := by
  cases due with
  | none =>
      rw [release_unrecorded hslot]
      exact WithinBackoff.schedulePoll (h.calculatePoll _) _
  | some recorded =>
      rw [release_recorded hslot]
      exact WithinBackoff.schedulePoll withinBackoff_base _

/-- And so does rescheduling it. -/
theorem WithinBackoff.reschedule (h : job.WithinBackoff policy) :
    (job.reschedule progress policy r).WithinBackoff policy := by
  cases hslot : job.slot with
  | exhausted =>
      rw [reschedule_exhausted hslot]
      exact h
  | claimed due =>
      rw [reschedule_claimed hslot]
      exact h
  | queued pollAt =>
      rw [reschedule_queued hslot]
      exact WithinBackoff.schedulePoll withinBackoff_base _

/-- Every move of a job leaves its interval within bounds. -/
theorem WithinBackoff.move {code : JobCode} {claims claims' : List JobClaim} {call : PollCall}
    {job' : JobPoll} (h : job.WithinBackoff policy)
    (hmove : PollMove policy code job claims call job' claims') : job'.WithinBackoff policy := by
  cases hmove with
  | claim _ _ => exact h
  | reschedule => exact h.reschedule
  | release hslot _ => exact h.release hslot

end JobPoll

/-! ## The intervals in every run -/

section Runs

variable {jobCodes : List JobCode} {config : PollSchedulerConfig} {start : Nat} {s : PollRun}

/-- The settings a schedule was assembled with stay, and so do the bounds they set. -/
structure WaitInv (config : PollSchedulerConfig) (s : PollRun) : Prop where
  policy : s.scheduler.policy = ⟨config⟩
  within : ∀ code job, s.scheduler.jobs code = some job → job.WithinBackoff ⟨config⟩

/-- Every job begins at the base interval. -/
theorem waitInv_initial (jobCodes : List JobCode) (config : PollSchedulerConfig) (start : Nat) :
    WaitInv config (.initial jobCodes config start) where
  policy := rfl
  within := by
    intro code job hjob
    simp only [PollRun.initial, PollScheduler.new] at hjob
    split at hjob
    · cases hjob
      exact JobPoll.withinBackoff_base
    · cases hjob

/-- Every call keeps the intervals within the back-off. -/
theorem WaitInv.step {call : PollCall} {s' : PollRun} (hwait : WaitInv config s)
    (hinv : PollInv jobCodes s) (h : s.step call = some s') : WaitInv config s' := by
  obtain ⟨-, -, hpolicy, ⟨-, hscheduler, -⟩ | ⟨code, job, job', hjob, hmove, hjobs⟩⟩ :=
    PollRun.step_cases hinv h
  · exact ⟨hpolicy.trans hwait.policy, by rw [hscheduler]; exact hwait.within⟩
  · refine ⟨hpolicy.trans hwait.policy, ?_⟩
    intro k found hfound
    rw [hwait.policy] at hmove
    rw [hjobs, Function.update_apply] at hfound
    split at hfound
    · cases hfound
      exact (hwait.within code job hjob).move hmove
    · exact hwait.within k found hfound

/-- The interval of every job stays between the base interval and the ceiling. -/
theorem reachable_waitInv (h : Reachable PollRun.step (.initial jobCodes config start) s) :
    WaitInv config s := by
  have hboth : PollInv jobCodes s ∧ WaitInv config s :=
    h.invariant (P := fun s => PollInv jobCodes s ∧ WaitInv config s)
      ⟨pollInv_initial jobCodes config start, waitInv_initial jobCodes config start⟩
      fun _ _ _ hs _ hstep => ⟨hs.1.step _ hstep, hs.2.step hs.1 hstep⟩
  exact hboth.2

end Runs

/-! ## The moment a poll is asked for -/

/-- The wait a progress asks for, if it asks for a poll at all. -/
def JobPoll.pollWait (job : JobPoll) (progress : JobProgress) (policy : PollPolicy) (r : Reading) :
    Option Nat :=
  match progress with
  | .iterationsEnded => none
  | .nextIterationDueAt dueAt => some (PollPolicy.calculateDurationUntil r dueAt)
  | .taskPickable => some 0
  | .retryDueAt retryAt => some (policy.calculateRetryWait r retryAt)
  | .nothingPickable => some policy.baseInterval
  | .stalled => some (policy.calculateBackedOffPollInterval job.pollInterval)

/-- The longest wait a schedule asks for: its ceiling, or a year. -/
def PollPolicy.longestWait (policy : PollPolicy) : Nat :=
  max policy.config.maxPollInterval longestAcceptedPollInterval

section Moments

variable {job : JobPoll} {progress : JobProgress} {policy : PollPolicy} {r : Reading} {wait : Nat}

/-- A poll is asked for after the wait, or never. -/
theorem JobPoll.calculatePoll_fst :
    (job.calculatePoll progress policy r).1 =
      match job.pollWait progress policy r with
      | none => .never
      | some wait => .at (policy.calculatePollAt r wait) := by
  cases progress <;> rfl

/-- No wait is longer than the longest. -/
theorem JobPoll.pollWait_le (h : job.pollWait progress policy r = some wait) :
    wait ≤ policy.longestWait := by
  have hceiling : policy.config.maxPollInterval ≤ policy.longestWait := Nat.le_max_left _ _
  have hyear : longestAcceptedPollInterval ≤ policy.longestWait := Nat.le_max_right _ _
  cases progress with
  | iterationsEnded => cases h
  | nextIterationDueAt dueAt =>
      cases h
      exact (Nat.min_le_right _ _).trans hyear
  | taskPickable =>
      cases h
      exact Nat.zero_le _
  | retryDueAt retryAt =>
      cases h
      exact (Nat.min_le_right _ _).trans hceiling
  | nothingPickable =>
      cases h
      exact policy.config.pollInterval_le_maxPollInterval.trans hceiling
  | stalled =>
      cases h
      exact (Nat.min_le_right _ _).trans hceiling

namespace PollPolicy

/-- A draw of the jitter is zero, or below the configured jitter. -/
theorem calculateJitter_lt (policy : PollPolicy) (r : Reading) :
    policy.calculateJitter r = 0 ∨ policy.calculateJitter r < policy.config.pollJitter := by
  simp only [calculateJitter]
  split <;> rename_i hzero
  · exact Or.inl rfl
  · have hdraw := Nat.mod_lt r.draw (Nat.pos_of_ne_zero hzero)
    exact Or.inr (hdraw.trans_le (Nat.min_le_left _ _))

/-- A poll lies ahead, by the wait and the jitter at most. -/
theorem le_calculatePollAt (policy : PollPolicy) (r : Reading) (wait : Nat) :
    r.now ≤ policy.calculatePollAt r wait ∧
      policy.calculatePollAt r wait ≤ r.now + wait + policy.calculateJitter r := by
  rw [calculatePollAt]
  split <;> omega

variable {latest : Nat}

/-- Adding jitter to a wait never overflows a duration. -/
theorem checkedPollAt_ne_duration : policy.checkedPollAt latest r wait ≠ .error .duration := by
  rw [checkedPollAt]
  split
  · simp
  · simp only [addToInstant]
    split
    · simp only [bind, Except.bind]
      split <;> simp
    · simp [bind, Except.bind]

/-- A poll the clock can reach is computed without an overflow. -/
theorem checkedPollAt_eq (hlatest : r.now + wait + policy.calculateJitter r ≤ latest) :
    policy.checkedPollAt latest r wait = .ok (policy.calculatePollAt r wait) := by
  rw [checkedPollAt, calculatePollAt]
  split
  · rfl
  · have hwaited : r.now + wait ≤ latest := by omega
    simp only [addToInstant, if_pos hwaited, bind, Except.bind, if_pos hlatest]

/-- And so is a backed-off interval. -/
theorem checkedBackedOffPollInterval_eq (hwithin : job.WithinBackoff policy) :
    policy.checkedBackedOffPollInterval job.pollInterval =
      .ok (policy.calculateBackedOffPollInterval job.pollInterval) := by
  have hfits : job.pollInterval * 2 ≤ stdDurationMax :=
    calc job.pollInterval * 2
        ≤ policy.config.maxPollInterval * 2 := Nat.mul_le_mul_right _ hwithin.2
      _ ≤ longestAcceptedPollInterval * PollSchedulerConfig.defaultMaxPollIntervalFactor * 2 :=
          Nat.mul_le_mul_right _ policy.config.maxPollInterval_le
      _ ≤ stdDurationMax := by decide
  rw [checkedBackedOffPollInterval, multiplyDuration, if_pos hfits,
    PollSchedulerConfig.checkedMaxPollInterval_eq]
  rfl

/-- And so is the wait for a retry. -/
theorem checkedRetryWait_eq (policy : PollPolicy) (r : Reading) (retryAt : Nat) :
    policy.checkedRetryWait r retryAt = .ok (policy.calculateRetryWait r retryAt) := by
  rw [checkedRetryWait, PollSchedulerConfig.checkedMaxPollInterval_eq]
  rfl

end PollPolicy

/-- Of the arithmetic behind a poll, only the sums with the instant can be out of range. -/
theorem JobPoll.checkedPoll_eq {latest : Nat} (hwithin : job.WithinBackoff policy) :
    job.checkedPoll progress policy latest r =
      match job.pollWait progress policy r with
      | none => .ok (.never, (job.calculatePoll progress policy r).2)
      | some wait => (policy.checkedPollAt latest r wait).map fun pollAt =>
          (.at pollAt, (job.calculatePoll progress policy r).2) := by
  cases progress with
  | iterationsEnded => rfl
  | nextIterationDueAt dueAt => rfl
  | taskPickable => rfl
  | retryDueAt retryAt =>
      rw [checkedPoll, PollPolicy.checkedRetryWait_eq]
      rfl
  | nothingPickable => rfl
  | stalled =>
      rw [checkedPoll, PollPolicy.checkedBackedOffPollInterval_eq hwithin]
      rfl

/-- No duration overflows in planning a poll. -/
theorem JobPoll.checkedPoll_ne_duration {latest : Nat} (hwithin : job.WithinBackoff policy) :
    job.checkedPoll progress policy latest r ≠ .error .duration := by
  rw [checkedPoll_eq hwithin]
  split
  · simp
  · rename_i wait hwait
    have hinstant : policy.checkedPollAt latest r wait ≠ .error .duration :=
      PollPolicy.checkedPollAt_ne_duration
    cases hat : policy.checkedPollAt latest r wait with
    | error overflow => simpa [Except.map, hat] using hinstant
    | ok pollAt => simp [Except.map]

/-- Where the clock counts far enough, the checked arithmetic is the plain one. -/
theorem JobPoll.checkedPoll_eq_ok {latest : Nat} (hwithin : job.WithinBackoff policy)
    (hlatest : r.now + policy.longestWait + policy.calculateJitter r ≤ latest) :
    job.checkedPoll progress policy latest r = .ok (job.calculatePoll progress policy r) := by
  have hpair : job.calculatePoll progress policy r =
      ((job.calculatePoll progress policy r).1, (job.calculatePoll progress policy r).2) := rfl
  rw [checkedPoll_eq hwithin, hpair, calculatePoll_fst]
  split
  · rfl
  · rename_i wait hwait
    have hle := pollWait_le hwait
    rw [PollPolicy.checkedPollAt_eq (by omega)]
    rfl

/-- A poll is asked for between now and the longest wait with one draw of the jitter. -/
theorem JobPoll.calculatePoll_bounds {moment : Nat}
    (h : (job.calculatePoll progress policy r).1 = .at moment) :
    r.now ≤ moment ∧ moment ≤ r.now + policy.longestWait + policy.calculateJitter r := by
  rw [calculatePoll_fst] at h
  split at h
  · cases h
  · rename_i wait hwait
    cases h
    have hle := pollWait_le hwait
    obtain ⟨hafter, hbefore⟩ := policy.le_calculatePollAt r wait
    exact ⟨hafter, by omega⟩

end Moments

/-! ## Poll waits stay inside their bounds -/

/-- Whatever settings were accepted and whatever was reported, in every run of a schedule the
interval of every job lies between the base interval and the backoff ceiling, and a poll asked
for lies at or after the instant of the call, no later than the ceiling or a year from it and
one draw of the jitter, whatever moment the job names.  No duration overflows on the way, nor
does the instant where the clock still counts that far. -/
theorem poll_waits_bounded {jobCodes : List JobCode} {config : PollSchedulerConfig} {start : Nat}
    {s : PollRun} (h : Reachable PollRun.step (.initial jobCodes config start) s) :
    s.scheduler.policy = ⟨config⟩ ∧
    config.checkedMaxPollInterval = .ok config.maxPollInterval ∧
    ∀ code job, s.scheduler.jobs code = some job →
      (config.pollInterval ≤ job.pollInterval ∧ job.pollInterval ≤ config.maxPollInterval) ∧
      ∀ progress r,
        (s.scheduler.policy.calculateJitter r = 0 ∨
          s.scheduler.policy.calculateJitter r < config.pollJitter) ∧
        (∀ moment, (job.calculatePoll progress s.scheduler.policy r).1 = .at moment →
          r.now ≤ moment ∧
          moment ≤ r.now + max config.maxPollInterval longestAcceptedPollInterval +
            s.scheduler.policy.calculateJitter r) ∧
        ∀ latest,
          job.checkedPoll progress s.scheduler.policy latest r ≠ .error .duration ∧
          (r.now + max config.maxPollInterval longestAcceptedPollInterval +
              s.scheduler.policy.calculateJitter r ≤ latest →
            job.checkedPoll progress s.scheduler.policy latest r =
              .ok (job.calculatePoll progress s.scheduler.policy r)) := by
  obtain ⟨hpolicy, hwithin⟩ := reachable_waitInv h
  refine ⟨hpolicy, config.checkedMaxPollInterval_eq, ?_⟩
  intro code job hjob
  have hjobWithin := hwithin code job hjob
  rw [hpolicy]
  refine ⟨hjobWithin, ?_⟩
  intro progress r
  refine ⟨PollPolicy.calculateJitter_lt ⟨config⟩ r, ?_, ?_⟩
  · intro moment hmoment
    exact JobPoll.calculatePoll_bounds hmoment
  · intro latest
    exact ⟨JobPoll.checkedPoll_ne_duration hjobWithin, JobPoll.checkedPoll_eq_ok hjobWithin⟩

/-- A job that finds nothing to do twice and then names a moment ages away: it is polled again
within a year. -/
theorem idleJob_waits_bounded :
    ∃ s job, runActions PollRun.step (.initial ["a"] .new 0)
        [.tryClaimDueJob 0, .releaseJob ⟨"a"⟩ .stalled ⟨0, 0, 0⟩, .tryClaimDueJob 400000000,
          .releaseJob ⟨"a"⟩ .stalled ⟨400000000, 0, 3⟩] = some s ∧
      s.scheduler.jobs "a" = some job ∧ job.pollInterval = 800000000 ∧
      (job.calculatePoll (.nextIterationDueAt (10 ^ 40)) s.scheduler.policy ⟨7, 7, 11⟩).1 =
        .at (7 + longestAcceptedPollInterval + 11) ∧
      7 + longestAcceptedPollInterval + 11 ≤
        7 + max PollSchedulerConfig.new.maxPollInterval longestAcceptedPollInterval +
          s.scheduler.policy.calculateJitter ⟨7, 7, 11⟩ := by
  have hfacts : (runActions PollRun.step (.initial ["a"] .new 0)
        [.tryClaimDueJob 0, .releaseJob ⟨"a"⟩ .stalled ⟨0, 0, 0⟩, .tryClaimDueJob 400000000,
          .releaseJob ⟨"a"⟩ .stalled ⟨400000000, 0, 3⟩]).bind
      (fun s => (s.scheduler.jobs "a").map fun job =>
        (job.pollInterval,
          (job.calculatePoll (.nextIterationDueAt (10 ^ 40)) s.scheduler.policy ⟨7, 7, 11⟩).1)) =
      some (800000000, .at (7 + longestAcceptedPollInterval + 11)) := by
    decide +kernel
  rw [Option.bind_eq_some_iff] at hfacts
  obtain ⟨s, hs, hfacts⟩ := hfacts
  rw [Option.map_eq_some_iff] at hfacts
  obtain ⟨job, hjob, hfacts⟩ := hfacts
  rw [Prod.mk.injEq] at hfacts
  have hbounded := (poll_waits_bounded (reachable_of_runActions .init hs)).2.2 "a" job hjob
  obtain ⟨-, hmoment, -⟩ := hbounded.2 (.nextIterationDueAt (10 ^ 40)) ⟨7, 7, 11⟩
  exact ⟨s, job, hs, hjob, hfacts.1, hfacts.2, (hmoment _ hfacts.2).2⟩

end JobManager
