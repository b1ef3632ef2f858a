import JobManager.Library.Transition
import JobManager.Pool.Scheduler

/-!
# Runs of the poll schedule

Calls of the schedule at instants none of which precedes the one before, where only
claims that were handed out are given back.  The due queue is written apart from the
jobs, is popped before the transition when a job is claimed, and is moved only when
the queued moment changes; the invariant says that it nevertheless repeats the jobs
exactly, and that the claims handed out are exactly the claimed jobs.

Main results:

- Theorem {lit}`PollRun.step_cases`: everything one call can do.
- Theorem {lit}`reachable_pollInv`: the invariant holds in every run.
- Theorem {lit}`poll_schedule_representation`: what the due queue, the claims and the
  answers of the schedule are in every run.
-/

namespace JobManager

/-! ## Runs -/

/-- A schedule in use: the claims it handed out and has not been given back, and the
instant of the last call. -/
structure PollRun where
  scheduler : PollScheduler
  claims : List JobClaim
  now : Nat

/-- A call of the schedule. -/
inductive PollCall where
  | tryClaimDueJob (now : Nat)
  | rescheduleJob (jobCode : JobCode) (progress : JobProgress) (r : Reading)
  | releaseJob (claim : JobClaim) (progress : JobProgress) (r : Reading)

/-- The instant of a call. -/
def PollCall.now : PollCall → Nat
  | .tryClaimDueJob now => now
  | .rescheduleJob _ _ r => r.now
  | .releaseJob _ _ r => r.now

namespace PollRun

/-- The schedule of a pool as it is assembled. -/
def initial (jobCodes : List JobCode) (config : PollSchedulerConfig) (now : Nat) : PollRun where
  scheduler := .new jobCodes config now
  claims := []
  now := now

/-- The claims in use after a look at the schedule. -/
def claimsAfter (claims : List JobClaim) : Except ScheduleError ClaimAttempt → List JobClaim
  | .ok (.claimed claim) => claim :: claims
  | _ => claims

/-- Make a call.  Nothing follows a call in the past, nor the release of a claim that
was not handed out; a claim given back is gone whatever the answer. -/
def step (s : PollRun) (call : PollCall) : Option PollRun :=
  if call.now < s.now then none
  else
    match call with
    | .tryClaimDueJob now =>
        let (answer, scheduler) := PollScheduler.tryClaimDueJob now s.scheduler
        some ⟨scheduler, claimsAfter s.claims answer, now⟩
    | .rescheduleJob jobCode progress r =>
        some ⟨(PollScheduler.rescheduleJob jobCode progress r s.scheduler).2, s.claims, r.now⟩
    | .releaseJob claim progress r =>
        if claim ∈ s.claims then
          some ⟨(PollScheduler.releaseJob claim progress r s.scheduler).2,
            s.claims.erase claim, r.now⟩
        else none

end PollRun

/-! ## The invariant -/

/-- What holds of a schedule over the given jobs in every run. -/
structure PollInv (jobCodes : List JobCode) (s : PollRun) : Prop where
  indexed : s.scheduler.dueQueue.Indexes s.scheduler.position
  listed : ∀ code, (s.scheduler.jobs code).isSome ↔ code ∈ jobCodes
  claims_nodup : s.claims.Nodup
  claimed : ∀ claim, claim ∈ s.claims ↔
    ∃ due, s.scheduler.slot claim.jobCode = some (.claimed due)

namespace PollScheduler

variable {s : PollScheduler} {code : JobCode} {job : JobPoll}

/-- The answer to a look at an exact due queue that has nothing due. -/
theorem tryClaimDueJob_waits {now pollAt : Nat} (hfirst : s.dueQueue.first = some (pollAt, code))
    (hlater : now < pollAt) : tryClaimDueJob now s = (.ok (.waitUntil pollAt), s) := by
  rw [tryClaimDueJob, hfirst]
  simp [hlater]

/-- Nothing is due where nothing is queued. -/
theorem tryClaimDueJob_empty (now : Nat) (hfirst : s.dueQueue.first = none) :
    tryClaimDueJob now s = (.ok .waitForPoolEvent, s) := by
  rw [tryClaimDueJob, hfirst]

/-- A look that finds no job queued changes nothing. -/
theorem tryClaimDueJob_idle {s' : PollScheduler} {now : Nat}
    (h : tryClaimDueJob now s = (.ok .waitForPoolEvent, s')) : s' = s := by
  rw [tryClaimDueJob] at h
  split at h
  · cases h
    rfl
  · split at h
    · cases h
    · obtain ⟨_, _, -, hanswer⟩ := Mutation.bind_eq_ok.mp h
      cases hanswer

/-- A look that finds a due job claims it and nothing else. -/
theorem tryClaimDueJob_claims {now pollAt : Nat}
    (hfirst : s.dueQueue.first = some (pollAt, code)) (hdue : pollAt ≤ now)
    (hjob : s.jobs code = some job) :
    ∃ dueQueue, tryClaimDueJob now s =
      (.ok (.claimed ⟨code⟩),
        { s with
          jobs := Function.update s.jobs code (some job.claim)
          dueQueue := dueQueue }) := by
  obtain ⟨dueQueue, heq⟩ := transitionJob_known
    (s := { s with dueQueue := s.dueQueue.erase (toLex (pollAt, code)) })
    (fun job _ => ((), job.claim)) hjob
  refine ⟨dueQueue, ?_⟩
  rw [tryClaimDueJob, hfirst]
  simp only [Nat.not_lt.mpr hdue, ↓reduceIte]
  rw [Mutation.bind_apply, heq]
  rfl

/-- A look at an exact due queue leaves it exact. -/
theorem tryClaimDueJob_indexes (now : Nat) (h : s.dueQueue.Indexes s.position) :
    (tryClaimDueJob now s).2.dueQueue.Indexes (tryClaimDueJob now s).2.position := by
  cases hfirst : s.dueQueue.first with
  | none =>
      rw [tryClaimDueJob_empty now hfirst]
      exact h
  | some entry =>
      obtain ⟨pollAt, code⟩ := entry
      by_cases hdue : pollAt ≤ now
      · have hposition : s.position code = some pollAt := (h.first_eq_some_iff.mp hfirst).1
        cases hjob : s.jobs code with
        | none => simp [position, hjob] at hposition
        | some job =>
            have hqueued : job.queuedAt = some pollAt := by simpa [position, hjob] using hposition
            have hmoved := transitionJob_indexes
              (s := { s with dueQueue := s.dueQueue.erase (toLex (pollAt, code)) })
              (fun job _ => ((), job.claim)) hjob
              (by
                intro t k hk
                rw [Finset.mem_erase, and_iff_right (by simp [hk])]
                exact h t k)
              (fun t ht => (h t code).mp (Finset.mem_of_mem_erase ht))
              (by
                intro hstays
                rw [hqueued] at hstays
                cases hstays)
            rw [tryClaimDueJob, hfirst]
            simp only [Nat.not_lt.mpr hdue, ↓reduceIte]
            rw [Mutation.bind_apply]
            cases htransition : transitionJob code (fun job _ => ((), job.claim))
              { s with dueQueue := s.dueQueue.erase (toLex (pollAt, code)) } with
            | mk answer s' =>
                rw [htransition] at hmoved
                cases answer <;> exact hmoved
      · rw [tryClaimDueJob_waits hfirst (Nat.lt_of_not_le hdue)]
        exact h

/-- Rescheduling a job on the list answers, and changes that job. -/
theorem rescheduleJob_known (progress : JobProgress) (r : Reading) (hjob : s.jobs code = some job) :
    ∃ dueQueue, rescheduleJob code progress r s =
      (.ok (),
        { s with
          jobs := Function.update s.jobs code (some (job.reschedule progress s.policy r))
          dueQueue := dueQueue }) :=
  transitionJob_known _ hjob

/-- One that is not on the list is refused. -/
theorem rescheduleJob_unknown {progress : JobProgress} {r : Reading} (hjob : s.jobs code = none) :
    rescheduleJob code progress r s = (.error (.unknownJob code), s) :=
  transitionJob_unknown hjob

/-- The queue stays an index of the slots. -/
theorem rescheduleJob_indexes (progress : JobProgress) (r : Reading)
    (h : s.dueQueue.Indexes s.position) :
    (rescheduleJob code progress r s).2.dueQueue.Indexes
      (rescheduleJob code progress r s).2.position := by
  cases hjob : s.jobs code with
  | none =>
      rw [rescheduleJob_unknown hjob]
      exact h
  | some job =>
      exact transitionJob_indexes _ hjob (fun t k _ => h t k) (fun t => (h t code).mp) fun _ => h

/-- The release of a claimed job is accepted and moves that job alone. -/
theorem releaseJob_claimed (progress : JobProgress) (r : Reading) {due : Option PollDue}
    (hjob : s.jobs code = some job) (hslot : job.slot = .claimed due) :
    ∃ dueQueue, releaseJob ⟨code⟩ progress r s =
      (.ok (),
        { s with
          jobs := Function.update s.jobs code (some (job.release progress s.policy r).2)
          dueQueue := dueQueue }) := by
  obtain ⟨dueQueue, heq⟩ := transitionJob_known
    (fun job policy => job.release progress policy r) hjob
  have hreleased : (job.release progress s.policy r).1 = true :=
    JobPoll.release_fst.mpr ⟨due, hslot⟩
  refine ⟨dueQueue, ?_⟩
  rw [releaseJob, Mutation.bind_apply, heq, hreleased]
  rfl

/-- And so it does as a job is given back. -/
theorem releaseJob_indexes (claim : JobClaim) (progress : JobProgress) (r : Reading)
    (h : s.dueQueue.Indexes s.position) :
    (releaseJob claim progress r s).2.dueQueue.Indexes
      (releaseJob claim progress r s).2.position := by
  rw [releaseJob, Mutation.bind_apply]
  cases hjob : s.jobs claim.jobCode with
  | none =>
      rw [transitionJob_unknown hjob]
      exact h
  | some job =>
      have hmoved := transitionJob_indexes
        (fun job policy => job.release progress policy r) hjob
        (fun t k _ => h t k) (fun t => (h t claim.jobCode).mp) fun _ => h
      obtain ⟨dueQueue, heq⟩ := transitionJob_known
        (fun job policy => job.release progress policy r) hjob
      rw [heq] at hmoved ⊢
      -- The answer decides only whether the call is reported as refused.
      cases (job.release progress s.policy r).1 <;> exact hmoved

end PollScheduler

/-! ## What one call can do -/

/-- What a call makes of one job and of the claims in use. -/
inductive PollMove (policy : PollPolicy) (code : JobCode) (job : JobPoll) (claims : List JobClaim) :
    PollCall → JobPoll → List JobClaim → Prop
  | claim {now pollAt : Nat} : job.slot = .queued pollAt → pollAt ≤ now →
      PollMove policy code job claims (.tryClaimDueJob now) job.claim (⟨code⟩ :: claims)
  | reschedule {progress : JobProgress} {r : Reading} :
      PollMove policy code job claims (.rescheduleJob code progress r)
        (job.reschedule progress policy r) claims
  | release {progress : JobProgress} {r : Reading} {due : Option PollDue} :
      job.slot = .claimed due → ⟨code⟩ ∈ claims →
      PollMove policy code job claims (.releaseJob ⟨code⟩ progress r)
        (job.release progress policy r).2 (claims.erase ⟨code⟩)

/-- The calls that change nothing: a look that claims nothing, and the end of an
execution of a job that is not on the schedule. -/
inductive PollIdle (s : PollRun) : PollCall → Prop
  | look {now : Nat} :
      (∀ claim, (PollScheduler.tryClaimDueJob now s.scheduler).1 ≠ .ok (.claimed claim)) →
      PollIdle s (.tryClaimDueJob now)
  | unlisted {code : JobCode} {progress : JobProgress} {r : Reading} :
      s.scheduler.jobs code = none → PollIdle s (.rescheduleJob code progress r)

/-- Every call changes nothing, or moves one job of the schedule. -/
theorem PollRun.step_cases {jobCodes : List JobCode} {s s' : PollRun} {call : PollCall}
    (hinv : PollInv jobCodes s) (h : s.step call = some s') :
    s.now ≤ call.now ∧ s'.now = call.now ∧ s'.scheduler.policy = s.scheduler.policy ∧
      ((PollIdle s call ∧ s'.scheduler = s.scheduler ∧ s'.claims = s.claims) ∨
        ∃ code job job', s.scheduler.jobs code = some job ∧
          PollMove s.scheduler.policy code job s.claims call job' s'.claims ∧
          s'.scheduler.jobs = Function.update s.scheduler.jobs code (some job')) := by
  unfold step at h
  split at h <;> rename_i hnow
  · cases h
  refine ⟨Nat.le_of_not_lt hnow, ?_⟩
  cases call with
  | tryClaimDueJob now =>
      cases hfirst : s.scheduler.dueQueue.first with
      | none =>
          have heq := PollScheduler.tryClaimDueJob_empty now hfirst
          simp only [heq, Option.some.injEq] at h
          subst h
          exact ⟨rfl, rfl, Or.inl ⟨.look (by simp [heq]), rfl, rfl⟩⟩
      | some entry =>
          obtain ⟨pollAt, code⟩ := entry
          by_cases hdue : pollAt ≤ now
          · have hposition := (hinv.indexed.first_eq_some_iff.mp hfirst).1
            cases hjob : s.scheduler.jobs code with
            | none => simp [PollScheduler.position, hjob] at hposition
            | some job =>
                have hqueued : job.slot = .queued pollAt := by
                  apply JobPoll.queuedAt_eq_some_iff.mp
                  simpa [PollScheduler.position, hjob] using hposition
                obtain ⟨dueQueue, heq⟩ := PollScheduler.tryClaimDueJob_claims hfirst hdue hjob
                simp only [heq, Option.some.injEq] at h
                subst h
                exact ⟨rfl, rfl, Or.inr ⟨code, job, job.claim, hjob, .claim hqueued hdue, rfl⟩⟩
          · have heq := PollScheduler.tryClaimDueJob_waits hfirst (Nat.lt_of_not_le hdue)
            simp only [heq, Option.some.injEq] at h
            subst h
            exact ⟨rfl, rfl, Or.inl ⟨.look (by simp [heq]), rfl, rfl⟩⟩
  | rescheduleJob code progress r =>
      cases hjob : s.scheduler.jobs code with
      | none =>
          simp only [PollScheduler.rescheduleJob_unknown hjob, Option.some.injEq] at h
          subst h
          exact ⟨rfl, rfl, Or.inl ⟨.unlisted hjob, rfl, rfl⟩⟩
      | some job =>
          obtain ⟨dueQueue, heq⟩ := PollScheduler.rescheduleJob_known progress r hjob
          simp only [heq, Option.some.injEq] at h
          subst h
          exact ⟨rfl, rfl, Or.inr ⟨code, job, _, hjob, .reschedule, rfl⟩⟩
  | releaseJob claim progress r =>
      by_cases hclaim : claim ∈ s.claims
      · obtain ⟨due, hslot⟩ := (hinv.claimed claim).mp hclaim
        rw [PollScheduler.slot, Option.map_eq_some_iff] at hslot
        obtain ⟨job, hjob, hslot⟩ := hslot
        obtain ⟨dueQueue, heq⟩ := PollScheduler.releaseJob_claimed progress r hjob hslot
        simp only [if_pos hclaim, heq, Option.some.injEq] at h
        subst h
        exact ⟨rfl, rfl, Or.inr ⟨claim.jobCode, job, _, hjob, .release hslot hclaim, rfl⟩⟩
      · simp [hclaim] at h

/-! ## The invariant holds in every run -/

section Invariant

variable {jobCodes : List JobCode} {config : PollSchedulerConfig} {start : Nat} {s s' : PollRun}
  {call : PollCall}

/-- And over every call. -/
theorem PollRun.step_indexes (hindexed : s.scheduler.dueQueue.Indexes s.scheduler.position)
    (h : s.step call = some s') :
    s'.scheduler.dueQueue.Indexes s'.scheduler.position := by
  unfold step at h
  split at h
  · cases h
  cases call with
  | tryClaimDueJob now =>
      cases h
      exact PollScheduler.tryClaimDueJob_indexes now hindexed
  | rescheduleJob code progress r =>
      cases h
      exact PollScheduler.rescheduleJob_indexes progress r hindexed
  | releaseJob claim progress r =>
      simp only at h
      split at h
      · cases h
        exact PollScheduler.releaseJob_indexes claim progress r hindexed
      · cases h

/-- A job that is not claimed is not claimed after the end of an execution either, and
a claimed one stays claimed. -/
theorem JobPoll.claimed_reschedule {job : JobPoll} {progress : JobProgress} {policy : PollPolicy}
    {r : Reading} :
    (∃ due, (job.reschedule progress policy r).slot = .claimed due) ↔
      ∃ due, job.slot = .claimed due := by
  cases hslot : job.slot with
  | exhausted => simp [reschedule_exhausted hslot, hslot]
  | claimed due => simp [reschedule_claimed hslot]
  | queued pollAt =>
      rw [reschedule_queued hslot]
      simpa using not_claimed_schedulePoll _ _

/-- A job is not claimed once it is given back. -/
theorem JobPoll.not_claimed_release {job : JobPoll} {progress : JobProgress} {policy : PollPolicy}
    {r : Reading} {due : Option PollDue} (hslot : job.slot = .claimed due) :
    ¬∃ due', (job.release progress policy r).2.slot = .claimed due' := by
  cases due with
  | none =>
      rw [release_unrecorded hslot]
      exact not_claimed_schedulePoll _ _
  | some recorded =>
      rw [release_recorded hslot]
      exact not_claimed_schedulePoll _ _

theorem PollScheduler.slot_of_update {sched sched' : PollScheduler} {code : JobCode}
    {job' : JobPoll} (hjobs : sched'.jobs = Function.update sched.jobs code (some job'))
    (k : JobCode) : sched'.slot k = if k = code then some job'.slot else sched.slot k := by
  rw [slot, hjobs, slot]
  by_cases hk : k = code
  · subst hk
    simp
  · simp [hk]

/-- Every call keeps the invariant. -/
theorem PollInv.step (hinv : PollInv jobCodes s) (call : PollCall) (h : s.step call = some s') :
    PollInv jobCodes s' := by
  have hindexed := PollRun.step_indexes hinv.indexed h
  obtain ⟨-, -, -, ⟨-, hscheduler, hclaims⟩ | ⟨code, job, job', hjob, hmove, hjobs⟩⟩ :=
    PollRun.step_cases hinv h
  · refine ⟨hindexed, ?_, ?_, ?_⟩
    · rw [hscheduler]
      exact hinv.listed
    · rw [hclaims]
      exact hinv.claims_nodup
    · rw [hscheduler, hclaims]
      exact hinv.claimed
  have hcode : s.scheduler.slot code = some job.slot := by
    rw [PollScheduler.slot, hjob]
    rfl
  have hslot := PollScheduler.slot_of_update hjobs
  obtain ⟨sched', claims', now'⟩ := s'
  refine ⟨hindexed, ?_, ?_, ?_⟩
  · intro k
    simp only at hjobs
    rw [← hinv.listed k, hjobs]
    by_cases hk : k = code
    · subst hk
      simp [hjob]
    · simp [hk]
  · -- A queued job has no claim in use, so claiming it repeats none.
    simp only at hmove ⊢
    cases hmove with
    | claim hqueued hdue =>
        apply List.nodup_cons.mpr
        refine ⟨?_, hinv.claims_nodup⟩
        intro hmem
        obtain ⟨due, hclaimed⟩ := (hinv.claimed _).mp hmem
        rw [hcode, hqueued] at hclaimed
        cases hclaimed
    | reschedule => exact hinv.claims_nodup
    | release hclaimed hmem => exact hinv.claims_nodup.erase _
  · intro claim
    simp only at hmove hslot ⊢
    rw [hslot claim.jobCode]
    by_cases hk : claim.jobCode = code
    · subst hk
      rw [if_pos rfl]
      cases hmove with
      | claim hqueued hdue => simp [JobPoll.claim]
      | reschedule =>
          rw [hinv.claimed claim, hcode]
          simpa using JobPoll.claimed_reschedule.symm
      | release hclaimed hmem =>
          rw [hinv.claims_nodup.mem_erase_iff]
          simpa using JobPoll.not_claimed_release hclaimed
    · rw [if_neg hk, ← hinv.claimed claim]
      have hne : claim ≠ ⟨code⟩ := fun heq => hk (by rw [heq])
      cases hmove with
      | claim hqueued hdue => simp [hne]
      | reschedule => exact Iff.rfl
      | release hclaimed hmem => rw [hinv.claims_nodup.mem_erase_iff, and_iff_right hne]

/-- It holds of a new schedule. -/
theorem pollInv_initial (jobCodes : List JobCode) (config : PollSchedulerConfig) (start : Nat) :
    PollInv jobCodes (.initial jobCodes config start) where
  indexed := by
    intro t k
    simp only [PollRun.initial, PollScheduler.new, PollScheduler.position, List.mem_toFinset,
      List.mem_map, EmbeddingLike.apply_eq_iff_eq, Prod.mk.injEq]
    by_cases hk : k ∈ jobCodes
    · simp [hk, JobPoll.queuedAt]
    · simp [hk]
  listed := by
    intro code
    by_cases hcode : code ∈ jobCodes
    · simp [PollRun.initial, PollScheduler.new, hcode]
    · simp [PollRun.initial, PollScheduler.new, hcode]
  claims_nodup := List.nodup_nil
  claimed := by
    intro claim
    simp [PollRun.initial, PollScheduler.new, PollScheduler.slot]

/-- The due queue repeats the jobs, and the claims in use are the claimed jobs, in every
run of a schedule. -/
theorem reachable_pollInv
    (h : Reachable PollRun.step (.initial jobCodes config start) s) : PollInv jobCodes s :=
  h.invariant (pollInv_initial jobCodes config start) fun _ _ _ hinv _ hs => hinv.step _ hs

/-! ## Exhausted jobs -/

/-- A job that spent its iteration budget is left alone by every call. -/
theorem PollRun.exhausted_step {code : JobCode} (hinv : PollInv jobCodes s)
    (h : s.step call = some s') (hexhausted : s.scheduler.slot code = some .exhausted) :
    s'.scheduler.slot code = some .exhausted := by
  obtain ⟨-, -, -, ⟨-, hscheduler, -⟩ | ⟨k, job, job', hjob, hmove, hjobs⟩⟩ :=
    PollRun.step_cases hinv h
  · rw [hscheduler]
    exact hexhausted
  rw [PollScheduler.slot_of_update hjobs]
  by_cases hk : code = k
  · subst hk
    have hslot : job.slot = .exhausted := by
      rw [PollScheduler.slot, hjob] at hexhausted
      exact Option.some.inj hexhausted
    rw [if_pos rfl]
    generalize s'.claims = claims' at hmove
    cases hmove with
    | claim hqueued hdue =>
        rw [hslot] at hqueued
        cases hqueued
    | reschedule => rw [JobPoll.reschedule_exhausted hslot, hslot]
    | release hclaimed hmem =>
        rw [hslot] at hclaimed
        cases hclaimed
  · rw [if_neg hk]
    exact hexhausted

/-- An exhausted job stays so. -/
theorem PollRun.exhausted_reachable {code : JobCode} (hinv : PollInv jobCodes s)
    (hexhausted : s.scheduler.slot code = some .exhausted) (h : Reachable PollRun.step s s') :
    s'.scheduler.slot code = some .exhausted := by
  have hboth : PollInv jobCodes s' ∧ s'.scheduler.slot code = some .exhausted :=
    h.invariant (P := fun s => PollInv jobCodes s ∧ s.scheduler.slot code = some .exhausted)
      ⟨hinv, hexhausted⟩ fun _ _ _ hs _ hstep =>
        ⟨hs.1.step _ hstep, PollRun.exhausted_step hs.1 hstep hs.2⟩
  exact hboth.2

/-! ## The answers of the schedule -/

/-- What the answer to a look at instant {lit}`now` says about the queued jobs. -/
def PollScheduler.Explains (s : PollScheduler) (now : Nat) :
    Except ScheduleError ClaimAttempt → Prop
  | .ok (.claimed claim) => ∃ pollAt ≤ now, s.slot claim.jobCode = some (.queued pollAt) ∧
      ∀ t code, s.slot code = some (.queued t) → toLex (pollAt, claim.jobCode) ≤ toLex (t, code)
  | .ok (.waitUntil pollAt) => now < pollAt ∧ (∃ code, s.slot code = some (.queued pollAt)) ∧
      ∀ t code, s.slot code = some (.queued t) → pollAt ≤ t
  | .ok .waitForPoolEvent => ∀ t code, s.slot code ≠ some (.queued t)
  | .error _ => False

/-- The answer to a look for a due job says how the jobs stand. -/
theorem PollScheduler.tryClaimDueJob_explains {sched : PollScheduler}
    (hindexed : sched.dueQueue.Indexes sched.position) (now : Nat) :
    sched.Explains now (tryClaimDueJob now sched).1 := by
  cases hfirst : sched.dueQueue.first with
  | none =>
      rw [tryClaimDueJob_empty now hfirst]
      intro t code hqueued
      have hnone := hindexed.first_eq_none_iff.mp hfirst code
      rw [position_eq_some_iff.mpr hqueued] at hnone
      cases hnone
  | some entry =>
      obtain ⟨pollAt, code⟩ := entry
      obtain ⟨hposition, hleast⟩ := hindexed.first_eq_some_iff.mp hfirst
      have hqueued := position_eq_some_iff.mp hposition
      have hleast : ∀ t k, sched.slot k = some (.queued t) → toLex (pollAt, code) ≤ toLex (t, k) :=
        fun t k hk => hleast t k (position_eq_some_iff.mpr hk)
      by_cases hdue : pollAt ≤ now
      · cases hjob : sched.jobs code with
        | none => simp [slot, hjob] at hqueued
        | some job =>
            obtain ⟨dueQueue, heq⟩ := tryClaimDueJob_claims hfirst hdue hjob
            rw [heq]
            exact ⟨pollAt, hdue, hqueued, hleast⟩
      · have hlater : now < pollAt := Nat.lt_of_not_le hdue
        rw [tryClaimDueJob_waits hfirst hlater]
        refine ⟨hlater, ⟨code, hqueued⟩, ?_⟩
        intro t k hk
        rcases Prod.Lex.toLex_le_toLex.mp (hleast t k hk) with hlt | ⟨heq, -⟩
        · exact Nat.le_of_lt hlt
        · exact Nat.le_of_eq heq

/-- A look that finds a job due claims one. -/
theorem PollScheduler.Explains.claims {sched : PollScheduler} {now t : Nat} {code : JobCode}
    {answer : Except ScheduleError ClaimAttempt} (h : sched.Explains now answer)
    (hqueued : sched.slot code = some (.queued t)) (hdue : t ≤ now) :
    ∃ claim, answer = .ok (.claimed claim) := by
  match answer, h with
  | .ok (.claimed claim), _ => exact ⟨claim, rfl⟩
  | .ok (.waitUntil pollAt), ⟨hlater, _, hleast⟩ =>
      have := hleast t code hqueued
      omega
  | .ok .waitForPoolEvent, hnone => exact absurd hqueued (hnone t code)

/-- In every run of a schedule the due queue lists exactly the queued jobs under their
moments, every job of the list has its one slot, the claims handed out are exactly the
claimed jobs, an exhausted job stays exhausted, and a look at the schedule claims the
least due entry or says truly that there is none.  Only the end of an execution of a job
that is not on the list is refused, and it changes nothing. -/
theorem poll_schedule_representation
    (h : Reachable PollRun.step (.initial jobCodes config start) s) :
    (∀ t code, toLex (t, code) ∈ s.scheduler.dueQueue ↔
      s.scheduler.slot code = some (.queued t)) ∧
    (∀ code, code ∈ jobCodes ↔ ∃ slot, s.scheduler.slot code = some slot) ∧
    s.claims.Nodup ∧
    (∀ claim, claim ∈ s.claims ↔ ∃ due, s.scheduler.slot claim.jobCode = some (.claimed due)) ∧
    (∀ claim ∈ s.claims, ∀ progress r,
      (PollScheduler.releaseJob claim progress r s.scheduler).1 = .ok ()) ∧
    (∀ code ∈ jobCodes, ∀ progress r,
      (PollScheduler.rescheduleJob code progress r s.scheduler).1 = .ok ()) ∧
    (∀ code ∉ jobCodes, ∀ progress r,
      PollScheduler.rescheduleJob code progress r s.scheduler =
        (.error (.unknownJob code), s.scheduler)) ∧
    (∀ code s', s.scheduler.slot code = some .exhausted → Reachable PollRun.step s s' →
      s'.scheduler.slot code = some .exhausted) ∧
    ∀ now, s.scheduler.Explains now (PollScheduler.tryClaimDueJob now s.scheduler).1 ∧
      ∀ t code, s.scheduler.slot code = some (.queued t) → t ≤ now →
        ∃ claim, (PollScheduler.tryClaimDueJob now s.scheduler).1 = .ok (.claimed claim) := by
  have hinv := reachable_pollInv h
  have hexplains := PollScheduler.tryClaimDueJob_explains hinv.indexed
  refine ⟨?_, ?_, hinv.claims_nodup, hinv.claimed, ?_, ?_, ?_, ?_, ?_⟩
  · intro t code
    rw [hinv.indexed t code, PollScheduler.position_eq_some_iff]
  · intro code
    rw [← hinv.listed code, PollScheduler.slot]
    cases s.scheduler.jobs code <;> simp
  · intro claim hclaim progress r
    obtain ⟨due, hslot⟩ := (hinv.claimed claim).mp hclaim
    rw [PollScheduler.slot, Option.map_eq_some_iff] at hslot
    obtain ⟨job, hjob, hslot⟩ := hslot
    obtain ⟨dueQueue, heq⟩ := PollScheduler.releaseJob_claimed progress r hjob hslot
    rw [heq]
  · intro code hcode progress r
    obtain ⟨job, hjob⟩ := Option.isSome_iff_exists.mp ((hinv.listed code).mpr hcode)
    obtain ⟨dueQueue, heq⟩ := PollScheduler.rescheduleJob_known progress r hjob
    rw [heq]
  · intro code hcode progress r
    apply PollScheduler.rescheduleJob_unknown
    rw [← Option.not_isSome_iff_eq_none, hinv.listed code]
    exact hcode
  · intro code s' hexhausted hrun
    exact PollRun.exhausted_reachable hinv hexhausted hrun
  · intro now
    exact ⟨hexplains now, fun t code hqueued hdue => (hexplains now).claims hqueued hdue⟩

end Invariant

/-- A pool of two jobs: the first is claimed, an execution of it ends under the claim,
the second is claimed, and the first is given back with its budget spent. -/
def twoJobCalls : List PollCall :=
  [.tryClaimDueJob 0, .rescheduleJob "a" .nothingPickable ⟨5, 5, 0⟩, .tryClaimDueJob 7,
    .releaseJob ⟨"a"⟩ .iterationsEnded ⟨9, 9, 3⟩]

theorem twoJobCalls_representation :
    ∃ s, runActions PollRun.step (.initial ["b", "a"] .new 0) twoJobCalls = some s ∧
      s.claims = [⟨"b"⟩] ∧ s.scheduler.slot "a" = some .exhausted ∧
      (∀ claim ∈ s.claims, ∀ progress r,
        (PollScheduler.releaseJob claim progress r s.scheduler).1 = .ok ()) ∧
      s.scheduler.Explains 9 (PollScheduler.tryClaimDueJob 9 s.scheduler).1 := by
  have hfacts : (runActions PollRun.step (.initial ["b", "a"] .new 0) twoJobCalls).map
      (fun s => (s.claims, s.scheduler.slot "a")) = some ([⟨"b"⟩], some .exhausted) := by
    decide +kernel
  rw [Option.map_eq_some_iff] at hfacts
  obtain ⟨s, hs, hfacts⟩ := hfacts
  rw [Prod.mk.injEq] at hfacts
  have hsound := poll_schedule_representation (reachable_of_runActions .init hs)
  exact ⟨s, hs, hfacts.1, hfacts.2, hsound.2.2.2.2.1, (hsound.2.2.2.2.2.2.2.2 9).1⟩

/-- The end of an execution of a job that is not on the list is refused. -/
theorem unlisted_job_refused :
    Reachable PollRun.step (.initial ["a"] .new 0) (.initial ["a"] .new 0) ∧
      (PollScheduler.rescheduleJob "b" .taskPickable ⟨0, 0, 0⟩
        (PollRun.initial ["a"] .new 0).scheduler).1 = .error (.unknownJob "b") :=
  ⟨.init, by decide +kernel⟩

end JobManager
