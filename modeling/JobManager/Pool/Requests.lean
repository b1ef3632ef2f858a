import JobManager.Pool.Polling

/-!
# Poll requests

A task start and an execution end ask for the job to be polled by a moment.  The
request arrives while the job is queued, claimed or exhausted and is combined with
what was asked before by three different rules; once it is recorded the slot answers
for it until the job is claimed anew, exhausted, or re-timed by an end that closed the
iteration.

Main results:

- Theorem {lit}`JobPoll.keeps_reschedule`, {lit}`JobPoll.keeps_release`: what one call
  leaves of an earlier request.
- Theorem {lit}`PollRun.recorded_under_claim`: what a run leaves under a claim is the
  requests of its execution ends, merged.
- Theorem {lit}`poll_request_kept`: no request is lost, and the order of the ends
  recorded under one claim does not matter.
-/

namespace JobManager

/-! ## Merging -/

namespace PollDue

/-- Which of two polls was asked for first does not matter. -/
theorem merge_comm (a b : PollDue) : a.merge b = b.merge a := by
  cases a <;> cases b <;> simp [merge, Nat.min_comm]

theorem merge_assoc (a b c : PollDue) : (a.merge b).merge c = a.merge (b.merge c) := by
  cases a <;> cases b <;> cases c <;> simp [merge, Nat.min_assoc]

/-- The poll comes by moment {lit}`m`, or no later poll can change anything. -/
def By (m : Nat) : PollDue → Prop
  | .at moment => moment ≤ m
  | .never => True

theorem By.merge_left {m : Nat} {a : PollDue} (h : a.By m) (b : PollDue) : (a.merge b).By m := by
  cases a with
  | never => trivial
  | «at» t =>
      cases b with
      | never => trivial
      | «at» u => exact Nat.le_trans (Nat.min_le_left t u) h

theorem By.merge_right {m : Nat} {b : PollDue} (h : b.By m) (a : PollDue) : (a.merge b).By m := by
  rw [merge_comm]
  exact h.merge_left a

/-- What is recorded under a claim once one more execution ended. -/
def record (recorded : Option PollDue) (requested : PollDue) : Option PollDue :=
  some (recorded.elim requested fun due => due.merge requested)

/-- The order of two ends does not matter. -/
theorem record_right_comm (recorded : Option PollDue) (a b : PollDue) :
    record (record recorded a) b = record (record recorded b) a := by
  cases recorded with
  | none => exact congrArg some (merge_comm a b)
  | some due =>
      have : (due.merge a).merge b = (due.merge b).merge a := by
        rw [merge_assoc, merge_comm a b, ← merge_assoc]
      exact congrArg some this

end PollDue

/-! ## What one job makes of a request -/

/-- The slot answers for a request by moment {lit}`m`: the job is queued no later, what is
recorded under the claim asks for no later, or nothing is left to ask for. -/
def JobSlot.Keeps (m : Nat) : JobSlot → Prop
  | .queued pollAt => pollAt ≤ m
  | .claimed recorded => ∃ due ∈ recorded, due.By m
  | .exhausted => True

namespace JobPoll

variable {job : JobPoll} {progress : JobProgress} {policy : PollPolicy} {r : Reading} {m : Nat}

theorem keeps_schedulePoll {due : PollDue} (h : due.By m) :
    (job.schedulePoll due).slot.Keeps m := by
  rw [schedulePoll_eq]
  cases due with
  | never => trivial
  | «at» t => exact h

/-- The end of an execution is answered for by the slot it leaves, whatever the job's
slot was, unless the job is exhausted. -/
theorem keeps_reschedule_request (hlive : job.slot ≠ .exhausted)
    (hrequest : (job.calculatePoll progress policy r).1.By m) :
    (job.reschedule progress policy r).slot.Keeps m := by
  cases hslot : job.slot with
  | exhausted => exact absurd hslot hlive
  | claimed recorded =>
      rw [reschedule_claimed hslot]
      refine ⟨_, rfl, ?_⟩
      cases recorded with
      | none => exact hrequest
      | some due => exact hrequest.merge_right due
  | queued pollAt =>
      rw [reschedule_queued hslot]
      apply keeps_schedulePoll
      split
      · exact hrequest
      · exact hrequest.merge_right _

/-- A later end of an execution keeps an earlier request, unless it re-times the job. -/
theorem keeps_reschedule (hkeeps : job.slot.Keeps m)
    (hretimes : progress.closesIteration = true → ∀ pollAt, job.slot ≠ .queued pollAt) :
    (job.reschedule progress policy r).slot.Keeps m := by
  cases hslot : job.slot with
  | exhausted =>
      rw [reschedule_exhausted hslot]
      exact hkeeps
  | claimed recorded =>
      rw [hslot] at hkeeps
      obtain ⟨due, hrecorded, hdue⟩ := hkeeps
      cases hrecorded
      rw [reschedule_claimed hslot]
      exact ⟨_, rfl, hdue.merge_left _⟩
  | queued pollAt =>
      rw [hslot] at hkeeps
      rw [reschedule_queued hslot]
      apply keeps_schedulePoll
      split <;> rename_i hcloses
      · exact absurd hslot (hretimes hcloses pollAt)
      · exact PollDue.By.merge_left (a := .at pollAt) hkeeps _

/-- A task start is answered for by the slot its release leaves. -/
theorem keeps_release_request {recorded : Option PollDue} (hslot : job.slot = .claimed recorded)
    (hrequest : (job.calculatePoll progress policy r).1.By m) :
    (job.release progress policy r).2.slot.Keeps m := by
  cases recorded with
  | none =>
      rw [release_unrecorded hslot]
      exact keeps_schedulePoll hrequest
  | some due =>
      rw [release_recorded hslot]
      exact keeps_schedulePoll (hrequest.merge_left due)

/-- A release keeps what was recorded under the claim. -/
theorem keeps_release {recorded : Option PollDue} (hslot : job.slot = .claimed recorded)
    (hkeeps : job.slot.Keeps m) : (job.release progress policy r).2.slot.Keeps m := by
  rw [hslot] at hkeeps
  obtain ⟨due, hrecorded, hdue⟩ := hkeeps
  cases hrecorded
  rw [release_recorded hslot]
  exact keeps_schedulePoll (hdue.merge_right _)

end JobPoll

/-- Nothing polls the job any more, or nothing will once its claim is given back. -/
def JobSlot.GivenUp (slot : JobSlot) : Prop := slot = .exhausted ∨ slot = .claimed (some .never)

/-- Two polls merge to none where one asks for none. -/
theorem PollDue.merge_eq_never {a b : PollDue} : a.merge b = .never ↔ a = .never ∨ b = .never := by
  cases a <;> cases b <;> simp [merge]

namespace JobPoll

variable {job : JobPoll} {progress : JobProgress} {policy : PollPolicy} {r : Reading}

/-- A job is given up where no poll is asked for. -/
theorem givenUp_schedulePoll {due : PollDue} :
    (job.schedulePoll due).slot.GivenUp ↔ due = .never := by
  rw [schedulePoll_eq, JobSlot.GivenUp]
  cases due <;> simp

/-- The end of an execution gives a job up only if it asks for no poll at all. -/
theorem givenUp_reschedule (h : (job.reschedule progress policy r).slot.GivenUp) :
    job.slot.GivenUp ∨ (job.calculatePoll progress policy r).1 = .never := by
  cases hslot : job.slot with
  | exhausted => exact Or.inl (Or.inl rfl)
  | claimed recorded =>
      rw [reschedule_claimed hslot] at h
      cases recorded with
      | none =>
          simp only [JobSlot.GivenUp, Option.elim_none, reduceCtorEq, JobSlot.claimed.injEq,
            Option.some.injEq, false_or] at h
          exact Or.inr h
      | some due =>
          simp only [JobSlot.GivenUp, Option.elim_some, reduceCtorEq, JobSlot.claimed.injEq,
            Option.some.injEq, false_or, PollDue.merge_eq_never] at h
          exact h.imp_left fun hdue => Or.inr (by rw [hdue])
  | queued pollAt =>
      rw [reschedule_queued hslot, givenUp_schedulePoll] at h
      split at h
      · exact Or.inr h
      · exact Or.inr ((PollDue.merge_eq_never.mp h).resolve_left (by simp))

/-- A release gives a job up only if the task start or an execution end asks for no poll. -/
theorem givenUp_release {recorded : Option PollDue} (hslot : job.slot = .claimed recorded)
    (h : (job.release progress policy r).2.slot.GivenUp) :
    job.slot.GivenUp ∨ (job.calculatePoll progress policy r).1 = .never := by
  cases recorded with
  | none =>
      rw [release_unrecorded hslot, givenUp_schedulePoll] at h
      exact Or.inr h
  | some due =>
      rw [release_recorded hslot, givenUp_schedulePoll, PollDue.merge_eq_never] at h
      exact h.symm.imp_left fun hdue => Or.inr (by rw [hslot, hdue])

end JobPoll

/-! ## What one call makes of one job -/

/-- The progress a call reports of a job, and the readings it was made with. -/
def PollCall.report (code : JobCode) : PollCall → Option (JobProgress × Reading)
  | .tryClaimDueJob _ => none
  | .rescheduleJob jobCode progress r => if jobCode = code then some (progress, r) else none
  | .releaseJob claim progress r => if claim.jobCode = code then some (progress, r) else none

/-- The call gives the claim of the job back. -/
def PollCall.Releases (code : JobCode) (call : PollCall) : Prop :=
  ∃ progress r, call = .releaseJob ⟨code⟩ progress r

namespace PollRun

/-- The poll a call asks for on behalf of a job. -/
def requested (s : PollRun) (code : JobCode) (call : PollCall) : Option PollDue :=
  (s.scheduler.jobs code).bind fun job =>
    (call.report code).map fun (progress, r) =>
      (job.calculatePoll progress s.scheduler.policy r).1

/-- The call claims the job. -/
def Claims (code : JobCode) (s : PollRun) (call : PollCall) : Prop :=
  ∃ now, call = .tryClaimDueJob now ∧
    (PollScheduler.tryClaimDueJob now s.scheduler).1 = .ok (.claimed ⟨code⟩)

/-- The call records, for a queued job, the end of an execution that closed the
iteration. -/
def Retimes (code : JobCode) (s : PollRun) (call : PollCall) : Prop :=
  ∃ progress r pollAt, call = .rescheduleJob code progress r ∧ progress.closesIteration = true ∧
    s.scheduler.slot code = some (.queued pollAt)

/-- What a call makes of the job under one code. -/
inductive JobStep (code : JobCode) (s : PollRun) (job : JobPoll) : PollCall → JobPoll → Prop
  | unmoved {call : PollCall} : call.report code = none → JobStep code s job call job
  | claim {call : PollCall} {pollAt : Nat} : Claims code s call → job.slot = .queued pollAt →
      JobStep code s job call job.claim
  | reschedule {progress : JobProgress} {r : Reading} :
      JobStep code s job (.rescheduleJob code progress r)
        (job.reschedule progress s.scheduler.policy r)
  | release {progress : JobProgress} {r : Reading} {recorded : Option PollDue} :
      job.slot = .claimed recorded →
      JobStep code s job (.releaseJob ⟨code⟩ progress r)
        (job.release progress s.scheduler.policy r).2

variable {jobCodes : List JobCode} {s s' : PollRun} {call : PollCall} {code : JobCode}
  {job : JobPoll}

theorem claims_of_claimed {now : Nat} (h : s.step (.tryClaimDueJob now) = some s')
    (hclaims : s'.claims = ⟨code⟩ :: s.claims) : Claims code s (.tryClaimDueJob now) := by
  unfold step at h
  split at h
  · cases h
  simp only [Option.some.injEq] at h
  refine ⟨now, rfl, ?_⟩
  rw [← h] at hclaims
  simp only at hclaims
  generalize (PollScheduler.tryClaimDueJob now s.scheduler).1 = answer at hclaims ⊢
  match answer, hclaims with
  | .ok (.claimed claim), hclaims =>
      simp only [claimsAfter, List.cons.injEq, and_true] at hclaims
      rw [hclaims]
  | .ok (.waitUntil _), hclaims => simp [claimsAfter] at hclaims
  | .ok .waitForPoolEvent, hclaims => simp [claimsAfter] at hclaims
  | .error _, hclaims => simp [claimsAfter] at hclaims

/-- A call leaves a job alone, claims it, or records what it reports of it. -/
theorem job_step (hinv : PollInv jobCodes s) (h : s.step call = some s')
    (hjob : s.scheduler.jobs code = some job) :
    ∃ job', s'.scheduler.jobs code = some job' ∧ JobStep code s job call job' := by
  obtain ⟨-, -, -, ⟨hidle, hscheduler, -⟩ | ⟨k, jobₖ, job', hk, hmove, hjobs⟩⟩ :=
    step_cases hinv h
  · refine ⟨job, by rw [hscheduler, hjob], .unmoved ?_⟩
    cases hidle with
    | look _ => rfl
    | unlisted hnone =>
        rw [PollCall.report, if_neg]
        intro heq
        rw [heq, hjob] at hnone
        cases hnone
  by_cases hcode : k = code
  · subst hcode
    rw [hjob] at hk
    cases hk
    refine ⟨job', by rw [hjobs, Function.update_self], ?_⟩
    generalize hclaims : s'.claims = claims' at hmove
    cases hmove with
    | claim hqueued hdue => exact .claim (claims_of_claimed h hclaims) hqueued
    | reschedule => exact .reschedule
    | release hclaimed hmem => exact .release hclaimed
  · refine ⟨job, by rw [hjobs, Function.update_of_ne (Ne.symm hcode), hjob], .unmoved ?_⟩
    generalize s'.claims = claims' at hmove
    cases hmove with
    | claim hqueued hdue => rfl
    | reschedule => simp [PollCall.report, hcode]
    | release hclaimed hmem => simp [PollCall.report, hcode]

/-! ## A request along a run -/

/-- The job is queued no later than {lit}`m`, or exhausted. -/
def Answered (code : JobCode) (m : Nat) (s : PollRun) : Prop :=
  s.scheduler.slot code = some .exhausted ∨
    ∃ pollAt ≤ m, s.scheduler.slot code = some (.queued pollAt)

/-- The slot of the job answers for a request by {lit}`m`, and the job is claimed or not. -/
def Carries (code : JobCode) (m : Nat) (isClaimed : Prop) (s : PollRun) : Prop :=
  ∃ job, s.scheduler.jobs code = some job ∧ job.slot.Keeps m ∧
    ((∃ recorded, job.slot = .claimed recorded) ↔ isClaimed)

theorem Carries.answered {m : Nat} (h : Carries code m False s) : Answered code m s := by
  obtain ⟨job, hjob, hkeeps, hclaimed⟩ := h
  rw [Answered, PollScheduler.slot, hjob]
  cases hslot : job.slot with
  | exhausted => exact Or.inl (by simp [hslot])
  | claimed recorded => exact (hclaimed.mp ⟨recorded, hslot⟩).elim
  | queued pollAt =>
      rw [hslot] at hkeeps
      exact Or.inr ⟨pollAt, hkeeps, by simp [hslot]⟩

/-- A job that is not claimed carries a request through every call that neither claims it
nor re-times it. -/
theorem Carries.step_unclaimed {m : Nat} (hinv : PollInv jobCodes s) (hs : Carries code m False s)
    (h : s.step call = some s') (hclaims : ¬Claims code s call) (hretimes : ¬Retimes code s call) :
    Carries code m False s' := by
  obtain ⟨job, hjob, hkeeps, hclaimed⟩ := hs
  obtain ⟨job', hjob', hstep⟩ := job_step hinv h hjob
  refine ⟨job', hjob', ?_⟩
  cases hstep with
  | unmoved _ => exact ⟨hkeeps, hclaimed⟩
  | claim hclaim _ => exact absurd hclaim hclaims
  | @reschedule progress r =>
      refine ⟨JobPoll.keeps_reschedule hkeeps ?_, JobPoll.claimed_reschedule.trans hclaimed⟩
      intro hcloses pollAt hqueued
      apply hretimes
      exact ⟨progress, r, pollAt, rfl, hcloses, by simp [PollScheduler.slot, hjob, hqueued]⟩
  | release hslot => exact (hclaimed.mp ⟨_, hslot⟩).elim

/-- A claimed job carries a request through every call but its release. -/
theorem Carries.step_claimed {m : Nat} (hinv : PollInv jobCodes s) (hs : Carries code m True s)
    (h : s.step call = some s') (hreleases : ¬call.Releases code) : Carries code m True s' := by
  obtain ⟨job, hjob, hkeeps, hclaimed⟩ := hs
  obtain ⟨recorded, hslot⟩ := hclaimed.mpr trivial
  obtain ⟨job', hjob', hstep⟩ := job_step hinv h hjob
  refine ⟨job', hjob', ?_⟩
  cases hstep with
  | unmoved _ => exact ⟨hkeeps, hclaimed⟩
  | claim _ hqueued =>
      rw [hslot] at hqueued
      cases hqueued
  | reschedule =>
      refine ⟨JobPoll.keeps_reschedule hkeeps ?_, JobPoll.claimed_reschedule.trans hclaimed⟩
      intro _ pollAt hqueued
      rw [hslot] at hqueued
      cases hqueued
  | release hslot => exact absurd ⟨_, _, rfl⟩ hreleases

/-- The release of a claimed job leaves it unclaimed and still answering. -/
theorem Carries.release {m : Nat} (hinv : PollInv jobCodes s) (hs : Carries code m True s)
    (h : s.step call = some s') (hreleases : call.Releases code) : Carries code m False s' := by
  obtain ⟨job, hjob, hkeeps, -⟩ := hs
  obtain ⟨job', hjob', hstep⟩ := job_step hinv h hjob
  obtain ⟨progress, r, rfl⟩ := hreleases
  refine ⟨job', hjob', ?_⟩
  cases hstep with
  | unmoved hreport => simp [PollCall.report] at hreport
  | claim hclaims _ =>
      obtain ⟨now, hcall, -⟩ := hclaims
      cases hcall
  | release hslot =>
      exact ⟨JobPoll.keeps_release hslot hkeeps,
        iff_false_intro (JobPoll.not_claimed_release hslot)⟩

/-- A report is answered for by the state it leaves. -/
theorem carries_of_requested {m : Nat} (hinv : PollInv jobCodes s)
    (hrequested : s.requested code call = some (.at m))
    (hlive : s.scheduler.slot code ≠ some .exhausted) (h : s.step call = some s') :
    Carries code m (∃ recorded, s'.scheduler.slot code = some (.claimed recorded)) s' := by
  rw [requested, Option.bind_eq_some_iff] at hrequested
  obtain ⟨job, hjob, hrequested⟩ := hrequested
  rw [Option.map_eq_some_iff] at hrequested
  obtain ⟨⟨progress, r⟩, hreport, hrequested⟩ := hrequested
  simp only at hrequested
  have hby : (job.calculatePoll progress s.scheduler.policy r).1.By m := by
    rw [hrequested]
    exact Nat.le_refl m
  have hjoblive : job.slot ≠ .exhausted := by
    intro hslot
    apply hlive
    rw [PollScheduler.slot, hjob, Option.map_some, hslot]
  obtain ⟨job', hjob', hstep⟩ := job_step hinv h hjob
  refine ⟨job', hjob', ?_, by simp [PollScheduler.slot, hjob']⟩
  cases hstep with
  | unmoved hnone =>
      rw [hnone] at hreport
      cases hreport
  | claim hclaims _ =>
      obtain ⟨now, rfl, -⟩ := hclaims
      cases hreport
  | reschedule =>
      simp only [PollCall.report, ↓reduceIte, Option.some.injEq, Prod.mk.injEq] at hreport
      obtain ⟨rfl, rfl⟩ := hreport
      exact JobPoll.keeps_reschedule_request hjoblive hby
  | release hslot =>
      simp only [PollCall.report, ↓reduceIte, Option.some.injEq, Prod.mk.injEq] at hreport
      obtain ⟨rfl, rfl⟩ := hreport
      exact JobPoll.keeps_release_request hslot hby

/-- Steps that neither claim the job nor re-time it. -/
def Untouched (code : JobCode) (s : PollRun) (call : PollCall) : Prop :=
  ¬Claims code s call ∧ ¬Retimes code s call

theorem answered_of_carries {m : Nat} (hinv : PollInv jobCodes s) (hs : Carries code m False s)
    (h : ReachableUnder PollRun.step (Untouched code) s s') : Answered code m s' := by
  have hboth : PollInv jobCodes s' ∧ Carries code m False s' :=
    h.invariant (P := fun s => PollInv jobCodes s ∧ Carries code m False s) ⟨hinv, hs⟩
      fun _ _ _ hs huntouched hstep =>
        ⟨hs.1.step _ hstep, hs.2.step_unclaimed hs.1 hstep huntouched.1 huntouched.2⟩
  exact hboth.2.answered

theorem carries_under_claim {m : Nat} (hinv : PollInv jobCodes s) (hs : Carries code m True s)
    (h : ReachableUnder PollRun.step (fun _ call => ¬call.Releases code) s s') :
    PollInv jobCodes s' ∧ Carries code m True s' :=
  h.invariant (P := fun s => PollInv jobCodes s ∧ Carries code m True s) ⟨hinv, hs⟩
    fun _ _ _ hs hreleases hstep => ⟨hs.1.step _ hstep, hs.2.step_claimed hs.1 hstep hreleases⟩

/-! ## How a job is given up -/

/-- A call gives a job up only through a request of no poll. -/
theorem requested_of_givenUp {job' : JobPoll} (hinv : PollInv jobCodes s)
    (h : s.step call = some s') (hjob : s.scheduler.jobs code = some job)
    (hjob' : s'.scheduler.jobs code = some job') (hgiven : job'.slot.GivenUp) :
    job.slot.GivenUp ∨ s.requested code call = some .never := by
  obtain ⟨job'', hjob'', hstep⟩ := job_step hinv h hjob
  rw [hjob'] at hjob''
  cases hjob''
  cases hstep with
  | unmoved _ => exact Or.inl hgiven
  | claim _ _ => simp [JobPoll.claim, JobSlot.GivenUp] at hgiven
  | reschedule =>
      refine (JobPoll.givenUp_reschedule hgiven).imp_right fun hnever => ?_
      simp [requested, hjob, PollCall.report, hnever]
  | release hslot =>
      refine (JobPoll.givenUp_release hslot hgiven).imp_right fun hnever => ?_
      simp [requested, hjob, PollCall.report, hnever]

/-! ## The order of the ends recorded under one claim -/

/-- The polls a run asks for on behalf of a job, in the order they are asked for. -/
def requests (code : JobCode) : PollRun → List PollCall → List PollDue
  | _, [] => []
  | s, call :: calls =>
      (s.requested code call).toList ++
        (match s.step call with
        | none => []
        | some s' => requests code s' calls)

/-- A run gives a job up only through a request of no poll. -/
theorem never_mem_requests {calls : List PollCall} {job' : JobPoll} (hinv : PollInv jobCodes s)
    (hrun : runActions PollRun.step s calls = some s') (hjob : s.scheduler.jobs code = some job)
    (hjob' : s'.scheduler.jobs code = some job') (hgiven : job'.slot.GivenUp) :
    job.slot.GivenUp ∨ .never ∈ requests code s calls := by
  induction calls generalizing s job with
  | nil =>
      cases hrun
      rw [hjob] at hjob'
      cases hjob'
      exact Or.inl hgiven
  | cons call calls ih =>
      rw [runActions, runAdmitted, if_pos rfl, Option.bind_eq_some_iff] at hrun
      obtain ⟨s₁, hstep, hrun⟩ := hrun
      obtain ⟨job₁, hjob₁, -⟩ := job_step hinv hstep hjob
      rw [requests, hstep]
      rcases ih (hinv.step _ hstep) hrun hjob₁ with hgiven₁ | hlater
      · refine (requested_of_givenUp hinv hstep hjob hjob₁ hgiven₁).imp_right fun hnever => ?_
        simp [hnever]
      · exact Or.inr (List.mem_append_right _ hlater)

/-- What a run leaves under a claim is what was recorded before it and the requests of
its execution ends, merged; the backoff step is left as it was. -/
theorem recorded_under_claim {calls : List PollCall} {recorded : Option PollDue}
    (hinv : PollInv jobCodes s) (hjob : s.scheduler.jobs code = some job)
    (hslot : job.slot = .claimed recorded) (hrun : runActions PollRun.step s calls = some s')
    (hreleases : ∀ call ∈ calls, ¬call.Releases code) :
    PollInv jobCodes s' ∧ s'.scheduler.policy = s.scheduler.policy ∧
      s'.scheduler.jobs code = some ⟨job.pollInterval,
        .claimed ((requests code s calls).foldl PollDue.record recorded)⟩ := by
  induction calls generalizing s job recorded with
  | nil =>
      cases hrun
      refine ⟨hinv, rfl, ?_⟩
      rw [hjob, requests, List.foldl_nil, ← hslot]
  | cons call calls ih =>
      rw [runActions, runAdmitted, if_pos rfl, Option.bind_eq_some_iff] at hrun
      obtain ⟨s₁, hstep, hrun⟩ := hrun
      obtain ⟨job₁, hjob₁, hjobstep⟩ := job_step hinv hstep hjob
      have hpolicy : s₁.scheduler.policy = s.scheduler.policy := (step_cases hinv hstep).2.2.1
      have hrest : ∀ call ∈ calls, ¬call.Releases code := fun c hc =>
        hreleases c (List.mem_cons_of_mem _ hc)
      -- The first call leaves the claim with its own request recorded.
      have hfirst : job₁.pollInterval = job.pollInterval ∧
          job₁.slot = .claimed ((s.requested code call).toList.foldl PollDue.record recorded) := by
        cases hjobstep with
        | unmoved hreport => simp [requested, hjob, hreport, hslot]
        | claim _ hqueued =>
            rw [hslot] at hqueued
            cases hqueued
        | reschedule =>
            rw [JobPoll.reschedule_claimed hslot]
            simp [requested, hjob, PollCall.report, PollDue.record]
        | release _ => exact absurd ⟨_, _, rfl⟩ (hreleases _ List.mem_cons_self)
      obtain ⟨hinv', hpolicy', hjob'⟩ := ih (hinv.step _ hstep) hjob₁ hfirst.2 hrun hrest
      refine ⟨hinv', hpolicy'.trans hpolicy, ?_⟩
      rw [hjob', requests, hstep, List.foldl_append, hfirst.1]

/-- What the release of a claimed job makes of it. -/
theorem job_of_release {progress : JobProgress} {r : Reading} (hinv : PollInv jobCodes s)
    (hjob : s.scheduler.jobs code = some job)
    (h : s.step (.releaseJob ⟨code⟩ progress r) = some s') :
    s'.scheduler.jobs code = some (job.release progress s.scheduler.policy r).2 := by
  obtain ⟨job', hjob', hstep⟩ := job_step hinv h hjob
  rw [hjob']
  cases hstep with
  | unmoved hreport => simp [PollCall.report] at hreport
  | claim hclaims _ =>
      obtain ⟨now, hcall, -⟩ := hclaims
      cases hcall
  | release _ => rfl

end PollRun

/-! ## No request is lost -/

/-- In every run of a schedule: once a task start or an execution end of a job that is not
exhausted asked for a poll by {lit}`m`, the job is queued no later than {lit}`m` through every
call that neither claims it nor re-times it, or is exhausted; when the job was claimed as an
execution ended, that holds from its release on.  A job becomes exhausted only in a run that
asked for no poll of it any more.  And of two orders in which executions end under one claim
with the same requests, both leave the same job once it is released. -/
theorem poll_request_kept {jobCodes : List JobCode} {config : PollSchedulerConfig} {start : Nat}
    {s : PollRun} (h : Reachable PollRun.step (.initial jobCodes config start) s) (code : JobCode) :
    (∀ call m s₁, s.requested code call = some (.at m) →
      s.scheduler.slot code ≠ some .exhausted → s.step call = some s₁ →
      ((∀ recorded, s₁.scheduler.slot code ≠ some (.claimed recorded)) →
        ∀ s₂, ReachableUnder PollRun.step (PollRun.Untouched code) s₁ s₂ →
          PollRun.Answered code m s₂) ∧
      ((∃ recorded, s₁.scheduler.slot code = some (.claimed recorded)) →
        ∀ s₂ release s₃ s₄,
          ReachableUnder PollRun.step (fun _ call => ¬call.Releases code) s₁ s₂ →
          release.Releases code → s₂.step release = some s₃ →
          ReachableUnder PollRun.step (PollRun.Untouched code) s₃ s₄ →
          PollRun.Answered code m s₄)) ∧
    (∀ calls s₁, runActions PollRun.step (.initial jobCodes config start) calls = some s₁ →
      s₁.scheduler.slot code = some .exhausted →
      .never ∈ PollRun.requests code (.initial jobCodes config start) calls) ∧
    ∀ recorded calls₁ calls₂ progress r s₁ s₂ s₁' s₂',
      s.scheduler.slot code = some (.claimed recorded) →
      runActions PollRun.step s calls₁ = some s₁ → (∀ call ∈ calls₁, ¬call.Releases code) →
      runActions PollRun.step s calls₂ = some s₂ → (∀ call ∈ calls₂, ¬call.Releases code) →
      (PollRun.requests code s calls₁).Perm (PollRun.requests code s calls₂) →
      s₁.step (.releaseJob ⟨code⟩ progress r) = some s₁' →
      s₂.step (.releaseJob ⟨code⟩ progress r) = some s₂' →
      s₁'.scheduler.jobs code = s₂'.scheduler.jobs code := by
  have hinv := reachable_pollInv h
  refine ⟨?_, ?_, ?_⟩
  · intro call m s₁ hrequested hlive hstep
    have hinv₁ := hinv.step _ hstep
    have hcarries := PollRun.carries_of_requested hinv hrequested hlive hstep
    constructor
    · intro hunclaimed s₂ hrun
      rw [eq_false (not_exists.mpr hunclaimed)] at hcarries
      exact PollRun.answered_of_carries hinv₁ hcarries hrun
    · intro hclaimed s₂ release s₃ s₄ hheld hreleases hrelease hrun
      rw [eq_true hclaimed] at hcarries
      obtain ⟨hinv₂, hcarries₂⟩ := PollRun.carries_under_claim hinv₁ hcarries hheld
      exact PollRun.answered_of_carries (hinv₂.step _ hrelease)
        (hcarries₂.release hinv₂ hrelease hreleases) hrun
  · intro calls s₁ hrun hexhausted
    have hinv₀ := pollInv_initial jobCodes config start
    obtain ⟨job₁, hjob₁, hslot₁⟩ := Option.map_eq_some_iff.mp hexhausted
    have hlisted : code ∈ jobCodes :=
      ((reachable_pollInv (reachable_of_runActions .init hrun)).listed code).mp (by simp [hjob₁])
    have hjob : (PollRun.initial jobCodes config start).scheduler.jobs code =
        some ⟨config.pollInterval, .queued start⟩ := by
      simp [PollRun.initial, PollScheduler.new, hlisted]
    refine (PollRun.never_mem_requests hinv₀ hrun hjob hjob₁ (Or.inl hslot₁)).resolve_left ?_
    simp [JobSlot.GivenUp]
  · intro recorded calls₁ calls₂ progress r s₁ s₂ s₁' s₂' hslot hrun₁ hheld₁ hrun₂ hheld₂ hperm
      hrelease₁ hrelease₂
    rw [PollScheduler.slot, Option.map_eq_some_iff] at hslot
    obtain ⟨job, hjob, hslot⟩ := hslot
    obtain ⟨hinv₁, hpolicy₁, hjob₁⟩ := PollRun.recorded_under_claim hinv hjob hslot hrun₁ hheld₁
    obtain ⟨hinv₂, hpolicy₂, hjob₂⟩ := PollRun.recorded_under_claim hinv hjob hslot hrun₂ hheld₂
    rw [PollRun.job_of_release hinv₁ hjob₁ hrelease₁, PollRun.job_of_release hinv₂ hjob₂ hrelease₂,
      hpolicy₁, hpolicy₂,
      hperm.foldl_eq' (fun a _ b _ z => PollDue.record_right_comm z a b) recorded]

/-- One job is claimed, an execution of it ends at instant 5 leaving a task to pick, and the
task start gives the job back at instant 9 having changed nothing. -/
theorem heldEnd_kept :
    ∃ s s₁ s₂ : PollRun, (PollRun.initial ["a"] .new 0).step (.tryClaimDueJob 0) = some s ∧
      s.requested "a" (.rescheduleJob "a" .taskPickable ⟨5, 5, 0⟩) = some (.at 5) ∧
      s.step (.rescheduleJob "a" .taskPickable ⟨5, 5, 0⟩) = some s₁ ∧
      s₁.step (.releaseJob ⟨"a"⟩ .stalled ⟨9, 9, 0⟩) = some s₂ ∧
      PollRun.Answered "a" 5 s₂ := by
  have hrun : ((PollRun.initial ["a"] .new 0).step (.tryClaimDueJob 0)).any (fun s =>
      s.requested "a" (.rescheduleJob "a" .taskPickable ⟨5, 5, 0⟩) = some (.at 5) &&
      s.scheduler.slot "a" = some (.claimed none) &&
      (s.step (.rescheduleJob "a" .taskPickable ⟨5, 5, 0⟩)).any (fun s₁ =>
        s₁.scheduler.slot "a" = some (.claimed (some (.at 5))) &&
        (s₁.step (.releaseJob ⟨"a"⟩ .stalled ⟨9, 9, 0⟩)).isSome)) = true := by
    decide +kernel
  obtain ⟨s, hs, hrun⟩ := (Option.any_eq_true _ _).mp hrun
  simp only [Bool.and_eq_true, decide_eq_true_eq] at hrun
  obtain ⟨⟨hrequested, hslot⟩, hrun⟩ := hrun
  obtain ⟨s₁, hs₁, hrun⟩ := (Option.any_eq_true _ _).mp hrun
  simp only [Bool.and_eq_true, decide_eq_true_eq] at hrun
  obtain ⟨hslot₁, hrun⟩ := hrun
  obtain ⟨s₂, hs₂⟩ := Option.isSome_iff_exists.mp hrun
  have hreachable : Reachable PollRun.step (.initial ["a"] .new 0) s := .step .init trivial hs
  have hkept := (poll_request_kept hreachable "a").1 _ 5 s₁ hrequested (by simp [hslot]) hs₁
  exact ⟨s, s₁, s₂, hs, hrequested, hs₁, hs₂,
    hkept.2 ⟨_, hslot₁⟩ s₁ _ s₂ s₂ .init ⟨_, _, rfl⟩ hs₂ .init⟩

end JobManager
