import JobManager.Execution.Worker

/-!
# What a worker asks of the store

Every call of a worker asks the store for a bounded number of things, whatever it is answered.
Only the writes of a start and of a result are repeated after a lost race; every other write is
sent once.  The save loop as a worker runs it, asking and being answered, is the save loop over
a slot.

Main results:

- Theorem {lit}`worker_requests_bounded`: how often a start and a record read and write.
- Theorem {lit}`save_program_is_loop`: the two forms of the save loop agree.
-/

namespace JobManager

open Program WorkerProgram

/-! ## What is counted -/

/-- The two ways to ask something of the store. -/
inductive StoreAccess where
  | read
  | write
deriving DecidableEq

namespace StoreAccess

def counts (access : StoreAccess) : WorkerRequest → Bool
  | .getJob => access = .read
  | .saveJob _ _ => access = .write
  | _ => false

/-- A read and a write are one access of either kind. -/
theorem counts_once (access : StoreAccess) (job : Job) (purpose : Purpose) :
    (access.counts .getJob).toNat + (access.counts (.saveJob job purpose)).toNat = 1 := by
  cases access <;> rfl

end StoreAccess

/-- Whether a write that lost its race may be repeated. -/
def Purpose.isRepeated : Purpose → Bool
  | .start _ => true
  | .result _ => true
  | _ => false

/-- A handler asks for another attempt only where the write may be repeated. -/
theorem isRepeated_of_retry {w : Uuid} {first second : Nat} {purpose : Purpose}
    {current saved merged : Job}
    (h : concurrentModificationHandler w first second purpose current saved = .ok (.retry merged)) :
    purpose.isRepeated = true := by
  cases purpose with
  | start _ => rfl
  | result _ => rfl
  | create => cases h
  | nextIteration _ => cases h
  | settle => cases h

/-! ## How often a worker asks -/

section Bounds

variable {α β : Type} {n m : Nat} {access : StoreAccess}

theorem atMost_return {a : α} : AtMost access.counts n (pure a : WorkerProgram α) := trivial

/-- A program after one that did not fail. -/
theorem atMost_andThen {x : WorkerProgram (Except InternalError α)}
    {f : α → WorkerProgram (Except InternalError β)} (hx : AtMost access.counts n x)
    (hf : ∀ a, AtMost access.counts m (f a)) : AtMost access.counts (n + m) (andThen x f) := by
  refine hx.bind fun result => ?_
  cases result with
  | ok a => exact hf a
  | error e => exact atMost_return

namespace Worker

variable (worker : Worker)

/-- What follows an attempt asks once less, and is about another attempt only where the write
may be repeated. -/
theorem atMost_attemptSave {purpose : Purpose} {job : Job}
    {f : Except InternalError (Retry.Step InternalError SaveOutcome × Job) → WorkerProgram α}
    (herror : ∀ e, AtMost access.counts n (f (.error e)))
    (hdone : ∀ outcome updated, AtMost access.counts n (f (.ok (.done outcome, updated))))
    (hretry : purpose.isRepeated = true → ∀ cause updated,
      AtMost access.counts n (f (.ok (.retry cause, updated)))) :
    AtMost access.counts (n + 1) (worker.attemptSave purpose job >>= f) := by
  refine AtMost.ask_bind_uncounted rfl fun isCancelled => ?_
  cases isCancelled with
  | true => exact (herror _).mono (Nat.le_succ n)
  | false =>
      rw [← access.counts_once job purpose, ← Nat.add_assoc]
      refine AtMost.ask_bind fun reply => ?_
      cases reply with
      | ok version => exact (hdone _ _).mono (Nat.le_add_right n _)
      | error e =>
          by_cases hconflict : e.isConflict = true
          · simp only [if_pos hconflict]
            refine AtMost.ask_bind fun read => ?_
            cases read with
            | error reason => exact herror _
            | ok saved =>
                refine AtMost.ask_bind_uncounted rfl fun moments => ?_
                obtain ⟨first, second⟩ := moments
                cases hdecision : concurrentModificationHandler worker.id first second purpose
                    job saved with
                | error reason => exact herror _
                | ok decision =>
                    cases decision with
                    | retry updated => exact hretry (isRepeated_of_retry hdecision) _ _
                    | done updated outcome => exact hdone _ _
          · simp only [if_neg hconflict]
            exact (herror _).mono (Nat.le_add_right n _)

/-- So many attempts read and write so often. -/
theorem atMost_saveAttempts (purpose : Purpose) (left : Nat) (job : Job) :
    AtMost access.counts (left + 1) (worker.saveAttempts purpose left job) := by
  induction left generalizing job with
  | zero =>
      unfold saveAttempts
      exact worker.atMost_attemptSave (fun _ => atMost_return) (fun _ _ => atMost_return)
        fun _ _ _ => atMost_return
  | succ left ih =>
      unfold saveAttempts
      refine worker.atMost_attemptSave (fun _ => atMost_return) (fun _ _ => atMost_return)
        fun _ _ updated => AtMost.ask_uncounted rfl fun isCancelled => ?_
      cases isCancelled with
      | true => exact atMost_return
      | false => exact ih updated

/-- A write that is not repeated is attempted once. -/
theorem atMost_saveAttempts_once {purpose : Purpose} (hrepeated : purpose.isRepeated = false)
    (left : Nat) (job : Job) :
    AtMost access.counts 1 (worker.saveAttempts purpose left job) := by
  unfold saveAttempts
  refine worker.atMost_attemptSave (fun _ => atMost_return) (fun _ _ => atMost_return)
    fun hretry => ?_
  rw [hrepeated] at hretry
  cases hretry

/-- A save sends as many requests as it may attempt, one at least. -/
theorem atMost_saveJobState (purpose : Purpose) (job : Job) :
    AtMost access.counts (max 1 worker.maxAttempts) (worker.saveJobState purpose job) :=
  (worker.atMost_saveAttempts purpose (worker.maxAttempts - 1) job).mono (by omega)

/-- Creating a job sends one. -/
theorem atMost_createNewJob (jobCode : String) :
    AtMost access.counts 1 (worker.createNewJob jobCode) := by
  unfold createNewJob
  split
  · exact atMost_return
  · refine AtMost.ask_uncounted rfl fun readings => ?_
    simp only
    split
    · exact atMost_return
    · exact atMost_andThen (worker.atMost_saveAttempts_once rfl _ _) fun _ => atMost_return (n := 0)

/-- Planning the next iteration sends one. -/
theorem atMost_startNewJobIteration (job : Job) :
    AtMost access.counts 1 (worker.startNewJobIteration job) := by
  unfold startNewJobIteration
  split
  · exact atMost_return
  · refine AtMost.ask_uncounted rfl fun readings => ?_
    simp only
    split
    · exact atMost_return
    · exact atMost_andThen (worker.atMost_saveAttempts_once rfl _ _) fun _ => atMost_return (n := 0)

/-- And so does advancing the job. -/
theorem atMost_advanceJobIteration (job : Job) :
    AtMost access.counts 1 (worker.advanceJobIteration job) := by
  unfold advanceJobIteration
  refine AtMost.ask_uncounted rfl fun now => ?_
  cases job.findIterationStatus now with
  | inProgress => exact atMost_return
  | closed next =>
      cases next with
      | ready =>
          refine (worker.atMost_startNewJobIteration job).bind (m := 0) fun result => ?_
          cases result with
          | ok job => exact atMost_return
          | error e => exact atMost_return
      | dueAt moment => exact atMost_return
      | budgetSpent => exact atMost_return
      | unscheduled => exact atMost_return

/-- Saving a settled iteration sends one: it is not repeated. -/
theorem atMost_saveSettledJobIteration (job : Job) :
    AtMost access.counts 1 (worker.saveSettledJobIteration job) := by
  refine atMost_andThen (m := 0) (worker.atMost_saveAttempts_once rfl _ _) fun (job, outcome) => ?_
  simp only
  split
  · exact atMost_return
  · refine AtMost.ask_uncounted rfl fun now => ?_
    cases job.findIterationStatus now <;> exact atMost_return

/-- Saving a start sends as many as it may attempt. -/
theorem atMost_saveStart (taskId : Uuid) (job : Job) :
    AtMost access.counts (max 1 worker.maxAttempts) (worker.saveStart taskId job) := by
  refine atMost_andThen (m := 0) (worker.atMost_saveJobState _ _) fun (job, outcome) => ?_
  simp only
  split
  · exact atMost_return
  · exact AtMost.ask_uncounted rfl fun now => atMost_return

/-- And so does starting a task of an iteration. -/
theorem atMost_startTaskInIteration (job : Job) :
    AtMost access.counts (max 1 worker.maxAttempts) (worker.startTaskInIteration job) := by
  have hone : 1 ≤ max 1 worker.maxAttempts := Nat.le_max_left 1 _
  unfold startTaskInIteration
  refine AtMost.ask_uncounted rfl fun (moments, startAt) => ?_
  simp only
  split
  · exact atMost_return
  · exact atMost_return
  · exact (worker.atMost_saveSettledJobIteration _).mono hone
  · split
    · exact atMost_return
    · split
      · exact atMost_return
      · exact atMost_return
      · exact worker.atMost_saveStart _ _

/-- Finding a job sends one, and one more where it is created. -/
theorem atMost_getOrCreateJob (jobCode : String) :
    AtMost access.counts (1 + (access.counts .getJob).toNat) (worker.getOrCreateJob jobCode) := by
  unfold getOrCreateJob
  refine AtMost.ask fun reply => ?_
  split
  · exact atMost_return
  · exact worker.atMost_createNewJob jobCode
  · exact atMost_return

/-- A start looks the job up, and creates it, starts its next iteration and saves the start. -/
theorem atMost_startTask (jobCode : String) :
    AtMost access.counts (max 1 worker.maxAttempts + 2 + (access.counts .getJob).toNat)
      (worker.startTask jobCode) := by
  have hstart : AtMost access.counts
      (1 + (access.counts .getJob).toNat + (1 + max 1 worker.maxAttempts))
      (worker.startTask jobCode) := by
    unfold startTask
    refine (worker.atMost_getOrCreateJob jobCode).bind fun found => ?_
    cases found with
    | error e => exact atMost_return
    | ok job =>
        refine (worker.atMost_advanceJobIteration job).bind fun advance => ?_
        cases advance with
        | stalled => exact atMost_return
        | closed next => exact atMost_return
        | «open» job =>
            refine AtMost.bind (m := 0) (worker.atMost_startTaskInIteration job) fun result => ?_
            cases result with
            | ok taskStart => exact atMost_return
            | error e => exact atMost_return
  exact hstart.mono (by omega)

/-- Saving a result sends as many as it may attempt. -/
theorem atMost_saveTask (taskId : Uuid) (settleAt : Nat) (job : Job) :
    AtMost access.counts (max 1 worker.maxAttempts) (worker.saveTask taskId settleAt job) := by
  unfold saveTask
  split
  · exact atMost_return
  · refine atMost_andThen (m := 0) (worker.atMost_saveJobState _ _) fun (job, outcome) => ?_
    simp only
    split
    · refine AtMost.ask_uncounted rfl fun now => ?_
      cases job.findIterationStatus now with
      | closed next => exact atMost_return
      | inProgress => exact AtMost.ask_uncounted rfl fun now => atMost_return
    · exact AtMost.ask_uncounted rfl fun now => atMost_return

/-- And so does recording an execution. -/
theorem atMost_recordRun (taskId : Uuid) (run : ExecutorRun) :
    AtMost access.counts (max 1 worker.maxAttempts) (worker.recordRun taskId run) := by
  unfold recordRun
  split
  · exact AtMost.ask_uncounted rfl fun now => atMost_return
  · refine AtMost.ask_uncounted rfl fun (now, settleAt) => ?_
    simp only
    split
    · exact atMost_return
    · exact worker.atMost_saveTask _ _ _

end Worker

end Bounds

/-- Whatever surrounds a worker, it asks the store for a bounded number of things: the lookup of
the job, its creation and the start of its next iteration take one write each and one read to
settle a lost race, and only the start or the result of a task is tried as often as the worker
may.  So a start writes at most two times more than that, and reads at most three times more; the
record of an execution reads and writes no more often than that. -/
theorem worker_requests_bounded (worker : Worker) {σ : Type}
    (answer : σ → (q : WorkerRequest) → q.Reply × σ) (s : σ) :
    (∀ jobCode,
      ((worker.startTask jobCode).asked answer s).countP (StoreAccess.counts .write) ≤
        max 1 worker.maxAttempts + 2 ∧
      ((worker.startTask jobCode).asked answer s).countP (StoreAccess.counts .read) ≤
        max 1 worker.maxAttempts + 3) ∧
    ∀ taskId run access,
      ((worker.recordRun taskId run).asked answer s).countP (StoreAccess.counts access) ≤
        max 1 worker.maxAttempts := by
  refine ⟨fun jobCode => ⟨?_, ?_⟩, fun taskId run access => ?_⟩
  · exact (worker.atMost_startTask jobCode).countP_asked answer s
  · exact (worker.atMost_startTask jobCode).countP_asked answer s
  · exact (worker.atMost_recordRun taskId run).countP_asked answer s

/-! ## The two forms of the save loop -/

/-- What surrounds a save: the pauses a cancellation cuts short, what every attempt meets, the
moments its handler reads, and what anything else would be answered. -/
structure SaveSurroundings where
  isPauseCancelled : Nat → Bool
  replies : Nat → AttemptReplies
  moments : Nat → Nat × Nat
  others : (q : WorkerRequest) → q.Reply

/-- Where a save stands: the attempt, whether the next cancellation is that of its pause, and the
writes it sent, newest first. -/
structure SaveProgress where
  attempt : Nat
  isPausing : Bool
  writes : List SentWrite

namespace SaveSurroundings

variable (m : SaveSurroundings) (worker : Worker) (purpose : Purpose)

/-- Answer what a save asks. -/
def answer (p : SaveProgress) : (q : WorkerRequest) → q.Reply × SaveProgress
  | .isCancelled =>
      if p.isPausing then
        (m.isPauseCancelled p.attempt, { p with attempt := p.attempt + 1, isPausing := false })
      else
        (decide ((m.replies p.attempt).cancelledAt = some .start), { p with isPausing := true })
  | .saveJob job _ =>
      if (m.replies p.attempt).cancelledAt = some .write then
        (.error .cancelled, { p with writes := ⟨job, none⟩ :: p.writes })
      else
        ((m.replies p.attempt).write,
          { p with writes := ⟨job, some (m.replies p.attempt).write⟩ :: p.writes })
  | .getJob =>
      if (m.replies p.attempt).cancelledAt = some .read then (.error .cancelled, p)
      else ((m.replies p.attempt).read, p)
  | .mergeReadings => (m.moments p.attempt, p)
  | q => (m.others q, p)

/-- The save loop of a worker in these surroundings. -/
def loop : SaveLoop where
  maxAttempts := worker.maxAttempts
  isPauseCancelled := m.isPauseCancelled
  replies := m.replies
  handler := fun attempt =>
    concurrentModificationHandler worker.id (m.moments attempt).1 (m.moments attempt).2 purpose

/-- Both forms of an attempt fail alike, or both end with the same step and the same job. -/
def AttemptsAgree (attempt : Nat)
    (program : Except InternalError (Retry.Step InternalError SaveOutcome × Job) × SaveProgress)
    (slot : Except InternalError (Retry.Step InternalError SaveOutcome) × SaveCall) : Prop :=
  (∃ e p call, program = (.error e, p) ∧ slot = (.error e, call) ∧ p.writes = call.writes) ∨
    ∃ step job writes, program = (.ok (step, job), ⟨attempt, true, writes⟩) ∧
      slot = (.ok step, ⟨some job, writes⟩)

theorem attemptSave_agrees (job : Job) (attempt : Nat) (writes : List SentWrite) :
    AttemptsAgree attempt
      ((worker.attemptSave purpose job).run m.answer ⟨attempt, false, writes⟩)
      (attemptSave (m.replies attempt) ((m.loop worker purpose).handler attempt)
        ⟨some job, writes⟩) := by
  unfold Worker.attemptSave attemptSave
  by_cases hstart : (m.replies attempt).cancelledAt = some .start
  · simp only [run_bind, run_request, answer, hstart, decide_true, Bool.false_eq_true, if_false,
      if_true]
    exact Or.inl ⟨_, _, _, rfl, rfl, rfl⟩
  simp only [run_bind, run_request, answer, hstart, decide_false, Bool.false_eq_true, if_false,
    Mutation.bind_apply, SaveCall.takeJob, SaveCall.saveJob]
  by_cases hwrite : (m.replies attempt).cancelledAt = some .write
  · simp only [if_pos hwrite]
    exact Or.inl ⟨_, _, _, rfl, rfl, rfl⟩
  simp only [if_neg hwrite]
  cases hreply : (m.replies attempt).write with
  | ok version => exact Or.inr ⟨_, _, _, rfl, rfl⟩
  | error e =>
      simp only
      by_cases hconflict : e.isConflict = true
      · rw [if_pos hconflict, if_pos hconflict, run_bind, run_request]
        by_cases hread : (m.replies attempt).cancelledAt = some .read
        · simp only [answer, if_pos hread]
          exact Or.inl ⟨_, _, _, rfl, rfl, rfl⟩
        simp only [answer, if_neg hread, Mutation.bind_apply, Mutation.ofExcept_apply]
        cases (m.replies attempt).read with
        | error reason => exact Or.inl ⟨_, _, _, rfl, rfl, rfl⟩
        | ok saved =>
            simp only [Except.mapError, run_bind, run_request, answer]
            have hhandler : (m.loop worker purpose).handler attempt =
                concurrentModificationHandler worker.id (m.moments attempt).1
                  (m.moments attempt).2 purpose := rfl
            rw [hhandler]
            cases concurrentModificationHandler worker.id (m.moments attempt).1
                (m.moments attempt).2 purpose job saved with
            | error reason => exact Or.inl ⟨_, _, _, rfl, rfl, rfl⟩
            | ok decision =>
                cases decision with
                | retry updated => exact Or.inr ⟨_, _, _, rfl, rfl⟩
                | done updated outcome => exact Or.inr ⟨_, _, _, rfl, rfl⟩
      · rw [if_neg hconflict, if_neg hconflict]
        exact Or.inl ⟨_, _, _, rfl, rfl, rfl⟩

/-- Both forms of the attempts that are left end alike, after the same writes. -/
def SavesAgree (program : Except InternalError (Job × SaveOutcome) × SaveProgress)
    (slot : Except InternalError SaveOutcome × SaveCall) : Prop :=
  (∃ e p call, program = (.error e, p) ∧ slot = (.error e, call) ∧ p.writes = call.writes) ∨
    ∃ job outcome p, program = (.ok (job, outcome), p) ∧
      slot = (.ok outcome, ⟨some job, p.writes⟩)

theorem saveAttempts_agrees (left : Nat) (job : Job) (attempt : Nat) (writes : List SentWrite) :
    SavesAgree ((worker.saveAttempts purpose left job).run m.answer ⟨attempt, false, writes⟩)
      (Retry.retryFrom InternalError.reports m.isPauseCancelled
        (fun attempt => attemptSave (m.replies attempt) ((m.loop worker purpose).handler attempt))
        attempt left ⟨some job, writes⟩) := by
  unfold Worker.saveAttempts Retry.retryFrom
  rw [run_bind]
  rcases m.attemptSave_agrees worker purpose job attempt writes with
    ⟨e, p, call, hprogram, hslot, hwrites⟩ | ⟨step, updated, written, hprogram, hslot⟩
  · rw [hprogram, hslot]
    exact Or.inl ⟨e, p, call, rfl, rfl, hwrites⟩
  · rw [hprogram, hslot]
    cases step with
    | done outcome => exact Or.inr ⟨_, _, _, rfl, rfl⟩
    | retry cause =>
        cases left with
        | zero => exact Or.inl ⟨_, _, _, rfl, rfl, rfl⟩
        | succ left =>
            simp only [run_bind, run_request, answer, if_true]
            by_cases hpause : m.isPauseCancelled attempt = true
            · rw [if_pos hpause, if_pos hpause]
              exact Or.inl ⟨_, _, _, rfl, rfl, rfl⟩
            · rw [if_neg hpause, if_neg hpause]
              exact saveAttempts_agrees left updated (attempt + 1) written

end SaveSurroundings

/-- The save loop a worker runs, asking what surrounds it, is the save loop over a slot: where
both are attempted as often, are cancelled at the same places and are answered alike, they answer
the same and send the same writes in the same order. -/
theorem save_program_is_loop (m : SaveSurroundings) (worker : Worker) (purpose : Purpose)
    (job : Job) :
    ((worker.saveJobState purpose job).run m.answer ⟨0, false, []⟩).1 =
      ((m.loop worker purpose).saveJobState job).1 ∧
    ((worker.saveJobState purpose job).run m.answer ⟨0, false, []⟩).2.writes =
      ((m.loop worker purpose).saveJobState job).2.writes := by
  have hagree : SaveSurroundings.SavesAgree
      ((worker.saveJobState purpose job).run m.answer ⟨0, false, []⟩)
      (Retry.retry InternalError.reports (m.loop worker purpose).maxAttempts
        (m.loop worker purpose).isPauseCancelled
        (fun attempt => attemptSave ((m.loop worker purpose).replies attempt)
          ((m.loop worker purpose).handler attempt)) ⟨some job, []⟩) :=
    m.saveAttempts_agrees worker purpose (worker.maxAttempts - 1) job 0 []
  rw [SaveLoop.saveJobState, Mutation.bind_apply]
  rcases hagree with ⟨e, p, call, hprogram, hslot, hwrites⟩ | ⟨updated, outcome, p, hprogram, hslot⟩
  · rw [hprogram, hslot]
    exact ⟨rfl, hwrites⟩
  · rw [hprogram, hslot]
    exact ⟨rfl, rfl⟩

end JobManager
