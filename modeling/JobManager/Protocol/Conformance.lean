import JobManager.Execution.Worker

/-!
# The programs of a worker follow the protocol

Each request of a worker, with its reply, leads from one phase of the protocol to another or
leaves the phase as it is.  Whatever a worker is answered, it asks only for what its phase
allows; and what it reports follows from what it was answered.

Main results:

- Theorem {lit}`Worker.saveJobState_conforms`: the save loop ends where the write was
  acknowledged, or where the loss of its race led.
- Theorem {lit}`Worker.startTask_conforms`: the start of a task.
- Theorem {lit}`Worker.recordRun_conforms`: the record of an execution.
-/

namespace JobManager

open Program

/-! ## Requests and phases -/

/-- What a worker may ask in a phase. -/
def Phase.allows : Phase → WorkerRequest → Prop
  | _, .isCancelled => True
  | _, .now => True
  | .idle, .getJob => True
  | .missing, .planReadings => True
  | .loaded job, .planReadings => job.isProcessed = true
  | .loaded job, .pickReadings => job.isProcessed = false
  | .saving job purpose, .saveJob job' purpose' => job' = job ∧ purpose' = purpose
  | .conflicted _ _, .getJob => True
  | .merging _ _ _, .mergeReadings => True
  | .executing _ _, .finishReadings _ => True
  | _, _ => False

/-- Where a job that was read leads. -/
def Phase.afterRead (job : Job) : Phase → Phase
  | .conflicted own purpose => .merging own job purpose
  | _ => .loaded job

/-- Where a failed read leads: a job that does not exist is created, unless its own state was
read again. -/
def Phase.afterUnread : StorageError → Phase → Phase
  | _, .conflicted _ _ => .idle
  | .notFound _, _ => .missing
  | _, _ => .idle

/-- Where a failed write leads. -/
def Phase.afterUnsaved (e : StorageError) (job : Job) (purpose : Purpose) : Phase :=
  if e.isConflict then .conflicted job purpose else .idle

/-- Plan the first iteration of a job, or the one after the job that was read. -/
def Phase.afterPlan (jobDef : JobDefinition) (w : Uuid) (now : Nat) (jobId : Uuid)
    (ids : List Uuid) : Phase → Phase
  | .loaded job =>
      match Job.nextIteration jobDef w jobId ids now job with
      | (.ok (), job) => .saving job (.nextIteration now)
      | (.error _, _) => .idle
  | _ =>
      match Job.new jobDef [] w jobId ids now with
      | .ok job => .saving job .create
      | .error _ => .idle

def Phase.afterPick (w : Uuid) (moments : Job.PickMoments) (startAt : Nat) : Phase → Phase
  | .loaded job => pickAndStart w moments startAt job
  | p => p

def Phase.afterMerge (w : Uuid) (first second : Nat) : Phase → Phase
  | .merging job saved purpose => resolveConflict w job saved first second purpose
  | p => p

def Phase.afterFinish (w : Uuid) (outcome : ExecutorOutcome) (now settleAt : Nat) : Phase → Phase
  | .executing job taskId => finishExecution w taskId outcome now settleAt job
  | p => p

/-- Where a request of worker {lit}`w` and its reply lead. -/
def Phase.after (jobDef : JobDefinition) (w : Uuid) (p : Phase) :
    (q : WorkerRequest) → q.Reply → Phase
  | .getJob, .ok job => p.afterRead job
  | .getJob, .error e => p.afterUnread e
  | .saveJob job purpose, .ok version => afterSave (job.updateVersion version) purpose
  | .saveJob job purpose, .error e => .afterUnsaved e job purpose
  | .isCancelled, _ => p
  | .now, _ => p
  | .planReadings, (now, jobId, ids) => p.afterPlan jobDef w now jobId ids
  | .pickReadings, (moments, startAt) => p.afterPick w moments startAt
  | .mergeReadings, (first, second) => p.afterMerge w first second
  | .finishReadings outcome, (now, settleAt) => p.afterFinish w outcome now settleAt

/-- The protocol, as one worker follows it. -/
def workerProtocol (jobDef : JobDefinition) (w : Uuid) :
    Protocol WorkerRequest WorkerRequest.Reply Phase where
  asks := Phase.allows
  after := Phase.after jobDef w

/-- What a worker is told by the replies it gets. -/
abbrev Told := (q : WorkerRequest) → q.Reply → Prop

/-- From a phase a program follows the protocol, and what it answers fits the phase it answers
in and what it was told. -/
abbrev Follows {α : Type} (jobDef : JobDefinition) (w : Uuid) (told : Told)
    (post : α → Phase → Prop) : Phase → WorkerProgram α → Prop :=
  Conforms (workerProtocol jobDef w) told post

section Rules

variable {jobDef : JobDefinition} {w : Uuid} {told : Told} {α β : Type} {post : α → Phase → Prop}
  {p : Phase}

/-- A look for a cancellation may answer anything. -/
theorem Follows.isCancelled {k : Bool → WorkerProgram α}
    (h : ∀ cancelled, Follows jobDef w told post p (k cancelled)) :
    Follows jobDef w told post p (WorkerProgram.isCancelled >>= k) :=
  Conforms.ask (by cases p <;> exact trivial) fun cancelled _ => h cancelled

/-- A reading of the clock answers what the readings are told to be. -/
theorem Follows.now {k : Nat → WorkerProgram α}
    (h : ∀ t, told .now t → Follows jobDef w told post p (k t)) :
    Follows jobDef w told post p (WorkerProgram.now >>= k) :=
  Conforms.ask (by cases p <;> exact trivial) fun t ht => h t ht

/-- What a program that did not fail answers; a failure may come in any phase. -/
def IfOk (post : α → Phase → Prop) (r : Except InternalError α) (p : Phase) : Prop :=
  ∀ a, r = .ok a → post a p

/-- A program that is done holds its result. -/
theorem Follows.ok {a : α} (h : post a p) :
    Follows jobDef w told (IfOk post) p (.done (.ok a)) := by
  rintro b hb
  cases hb
  exact h

/-- A program that failed promises nothing. -/
theorem Follows.failed {e : InternalError} :
    Follows jobDef w told (IfOk post) p (.done (.error e)) := by
  rintro a ha
  cases ha

/-- What follows a program that succeeded starts where it ended. -/
theorem Follows.andThen {post' : β → Phase → Prop}
    {x : WorkerProgram (Except InternalError α)}
    {f : α → WorkerProgram (Except InternalError β)}
    (hx : Follows jobDef w told (IfOk post) p x)
    (hf : ∀ a p', post a p' → Follows jobDef w told (IfOk post') p' (f a)) :
    Follows jobDef w told (IfOk post') p (x.andThen f) := by
  refine Conforms.bind hx fun r p' hr => ?_
  cases r with
  | error e => exact Follows.failed
  | ok a => exact hf a p' (hr a rfl)

end Rules

namespace Worker

variable {jobDef : JobDefinition} {told : Told} (worker : Worker)

/-! ## Saving -/

/-- How a save ends: the write of a state that meets {lit}`I` was acknowledged, or its race was
lost and a state that was read again decides what the worker goes on with. -/
def SaveEnd (told : Told) (w : Uuid) (I : Job → Prop) (purpose : Purpose)
    (r : Job × SaveOutcome) (p : Phase) : Prop :=
  (r.2 = .saved ∧ ∃ (written : Job) (version : String), I written ∧
    told (.saveJob written purpose) (.ok version) ∧ r.1 = written.updateVersion version ∧
    p = afterSave r.1 purpose) ∨
  ∃ current saved first second e, told (.saveJob current purpose) (.error e) ∧
    e.isConflict = true ∧ told .getJob (.ok saved) ∧
    concurrentModificationHandler w first second purpose current saved = .ok (.done r.1 r.2) ∧
    p = resolveConflict w current saved first second purpose

/-- Where one attempt leaves the worker. -/
def AttemptEnds (told : Told) (w : Uuid) (I : Job → Prop) (purpose : Purpose)
    (r : Retry.Step InternalError SaveOutcome × Job) (p : Phase) : Prop :=
  match r.1 with
  | .done outcome => SaveEnd told w I purpose (r.2, outcome) p
  | .retry _ => p = .saving r.2 purpose ∧ I r.2

section Saving

variable {I : Job → Prop} {purpose : Purpose}
  (hmerged : ∀ current saved first second merged,
    concurrentModificationHandler worker.id first second purpose current saved =
      .ok (.retry merged) → I merged)

include hmerged

/-- One attempt to save follows the protocol. -/
theorem attemptSave_conforms {job : Job} (hjob : I job) :
    Follows jobDef worker.id told (IfOk (AttemptEnds told worker.id I purpose))
      (.saving job purpose) (worker.attemptSave purpose job) := by
  unfold attemptSave
  refine Follows.isCancelled fun cancelled => ?_
  cases cancelled with
  | true => exact Follows.failed
  | false =>
      refine Conforms.ask ⟨rfl, rfl⟩ fun reply hwritten => ?_
      rcases reply with e | version
      · cases hconflict : e.isConflict with
        | false =>
            simp only [hconflict]
            exact Follows.failed
        | true =>
            simp only [hconflict]
            have hphase : (workerProtocol jobDef worker.id).after (.saving job purpose)
                (.saveJob job purpose) (.error e) = .conflicted job purpose := if_pos hconflict
            rw [hphase]
            refine Conforms.ask trivial fun reply hread => ?_
            rcases reply with reason | saved
            · exact Follows.failed
            · refine Conforms.ask trivial fun readings _ => ?_
              rcases readings with ⟨first, second⟩
              have hphase : (workerProtocol jobDef worker.id).after (.merging job saved purpose)
                  .mergeReadings (first, second) =
                    resolveConflict worker.id job saved first second purpose := rfl
              rcases concurrentModificationHandler_cases worker.id first second purpose job saved
                with ⟨merged, hretry⟩ | ⟨taken, outcome, -, hdone⟩ | ⟨e', herror⟩
              · simp only [hretry]
                have hsaving := hphase.trans (resolveConflict_eq_saving_iff.mpr hretry)
                exact Follows.ok ⟨hsaving, hmerged _ _ _ _ _ hretry⟩
              · simp only [hdone]
                exact Follows.ok
                  (Or.inr ⟨job, saved, first, second, e, hwritten, hconflict, hread, hdone, hphase⟩)
              · simp only [herror]
                exact Follows.failed
      · exact Follows.ok (Or.inl ⟨rfl, job, version, hjob, hwritten, rfl, rfl⟩)

/-- And so do all of them. -/
theorem saveAttempts_conforms (left : Nat) {job : Job} (hjob : I job) :
    Follows jobDef worker.id told (IfOk (SaveEnd told worker.id I purpose))
      (.saving job purpose) (worker.saveAttempts purpose left job) := by
  induction left generalizing job with
  | zero =>
      unfold saveAttempts
      refine Conforms.bind (worker.attemptSave_conforms hmerged hjob) fun r p hr => ?_
      rcases r with e | ⟨outcome | cause, updated⟩
      · exact Follows.failed
      · exact Follows.ok (hr _ rfl)
      · exact Follows.failed
  | succ left ih =>
      unfold saveAttempts
      refine Conforms.bind (worker.attemptSave_conforms hmerged hjob) fun r p hr => ?_
      rcases r with e | ⟨outcome | cause, updated⟩
      · exact Follows.failed
      · exact Follows.ok (hr _ rfl)
      · obtain ⟨rfl, hupdated⟩ := hr _ rfl
        refine Follows.isCancelled fun cancelled => ?_
        cases cancelled with
        | true => exact Follows.failed
        | false => exact ih hupdated

/-- The save loop ends where the write was acknowledged, or where the loss of its race led. -/
theorem saveJobState_conforms {job : Job} (hjob : I job) :
    Follows jobDef worker.id told (IfOk (SaveEnd told worker.id I purpose))
      (.saving job purpose) (worker.saveJobState purpose job) :=
  worker.saveAttempts_conforms hmerged _ hjob

end Saving

/-- The save loop, of whatever state. -/
theorem saveJobState_ends (purpose : Purpose) (job : Job) :
    Follows jobDef worker.id told (IfOk (SaveEnd told worker.id (fun _ => True) purpose))
      (.saving job purpose) (worker.saveJobState purpose job) :=
  worker.saveJobState_conforms (fun _ _ _ _ _ _ => trivial) trivial

/-! ## Starting a task -/

/-- A state of the job that the store was told of: read, or written and acknowledged. -/
def InStore (told : Told) (job : Job) : Prop :=
  told .getJob (.ok job) ∨
    ∃ written purpose version, told (.saveJob written purpose) (.ok version) ∧
      job = written.updateVersion version

/-- No handler reports a write that lost its race as saved. -/
theorem ne_saved_of_done {w : Uuid} {first second : Nat} {purpose : Purpose}
    {current saved job : Job} {outcome : SaveOutcome}
    (h : concurrentModificationHandler w first second purpose current saved =
      .ok (.done job outcome)) : outcome ≠ .saved := by
  rcases concurrentModificationHandler_cases w first second purpose current saved with
    ⟨_, h'⟩ | ⟨_, _, hne, h'⟩ | ⟨_, h'⟩ <;> rw [h'] at h <;> cases h
  exact hne

/-- A state reported as saved is one of the store. -/
theorem SaveEnd.inStore {w : Uuid} {I : Job → Prop} {purpose : Purpose} {r : Job × SaveOutcome}
    {p : Phase} (h : SaveEnd told w I purpose r p) (hsaved : r.2 = .saved) :
    InStore told r.1 := by
  rcases h with ⟨-, written, version, -, htold, hjob, -⟩ | ⟨current, saved, first, second, e, -, -,
    -, hdone, -⟩
  · exact Or.inr ⟨written, purpose, version, htold, hjob⟩
  · exact absurd hsaved (ne_saved_of_done hdone)

/-- What a worker loaded, and that the store has it. -/
def Loaded (told : Told) (job : Job) (p : Phase) : Prop :=
  p = .loaded job ∧ InStore told job

/-- What a worker reports about a start, from what it was told. -/
def StartHolds (told : Told) (w : Uuid) : TaskStart → Phase → Prop
  | .started startedTask pickable, p =>
      p = .executing startedTask.job startedTask.taskId ∧
        (∃ written version, told (.saveJob written (.start startedTask.taskId)) (.ok version) ∧
          startedTask.job = written.updateVersion version) ∧
        ∃ t, told .now t ∧ pickable = startedTask.job.hasPickableTask t
  | .noTaskAvailable retryAt, _ =>
      ∃ job moments startAt, InStore told job ∧ job.isProcessed = false ∧
        told .pickReadings (moments, startAt) ∧
        (Job.pickTaskToExecute w moments job).1 = .ok (.waiting retryAt)
  | .iterationClosed next, _ =>
      ∃ job t, InStore told job ∧ told .now t ∧ job.findIterationStatus t = .closed next
  | .lostToAnotherWorker, _ =>
      (∃ job purpose e, told (.saveJob job purpose) (.error e) ∧ e.isConflict = true) ∨
        ∃ job moments startAt taskId, InStore told job ∧
          told .pickReadings (moments, startAt) ∧
          (Job.pickTaskToExecute w moments job).1 = .ok (.ready taskId) ∧
          (Job.startTask taskId w startAt (Job.pickTaskToExecute w moments job).2).1 =
            .error .taskWorkerMismatch
  | .stalled, _ => True

/-- Who is told more was told enough. -/
theorem InStore.mono {told told' : Told} (hmore : ∀ q reply, told q reply → told' q reply)
    {job : Job} (h : InStore told job) : InStore told' job := by
  rcases h with hread | ⟨written, purpose, version, hwritten, hjob⟩
  · exact Or.inl (hmore _ _ hread)
  · exact Or.inr ⟨written, purpose, version, hmore _ _ hwritten, hjob⟩

/-- What holds of a start holds of it on richer answers. -/
theorem StartHolds.mono {told told' : Told} (hmore : ∀ q reply, told q reply → told' q reply)
    {w : Uuid} {taskStart : TaskStart} {p : Phase} (h : StartHolds told w taskStart p) :
    StartHolds told' w taskStart p := by
  cases taskStart with
  | started startedTask pickable =>
      obtain ⟨hp, ⟨written, version, hwritten, hjob⟩, t, ht, hpickable⟩ := h
      exact ⟨hp, ⟨written, version, hmore _ _ hwritten, hjob⟩, t, hmore _ _ ht, hpickable⟩
  | noTaskAvailable retryAt =>
      obtain ⟨job, moments, startAt, hstored, hopen, hreadings, hpick⟩ := h
      exact ⟨job, moments, startAt, hstored.mono hmore, hopen, hmore _ _ hreadings, hpick⟩
  | iterationClosed next =>
      obtain ⟨job, t, hstored, ht, hstatus⟩ := h
      exact ⟨job, t, hstored.mono hmore, hmore _ _ ht, hstatus⟩
  | lostToAnotherWorker =>
      rcases h with ⟨job, purpose, e, hwritten, hconflict⟩ |
        ⟨job, moments, startAt, taskId, hstored, hreadings, hpick, hstart⟩
      · exact Or.inl ⟨job, purpose, e, hmore _ _ hwritten, hconflict⟩
      · exact Or.inr ⟨job, moments, startAt, taskId, hstored.mono hmore, hmore _ _ hreadings,
          hpick, hstart⟩
  | stalled => trivial

section Starting

variable (hregistered : worker.jobRegistry.getJob jobDef.code = .ok jobDef)
  (hcode : ∀ job, told .getJob (.ok job) → job.code = jobDef.code)

include hregistered hcode

/-- Creating a job follows the protocol. -/
theorem createNewJob_conforms :
    Follows jobDef worker.id told
      (IfOk fun job p => Loaded told job p ∧ job.code = jobDef.code)
      .missing (worker.createNewJob jobDef.code) := by
  unfold createNewJob
  rw [hregistered]
  refine Conforms.ask trivial fun readings _ => ?_
  rcases readings with ⟨now, jobId, ids⟩
  cases hnew : Job.new jobDef [] worker.id jobId ids now with
  | error e =>
      simp only [hnew]
      exact Follows.failed
  | ok job =>
      have hphase : (workerProtocol jobDef worker.id).after .missing .planReadings
          (now, jobId, ids) = .saving job .create := by
        simp only [workerProtocol, Phase.after, Phase.afterPlan, hnew]
      simp only [hnew, hphase]
      refine Follows.andThen
        (worker.saveJobState_conforms (I := fun job => job.code = jobDef.code)
          (fun _ _ _ _ _ h => by cases h) (Job.new_eq_ok hnew).1.code) fun r p' hr => ?_
      rcases r with ⟨stored, outcome⟩
      refine Follows.ok ?_
      rcases hr with ⟨-, written, version, hwritten, htold, hjob, hp⟩ | ⟨_, saved, _, _, _, -, -,
        hread, hdone, hp⟩
      · exact ⟨⟨hp, Or.inr ⟨written, _, version, htold, hjob⟩⟩, hjob ▸ hwritten⟩
      · cases hdone
        exact ⟨⟨hp, Or.inl hread⟩, hcode _ hread⟩

/-- Finding the job, or creating it, follows the protocol. -/
theorem getOrCreateJob_conforms :
    Follows jobDef worker.id told
      (IfOk fun job p => Loaded told job p ∧ job.code = jobDef.code)
      .idle (worker.getOrCreateJob jobDef.code) := by
  unfold getOrCreateJob
  refine Conforms.ask trivial fun reply hread => ?_
  rcases reply with e | job
  · cases e with
    | notFound message => exact worker.createNewJob_conforms hregistered hcode
    | _ => exact Follows.failed
  · exact Follows.ok ⟨⟨rfl, Or.inl hread⟩, hcode job hread⟩

omit hcode in

/-- Planning the next iteration follows the protocol. -/
theorem startNewJobIteration_conforms {job : Job} (hjob : job.code = jobDef.code)
    (hprocessed : job.isProcessed = true) :
    Follows jobDef worker.id told
      (IfOk fun job' p => InStore told job' ∧
        (p = .loaded job' ∨ job'.isReadyForProcessing = false))
      (.loaded job) (worker.startNewJobIteration job) := by
  unfold startNewJobIteration
  rw [hjob, hregistered]
  refine Conforms.ask hprocessed fun readings _ => ?_
  rcases readings with ⟨now, jobId, ids⟩
  rcases hnext : Job.nextIteration jobDef worker.id jobId ids now job with ⟨e | _, job'⟩
  · simp only [hnext]
    exact Follows.failed
  · have hphase : (workerProtocol jobDef worker.id).after (.loaded job) .planReadings
        (now, jobId, ids) = .saving job' (.nextIteration now) := by
      simp only [workerProtocol, Phase.after, Phase.afterPlan, hnext]
    simp only [hnext, hphase]
    refine Follows.andThen (worker.saveJobState_ends _ job') fun r p' hr => ?_
    rcases r with ⟨stored, outcome⟩
    refine Follows.ok ?_
    rcases hr with ⟨-, written, version, -, htold, hjob', hp⟩ | ⟨_, saved, _, _, _, -, -, hread,
      hdone, hp⟩
    · exact ⟨Or.inr ⟨written, _, version, htold, hjob'⟩, Or.inl hp⟩
    · cases hdone
      refine ⟨Or.inl hread, ?_⟩
      simp only [resolveConflict] at hp
      split at hp
      · exact Or.inl hp
      · rename_i hready
        exact Or.inr (Bool.eq_false_iff.mpr hready)

omit hregistered hcode in
/-- An iteration that is left to be worked on is open. -/
theorem isProcessed_of_ofJob {job job' : Job} (h : IterationAdvance.ofJob job = .open job') :
    job = job' ∧ job'.isReadyForProcessing = true ∧ job'.isProcessed = false := by
  unfold IterationAdvance.ofJob at h
  split at h
  · rename_i hready
    cases h
    refine ⟨rfl, hready, ?_⟩
    rw [Job.isReadyForProcessing, Bool.or_eq_true, decide_eq_true_eq, decide_eq_true_eq] at hready
    rcases hready with hstatus | hstatus <;>
      rw [Job.isProcessed, Job.iterationVerdict, hstatus, Option.isSome_none]
  · cases h

/-- Where moving a job on leaves the worker. -/
def AdvanceHolds (told : Told) : IterationAdvance → Phase → Prop
  | .open job, p => Loaded told job p ∧ job.isProcessed = false
  | .closed next, _ =>
      ∃ job t, InStore told job ∧ told .now t ∧ job.findIterationStatus t = .closed next
  | .stalled, _ => True

omit hregistered hcode in

/-- What holds of a job that was read, or is of no use, holds of the advance it makes. -/
theorem AdvanceHolds.ofJob {job : Job} {p : Phase} (hstored : InStore told job)
    (hp : p = .loaded job ∨ job.isReadyForProcessing = false) :
    AdvanceHolds told (.ofJob job) p := by
  cases hjob : IterationAdvance.ofJob job with
  | «open» job' =>
      obtain ⟨rfl, hready, hopen⟩ := isProcessed_of_ofJob hjob
      rcases hp with rfl | hnot
      · exact ⟨⟨rfl, hstored⟩, hopen⟩
      · rw [hready] at hnot
        cases hnot
  | closed next =>
      unfold IterationAdvance.ofJob at hjob
      split at hjob <;> cases hjob
  | stalled => exact trivial

omit hcode in

/-- Advancing the job follows the protocol. -/
theorem advanceJobIteration_conforms {job : Job} (hjob : job.code = jobDef.code)
    (hstored : InStore told job) :
    Follows jobDef worker.id told (AdvanceHolds told) (.loaded job)
      (worker.advanceJobIteration job) := by
  unfold advanceJobIteration
  refine Follows.now fun now hnow => ?_
  cases hstatus : job.findIterationStatus now with
  | inProgress => exact AdvanceHolds.ofJob hstored (Or.inl rfl)
  | closed next =>
      cases next with
      | ready =>
          have hprocessed := (Job.findIterationStatus_eq_ready.mp hstatus).1
          refine Conforms.bind
            (worker.startNewJobIteration_conforms hregistered hjob hprocessed) fun r p hr => ?_
          rcases r with e | started
          · exact trivial
          · obtain ⟨hnew, hp⟩ := hr _ rfl
            exact AdvanceHolds.ofJob hnew hp
      | _ => exact ⟨job, now, hstored, hnow, hstatus⟩

end Starting

/-- Saving a settled iteration follows the protocol. -/
theorem saveSettledJobIteration_conforms (job : Job) :
    Follows jobDef worker.id told (IfOk (StartHolds told worker.id)) (.saving job .settle)
      (worker.saveSettledJobIteration job) := by
  refine Follows.andThen (worker.saveJobState_ends _ job) fun r p' hr => ?_
  rcases r with ⟨stored, outcome⟩
  dsimp only
  split
  · rename_i hlost
    refine Follows.ok ?_
    rcases hr with ⟨hsaved, -⟩ | ⟨current, _, _, _, e, hwritten, hconflict, -⟩
    · exact absurd hsaved hlost
    · exact Or.inl ⟨current, _, e, hwritten, hconflict⟩
  · rename_i hsaved
    refine Follows.now fun now hnow => ?_
    cases hstatus : stored.findIterationStatus now with
    | inProgress => exact Follows.failed
    | closed next =>
        refine Follows.ok ⟨stored, now, hr.inStore ?_, hnow, hstatus⟩
        exact not_not.mp hsaved

/-- Only the theft of its task ends the write of a start otherwise than by an
acknowledgement. -/
theorem outcome_of_start {w taskId : Uuid} {first second : Nat} {current saved job : Job}
    {outcome : SaveOutcome}
    (h : concurrentModificationHandler w first second (.start taskId) current saved =
      .ok (.done job outcome)) : outcome = .taskStolen := by
  simp only [concurrentModificationHandler] at h
  split at h <;> cases h
  rfl

/-- Saving a start follows the protocol. -/
theorem saveStart_conforms (taskId : Uuid) (job : Job) :
    Follows jobDef worker.id told (IfOk (StartHolds told worker.id)) (.saving job (.start taskId))
      (worker.saveStart taskId job) := by
  refine Follows.andThen (worker.saveJobState_ends _ job) fun r p' hr => ?_
  rcases r with ⟨stored, outcome⟩
  rcases hr with ⟨rfl, written, version, -, htold, hjob, hp⟩ | ⟨current, _, _, _, e, hwritten,
    hconflict, -, hdone, -⟩
  · exact Follows.now fun now hnow =>
      Follows.ok ⟨hp, ⟨written, version, htold, hjob⟩, now, hnow, rfl⟩
  · obtain rfl : outcome = .taskStolen := outcome_of_start hdone
    exact Follows.ok (Or.inl ⟨current, _, e, hwritten, hconflict⟩)

/-- Starting a task of an iteration follows the protocol. -/
theorem startTaskInIteration_conforms {job : Job} (hopen : job.isProcessed = false)
    (hstored : InStore told job) :
    Follows jobDef worker.id told (IfOk (StartHolds told worker.id)) (.loaded job)
      (worker.startTaskInIteration job) := by
  unfold startTaskInIteration
  refine Conforms.ask hopen fun readings hreadings => ?_
  rcases readings with ⟨moments, startAt⟩
  have hphase : (workerProtocol jobDef worker.id).after (.loaded job) .pickReadings
      (moments, startAt) = pickAndStart worker.id moments startAt job := rfl
  rw [hphase]
  unfold pickAndStart
  rcases hpick : Job.pickTaskToExecute worker.id moments job with ⟨e | taskId | retryAt | _, job₁⟩
  · simp only [hpick]
    exact Follows.failed
  · simp only [hpick]
    cases hfind : job₁.findTask taskId with
    | error e => exact Follows.failed
    | ok t =>
        rcases hstart : Job.startTask taskId worker.id startAt job₁ with ⟨e | _, job₂⟩
        · cases e with
          | taskWorkerMismatch =>
              refine Follows.ok (Or.inr ⟨job, moments, startAt, taskId, hstored, hreadings, ?_, ?_⟩)
              · rw [hpick]
              · rw [hpick, hstart]
          | _ => exact Follows.failed
        · exact worker.saveStart_conforms taskId job₂
  · simp only [hpick]
    exact Follows.ok ⟨job, moments, startAt, hstored, hopen, hreadings, by rw [hpick]⟩
  · simp only [hpick]
    exact worker.saveSettledJobIteration_conforms job₁

/-- A worker asks only for what its phase allows, executes the task it reports as started, and
reports nothing it was not told. -/
theorem startTask_conforms (hregistered : worker.jobRegistry.getJob jobDef.code = .ok jobDef)
    (hcode : ∀ job, told .getJob (.ok job) → job.code = jobDef.code) :
    Follows jobDef worker.id told (StartHolds told worker.id) .idle
      (worker.startTask jobDef.code) := by
  unfold startTask
  refine Conforms.bind (worker.getOrCreateJob_conforms hregistered hcode) fun r p hr => ?_
  rcases r with e | job
  · exact trivial
  obtain ⟨⟨rfl, hstored⟩, hjob⟩ := hr job rfl
  refine Conforms.bind
    (worker.advanceJobIteration_conforms hregistered hjob hstored) fun r p hr => ?_
  rcases r with job | next | _
  · obtain ⟨⟨rfl, hstored⟩, hopen⟩ := hr
    refine Conforms.bind (worker.startTaskInIteration_conforms hopen hstored) fun r p hr => ?_
    rcases r with e | taskStart
    · exact trivial
    · exact hr _ rfl
  · exact hr
  · exact trivial

/-! ## Recording an execution -/

/-- What a worker reports about the end of an execution, from what it was told: an iteration is
closed by the write that was acknowledged. -/
def EndHolds (told : Told) (taskId : Uuid) : ExecutionEnd → Phase → Prop
  | .iterationClosed next, _ =>
      ∃ written version t, told (.saveJob written (.result taskId)) (.ok version) ∧ told .now t ∧
        (written.updateVersion version).findIterationStatus t = .closed next
  | .taskEnded _, _ => True

/-- What holds of an end holds of it on richer answers. -/
theorem EndHolds.mono {told told' : Told} (hmore : ∀ q reply, told q reply → told' q reply)
    {taskId : Uuid} {executionEnd : ExecutionEnd} {p : Phase}
    (h : EndHolds told taskId executionEnd p) : EndHolds told' taskId executionEnd p := by
  cases executionEnd with
  | iterationClosed next =>
      obtain ⟨written, version, t, hwritten, ht, hstatus⟩ := h
      exact ⟨written, version, t, hmore _ _ hwritten, hmore _ _ ht, hstatus⟩
  | taskEnded pickable => trivial

/-- Saving the result of a task follows the protocol. -/
theorem saveTask_conforms (taskId : Uuid) (settleAt : Nat) (job : Job) :
    Follows jobDef worker.id told (IfOk (EndHolds told taskId))
      (.saving (Job.trySettleIteration worker.id settleAt job).2 (.result taskId))
      (worker.saveTask taskId settleAt job) := by
  unfold saveTask
  cases job.findTask taskId with
  | error e => exact Follows.failed
  | ok t =>
      refine Follows.andThen (worker.saveJobState_ends _ _) fun r p hr => ?_
      rcases r with ⟨stored, outcome⟩
      rcases hr with ⟨rfl, written, version, -, htold, rfl, -⟩ | ⟨_, _, _, _, _, -, -, -, hdone, -⟩
      · refine Follows.now fun now hnow => ?_
        cases hstatus : (written.updateVersion version).findIterationStatus now with
        | inProgress =>
            exact Follows.now fun _ _ => Follows.ok trivial
        | closed next =>
            exact Follows.ok ⟨written, version, now, htold, hnow, hstatus⟩
      · dsimp only
        rw [if_neg (ne_saved_of_done hdone)]
        exact Follows.now fun _ _ => Follows.ok trivial

/-- Recording an execution follows the protocol. -/
theorem recordRun_conforms (taskId : Uuid) (run : ExecutorRun) :
    Follows jobDef worker.id told (IfOk (EndHolds told taskId)) (.executing run.job taskId)
      (worker.recordRun taskId run) := by
  unfold recordRun
  cases run.result with
  | releasedByDeadline => exact Follows.now fun _ _ => Follows.ok trivial
  | returned outcome =>
      refine Conforms.ask trivial fun readings _ => ?_
      rcases readings with ⟨now, settleAt⟩
      have hphase : (workerProtocol jobDef worker.id).after (.executing run.job taskId)
          (.finishReadings outcome) (now, settleAt) =
            finishExecution worker.id taskId outcome now settleAt run.job := rfl
      rw [hphase]
      unfold finishExecution
      rcases happly : applyExecutorOutcome worker.id taskId outcome now run.job with ⟨e | _, job⟩
      · simp only [happly]
        exact Follows.failed
      · simp only [happly]
        exact worker.saveTask_conforms taskId settleAt job

end Worker

end JobManager
