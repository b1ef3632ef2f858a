import JobManager.Execution.Run
import JobManager.Library.Program
import JobManager.Pool.Scheduler

/-!
# The program of a worker

A worker starts at most one task of a job, and records what came of an execution.  Both are
programs that ask the store, the clock and the cancellation token, and go on with whatever they
are answered.  The readings an operation of the domain takes are asked for together, and so are
the identifiers an iteration mints.

Main definitions:

- {lit}`Worker.saveJobState`: the save loop.
- {lit}`Worker.startTask`: one start of a task.
- {lit}`Worker.recordRun`: what is made of the run of an executor.
-/

namespace JobManager

/-- What a worker asks.  A write names what it is about, and the readings of a result the
outcome it is made of. -/
inductive WorkerRequest where
  | getJob
  | saveJob (job : Job) (purpose : Purpose)
  | isCancelled
  | now
  | planReadings
  | pickReadings
  | mergeReadings
  | finishReadings (outcome : ExecutorOutcome)

/-- What a worker is answered. -/
abbrev WorkerRequest.Reply : WorkerRequest → Type
  | .getJob => Except StorageError Job
  | .saveJob _ _ => Except StorageError String
  | .isCancelled => Bool
  | .now => Nat
  | .planReadings => Nat × Uuid × List Uuid
  | .pickReadings => Job.PickMoments × Nat
  | .mergeReadings => Nat × Nat
  | .finishReadings _ => Nat × Nat

abbrev WorkerProgram := Program WorkerRequest WorkerRequest.Reply

namespace WorkerProgram

variable {α β : Type}

abbrev getJob : WorkerProgram (Except StorageError Job) := Program.request WorkerRequest.getJob
abbrev saveJob (job : Job) (purpose : Purpose) : WorkerProgram (Except StorageError String) :=
  Program.request (WorkerRequest.saveJob job purpose)
abbrev isCancelled : WorkerProgram Bool := Program.request WorkerRequest.isCancelled
abbrev now : WorkerProgram Nat := Program.request WorkerRequest.now
abbrev planReadings : WorkerProgram (Nat × Uuid × List Uuid) :=
  Program.request WorkerRequest.planReadings
abbrev pickReadings : WorkerProgram (Job.PickMoments × Nat) :=
  Program.request WorkerRequest.pickReadings
abbrev mergeReadings : WorkerProgram (Nat × Nat) := Program.request WorkerRequest.mergeReadings
abbrev finishReadings (outcome : ExecutorOutcome) : WorkerProgram (Nat × Nat) :=
  Program.request (WorkerRequest.finishReadings outcome)

/-- Go on where a program did not fail. -/
def andThen (x : WorkerProgram (Except InternalError α))
    (f : α → WorkerProgram (Except InternalError β)) : WorkerProgram (Except InternalError β) := do
  match ← x with
  | .ok a => f a
  | .error e => return .error e

end WorkerProgram

open WorkerProgram

/-- How an error of the registry reaches a worker. -/
def InternalError.fromError : Error → InternalError
  | .other message => .other message

/-- Where a job's iteration stands once a worker moved it on as far as its state allows. -/
inductive IterationAdvance where
  | open (job : Job)
  | closed (next : NextIterationStatus)
  | stalled

/-- The iteration to start a task of, where the state leaves one to be worked on. -/
def IterationAdvance.ofJob (job : Job) : IterationAdvance :=
  if job.isReadyForProcessing then .open job else .stalled

/-- A worker: its identity, the registry it looks jobs up in, and how often it tries to save. -/
structure Worker where
  id : Uuid
  jobRegistry : JobRegistry
  maxAttempts : Nat

namespace Worker

variable (worker : Worker)

/-! ## Saving -/

/-- One attempt to save a job. -/
def attemptSave (purpose : Purpose) (job : Job) :
    WorkerProgram (Except InternalError (Retry.Step InternalError SaveOutcome × Job)) := do
  if ← isCancelled then return .error .cancelled
  match ← saveJob job purpose with
  | .ok version => return .ok (.done .saved, job.updateVersion version)
  | .error e =>
      if e.isConflict then
        match ← getJob with
        | .error reason => return .error (.fromStorage reason)
        | .ok savedJob =>
            let (first, second) ← mergeReadings
            match concurrentModificationHandler worker.id first second purpose job savedJob with
            | .error reason => return .error reason
            | .ok (.retry updatedJob) => return .ok (.retry (.fromStorage e), updatedJob)
            | .ok (.done updatedJob outcome) => return .ok (.done outcome, updatedJob)
      else return .error (.fromStorage e)

/-- Attempts to save a job, with so many left after this one. -/
def saveAttempts (purpose : Purpose) : Nat → Job →
    WorkerProgram (Except InternalError (Job × SaveOutcome))
  | left, job => do
      match ← worker.attemptSave purpose job with
      | .error e => return .error e
      | .ok (.done outcome, updatedJob) => return .ok (updatedJob, outcome)
      | .ok (.retry cause, updatedJob) =>
          match left with
          | 0 => return .error (.maxAttemptsReached cause)
          | left + 1 =>
              if ← isCancelled then return .error .cancelled
              else saveAttempts purpose left updatedJob

/-- Save a job, repeating the write as the loss of its race is decided. -/
def saveJobState (purpose : Purpose) (job : Job) :
    WorkerProgram (Except InternalError (Job × SaveOutcome)) :=
  worker.saveAttempts purpose (worker.maxAttempts - 1) job

/-! ## Starting a task -/

def createNewJob (jobCode : String) : WorkerProgram (Except InternalError Job) :=
  match worker.jobRegistry.getJob jobCode with
  | .error e => return .error (.fromError e)
  | .ok jobDef => do
      let (now, jobId, ids) ← planReadings
      match Job.new jobDef [] worker.id jobId ids now with
      | .error e => return .error (.job e)
      | .ok job =>
          andThen (worker.saveJobState .create job) fun (job, _) => return .ok job

def startNewJobIteration (job : Job) : WorkerProgram (Except InternalError Job) :=
  match worker.jobRegistry.getJob job.code with
  | .error e => return .error (.fromError e)
  | .ok jobDef => do
      let (now, jobId, ids) ← planReadings
      match Job.nextIteration jobDef worker.id jobId ids now job with
      | (.error e, _) => return .error (.job e)
      | (.ok (), job) =>
          andThen (worker.saveJobState (.nextIteration now) job)
            fun (job, _) => return .ok job

def advanceJobIteration (job : Job) : WorkerProgram IterationAdvance := do
  match job.findIterationStatus (← now) with
  | .inProgress => return IterationAdvance.ofJob job
  | .closed .ready =>
      match ← worker.startNewJobIteration job with
      | .ok job => return IterationAdvance.ofJob job
      | .error _ => return .stalled
  | .closed next => return .closed next

/-- Write the verdict of an iteration that a pick-up closed. -/
def saveSettledJobIteration (job : Job) : WorkerProgram (Except InternalError TaskStart) :=
  andThen (worker.saveJobState .settle job) fun (job, outcome) => do
    if outcome ≠ .saved then return .ok .lostToAnotherWorker
    match job.findIterationStatus (← now) with
    | .inProgress =>
        return .error (.other
          s!"job '{job.code}' iteration {job.iterNum} is open after the write that settled it")
    | .closed next => return .ok (.iterationClosed next)

/-- Write the start of a task that was picked. -/
def saveStart (taskId : Uuid) (job : Job) : WorkerProgram (Except InternalError TaskStart) :=
  andThen (worker.saveJobState (.start taskId) job) fun (job, outcome) => do
    if outcome = .taskStolen then return .ok .lostToAnotherWorker
    return .ok (.started ⟨job, taskId⟩ (job.hasPickableTask (← now)))

def startTaskInIteration (job : Job) : WorkerProgram (Except InternalError TaskStart) := do
  let (moments, startAt) ← pickReadings
  match Job.pickTaskToExecute worker.id moments job with
  | (.error e, _) => return .error (.job e)
  | (.ok (.waiting retryAt), _) => return .ok (.noTaskAvailable retryAt)
  | (.ok .iterationSettled, job) => worker.saveSettledJobIteration job
  | (.ok (.ready taskId), job) =>
      match job.findTask taskId with
      | .error e => return .error (.job e)
      | .ok _ =>
          match Job.startTask taskId worker.id startAt job with
          | (.error .taskWorkerMismatch, _) => return .ok .lostToAnotherWorker
          | (.error e, _) => return .error (.job e)
          | (.ok (), job) => worker.saveStart taskId job

/-- Read the job, or create it where there is none. -/
def getOrCreateJob (jobCode : String) : WorkerProgram (Except InternalError Job) := do
  match ← getJob with
  | .ok job => return .ok job
  | .error (.notFound _) => worker.createNewJob jobCode
  | .error e => return .error (.fromStorage e)

/-- Read the job, move it on as far as its state allows, and write the start of at most one
task.  Whatever fails leaves the worker stalled. -/
def startTask (jobCode : String) : WorkerProgram TaskStart := do
  match ← worker.getOrCreateJob jobCode with
  | .error _ => return .stalled
  | .ok job =>
      match ← worker.advanceJobIteration job with
      | .stalled => return .stalled
      | .closed next => return .iterationClosed next
      | .open job =>
          match ← worker.startTaskInIteration job with
          | .ok taskStart => return taskStart
          | .error _ => return .stalled

/-! ## Recording an execution -/

/-- Save the result of a task in the write that also closes the iteration where it settles
it; a settlement that is refused does not cost the result. -/
def saveTask (taskId : Uuid) (settleAt : Nat) (job : Job) :
    WorkerProgram (Except InternalError ExecutionEnd) :=
  match job.findTask taskId with
  | .error e => return .error (.job e)
  | .ok _ =>
      andThen
          (worker.saveJobState (.result taskId) (Job.trySettleIteration worker.id settleAt job).2)
          fun (job, outcome) => do
        if outcome = .saved then
          match job.findIterationStatus (← now) with
          | .closed next => return .ok (.iterationClosed next)
          | .inProgress => return .ok (.taskEnded (job.hasPickableTask (← now)))
        else return .ok (.taskEnded (job.hasPickableTask (← now)))

/-- Record what the run of an executor ended with; a run its deadline released leaves the task
as it is. -/
def recordRun (taskId : Uuid) (run : ExecutorRun) :
    WorkerProgram (Except InternalError ExecutionEnd) :=
  match run.result with
  | .releasedByDeadline =>
      return .ok (.taskEnded (run.job.hasPickableTask (← now)))
  | .returned outcome => do
      let (now, settleAt) ← finishReadings outcome
      match applyExecutorOutcome worker.id taskId outcome now run.job with
      | (.error e, _) => return .error (.job e)
      | (.ok _, job) => worker.saveTask taskId settleAt job

end Worker

end JobManager
