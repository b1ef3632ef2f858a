import JobManager.Execution.Executor
import JobManager.Storage.State

/-!
# Workers over one conditional-write store

Any number of workers run the loop of the worker pool against one store: read the
newest iteration, create it or plan the next one, pick and start a task, execute
it, and save what came of it, merging on a conflict.  The store keeps every
version it ever held, newest first, so that statements about its history are
statements about one state.

A worker's own computation reads its clock; where all read one clock, that is
anywhere between the worker's last action and the moment it acts.  A write may take
effect and its reply be lost, after which the storage layer repeats it.  A read answers
with the current version of the newest iteration, or with the final version of an older
one: with what the store keeps of it, or with the copy a pool's cache kept of it as it was
saved, which still names the executions that created its tasks.  An action that does not
fit the worker's phase is refused.

Main definitions:

- {lit}`System`: the clock, the identifiers minted so far, the history of the store
  and what every worker is doing.
- {lit}`workerMove`: one move of a worker that writes nothing.
- {lit}`step`: one action of the system.
-/

namespace JobManager

/-! ## The store -/

/-- What a write is about; a next iteration records the reading its creator found it due
at. -/
inductive Purpose where
  | create
  | nextIteration (readyAt : Nat)
  | start (taskId : Uuid)
  | result (taskId : Uuid)
  | settle
deriving DecidableEq

/-- One version of one iteration: the job as its writer saved it, with who wrote it, why
and when. -/
structure Entry where
  job : Job
  version : String
  writer : Uuid
  purpose : Purpose
  writtenAt : Nat

namespace Entry

/-- What the store keeps of this version. -/
def state (e : Entry) : StoredJob := StoredJob.fromJob e.job

/-- The iteration this is a version of. -/
def iterNum (e : Entry) : Nat := e.state.iterNum

/-- The tasks of this version. -/
def tasks (e : Entry) : TaskMap := e.state.taskMap

/-- Whether this version is closed. -/
def isClosed (e : Entry) : Bool := e.state.status = .completed || e.state.status = .failed

/-- The job a reader of this version restores from the store. -/
def load (jobDef : JobDefinition) (e : Entry) : Job :=
  e.state.intoJob jobDef.maxIterations jobDef.iterationInterval jobDef.taskLimits e.version

/-- The copy the cache of its writer's pool keeps of this version. -/
def kept (e : Entry) : Job := e.job.updateVersion e.version

end Entry

/-- The version a write of a job leaves. -/
def Entry.ofJob (job : Job) (version : String) (w : Uuid) (purpose : Purpose) (now : Nat) :
    Entry where
  job := job
  version := version
  writer := w
  purpose := purpose
  writtenAt := now

/-- The versions the store ever held, newest first. -/
abbrev History := List Entry

namespace History

/-- The version of an iteration the store holds now. -/
def current (h : History) (n : Nat) : Option Entry := h.find? fun e => e.iterNum = n

/-- Whether no later iteration is stored. -/
def isNewest (h : History) (n : Nat) : Bool := h.all fun e => e.iterNum ≤ n

/-- What a read may answer with: the current version of the newest iteration, or the
final version of a closed one. -/
def readable (h : History) (n : Nat) : Option Entry :=
  (h.current n).filter fun e => h.isNewest n || e.isClosed

/-- What a reader of an iteration gets: what it restores from the store, or the copy that was
kept of a write that left the version it finds there. -/
def read (h : History) (jobDef : JobDefinition) (n : Nat) (kept : Option Nat) : Option Job :=
  (h.readable n).bind fun e =>
    match kept with
    | none => some (e.load jobDef)
    | some k =>
        (h[k]?.filter fun e' => e'.iterNum = n && e'.version = e.version).map Entry.kept

/-- Whether the conditional write of a job is accepted: an unsaved job is created only,
any other replaces the version it was read as. -/
def accepts (h : History) (job : Job) : Bool :=
  match h.current job.iterNum with
  | none => job.version = ""
  | some e => job.version ≠ "" && e.version = job.version

/-- Whether the store may answer a write with this version: it names one content. -/
def mayIssue (h : History) (job : Job) (version : String) : Bool :=
  version ≠ "" &&
    h.all fun e => e.iterNum ≠ job.iterNum || e.version ≠ version ||
      e.state = StoredJob.fromJob job

end History

/-! ## Workers -/

/-- What a worker is doing. -/
inductive Phase where
  | idle
  | missing
  | loaded (job : Job)
  | executing (job : Job) (taskId : Uuid)
  | saving (job : Job) (purpose : Purpose)
  | conflicted (job : Job) (purpose : Purpose)
  | merging (job saved : Job) (purpose : Purpose)

/-- A worker: what it is doing, and the clock at its last action. -/
structure WorkerState where
  phase : Phase
  since : Nat

/-- The whole system. -/
structure System where
  clock : Nat
  minted : List Uuid
  history : History
  workers : Uuid → WorkerState

/-- Before anything happened. -/
def System.init : System where
  clock := 0
  minted := []
  history := []
  workers := fun _ => ⟨.idle, 0⟩

/-- The moves of a worker that write nothing. -/
inductive WorkerAction where
  | readNothing
  | read (n : Nat) (kept : Option Nat)
  | create (now : Nat) (jobId : Uuid) (ids : List Uuid)
  | advance (now : Nat) (jobId : Uuid) (ids : List Uuid)
  | pick (moments : Job.PickMoments) (startAt : Nat)
  | refused
  | reread (n : Nat) (kept : Option Nat)
  | merge (first second : Nat)
  | call (now : Nat) (call : HandleCall)
  | finish (outcome : ExecutorOutcome) (now settleAt : Nat)
  | abandon

/-- Clock readings in the order they are taken, within the given bounds. -/
def inOrder (κ : Clocks) : Nat → List Nat → Nat → Bool
  | lo, [], hi => κ.Before lo hi
  | lo, t :: ts, hi => κ.Before lo t && inOrder κ t ts hi

/-- Identifiers that were never minted before. -/
def areFresh (minted ids : List Uuid) : Bool :=
  ids.all (· ∉ minted) && ids.Nodup

/-- The readings of a pick-up, in the order they are taken. -/
def Job.PickMoments.readings (p : Job.PickMoments) : List Nat :=
  [p.work, p.lifetime, p.firstLook, p.settle, p.secondLook, p.retry]

/-- Pick a task of an open iteration and start it: what the worker goes on to save, or
nothing. -/
def pickAndStart (w : Uuid) (moments : Job.PickMoments) (startAt : Nat) (job : Job) : Phase :=
  match Job.pickTaskToExecute w moments job with
  | (.ok (.ready taskId), job) =>
      match Job.startTask taskId w startAt job with
      | (.ok (), job) => .saving job (.start taskId)
      | (.error _, _) => .idle
  | (.ok (.waiting _), _) => .idle
  | (.ok .iterationSettled, job) => .saving job .settle
  | (.error _, _) => .idle

/-- Record what the executor ended with and settle the iteration; a settlement that is
refused does not cost the result. -/
def finishExecution (w taskId : Uuid) (outcome : ExecutorOutcome) (now settleAt : Nat)
    (job : Job) : Phase :=
  match applyExecutorOutcome w taskId outcome now job with
  | (.error _, _) => .idle
  | (.ok _, job) => .saving (Job.trySettleIteration w settleAt job).2 (.result taskId)

/-- What a worker does about a write that lost its race, by what it was saving. -/
def resolveConflict (w : Uuid) (job saved : Job) (first second : Nat) : Purpose → Phase
  | .create => .loaded saved
  | .nextIteration _ => if saved.isReadyForProcessing then .loaded saved else .idle
  | .start taskId =>
      match Job.mergeWithPickedTask job w taskId first second saved with
      | (.ok (), merged) => .saving merged (.start taskId)
      | (.error _, _) => .idle
  | .result taskId =>
      match Job.mergeWithProcessedTask job w taskId second saved with
      | (.ok (), merged) => .saving merged (.result taskId)
      | (.error (.iterationDeadlock _ _), merged) => .saving merged (.result taskId)
      | (.error _, _) => .idle
  | .settle => .idle

/-- One move of worker {lit}`w` that writes nothing: the phase it enters and the
identifiers it mints. -/
def workerMove (κ : Clocks) (jobDef : JobDefinition) (s : System) (w : Uuid) :
    Phase → WorkerAction → Option (Phase × List Uuid)
  | _, .abandon => some (.idle, [])
  | .idle, .readNothing => if s.history.isEmpty then some (.missing, []) else none
  | .idle, .read n kept => (s.history.read jobDef n kept).map fun job => (.loaded job, [])
  | .missing, .create now jobId ids =>
      if inOrder κ (s.workers w).since [now] s.clock && areFresh s.minted ids &&
          ids.length = jobDef.initialTasks.length then
        match Job.new jobDef [] w jobId ids now with
        | .ok job => some (.saving job .create, ids)
        | .error _ => some (.idle, [])
      else none
  | .loaded job, .advance now jobId ids =>
      if job.isProcessed && inOrder κ (s.workers w).since [now] s.clock &&
          areFresh s.minted ids && ids.length = jobDef.initialTasks.length then
        match Job.nextIteration jobDef w jobId ids now job with
        | (.ok (), job) => some (.saving job (.nextIteration now), ids)
        | (.error _, _) => some (.idle, [])
      else none
  | .loaded job, .pick moments startAt =>
      if !job.isProcessed &&
          inOrder κ (s.workers w).since (moments.readings ++ [startAt]) s.clock then
        some (pickAndStart w moments startAt job, [])
      else none
  | .saving job purpose, .refused =>
      if s.history.accepts job then none else some (.conflicted job purpose, [])
  | .conflicted job purpose, .reread n kept =>
      (s.history.read jobDef n kept).map fun saved => (.merging job saved purpose, [])
  | .merging job saved purpose, .merge first second =>
      if inOrder κ (s.workers w).since [first, second] s.clock then
        some (resolveConflict w job saved first second purpose, [])
      else none
  | .executing job taskId, .call now call =>
      if inOrder κ (s.workers w).since [now] s.clock && areFresh s.minted call.minted then
        match call.serve w taskId now job with
        | (.ok (), job) => some (.executing job taskId, call.minted)
        | (.error _, job) => some (.executing job taskId, [])
      else none
  | .executing job taskId, .finish outcome now settleAt =>
      if inOrder κ (s.workers w).since [now, settleAt] s.clock then
        some (finishExecution w taskId outcome now settleAt job, [])
      else none
  | _, _ => none

/-- What a worker does once its write is acknowledged. -/
def afterSave (job : Job) : Purpose → Phase
  | .create => .loaded job
  | .nextIteration _ => .loaded job
  | .start taskId => .executing job taskId
  | .result _ => .idle
  | .settle => .idle

/-- Where a write that took effect leaves the worker: a lost reply has the storage layer
repeat it. -/
def afterPut (job : Job) (purpose : Purpose) (version : String) (delivered : Bool) : Phase :=
  if delivered then afterSave (job.updateVersion version) purpose else .saving job purpose

/-! ## The system -/

/-- The actions of the system: time passes, a worker moves, or a worker's conditional
write takes effect, its reply delivered or lost. -/
inductive Action where
  | tick (elapsed : Nat)
  | move (w : Uuid) (action : WorkerAction)
  | put (w : Uuid) (version : String) (delivered : Bool)

/-- Worker {lit}`w` enters a phase now, having minted the given identifiers. -/
def System.enter (s : System) (w : Uuid) (phase : Phase) (ids : List Uuid) : System :=
  { s with
    minted := ids ++ s.minted
    workers := Function.update s.workers w ⟨phase, s.clock⟩ }

/-- A write of worker {lit}`w` takes effect. -/
def System.commit (s : System) (w : Uuid) (entry : Entry) (phase : Phase) : System :=
  { s.enter w phase [] with history := entry :: s.history }

namespace System

variable (s : System) (w : Uuid) (entry : Entry) (phase : Phase) (ids : List Uuid)

/-- The worker that moved is where it went. -/
@[simp] theorem enter_self : (s.enter w phase ids).workers w = ⟨phase, s.clock⟩ :=
  Function.update_self ..

/-- And so is the one that wrote. -/
@[simp] theorem commit_self : (s.commit w entry phase).workers w = ⟨phase, s.clock⟩ :=
  Function.update_self ..

/-- A move leaves every other worker where it was. -/
theorem enter_of_ne {w' : Uuid} (h : w' ≠ w) :
    (s.enter w phase ids).workers w' = s.workers w' := Function.update_of_ne h ..

/-- And so does a write. -/
theorem commit_of_ne {w' : Uuid} (h : w' ≠ w) :
    (s.commit w entry phase).workers w' = s.workers w' := Function.update_of_ne h ..

@[simp] theorem history_commit : (s.commit w entry phase).history = entry :: s.history := rfl

end System

/-- One action of the system. -/
def step (κ : Clocks) (jobDef : JobDefinition) (s : System) : Action → Option System
  | .tick elapsed => some { s with clock := s.clock + elapsed }
  | .move w action =>
      match workerMove κ jobDef s w (s.workers w).phase action with
      | some (phase, ids) => some (s.enter w phase ids)
      | none => none
  | .put w version delivered =>
      match (s.workers w).phase with
      | .saving job purpose =>
          if s.history.accepts job && s.history.mayIssue job version then
            some (s.commit w (.ofJob job version w purpose s.clock)
              (afterPut job purpose version delivered))
          else none
      | _ => none

end JobManager
