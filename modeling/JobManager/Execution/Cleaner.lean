import JobManager.Library.Transition
import JobManager.Storage.Cached

/-!
# The cleaner

Workers of several instances create the iterations of jobs in one store, and the cleaner of
every instance deletes those that fell out of the retention its own registry gives the job: one
for every iteration a worker of the instance reports, and the whole tail of every job once, when
the instance starts.  Reports wait, are dropped and come in any order; listings are read page by
page and deletions take effect object by object, at moments of their own.

Main definitions:

- {lit}`JobCleaner.calculateRetentionBoundary`: what a cleaner may delete of a job.
- {lit}`Reconciliation`: where the pass over the registered jobs stands.
- {lit}`Cleanup.step`: one action of workers, cleaners and the store.
-/

namespace JobManager

/-- Report from a worker that it persisted the start of an iteration. -/
structure JobIterationStarted where
  jobCode : String
  iterNum : Nat
deriving DecidableEq

/-- A deletion a cleaner asked the store for. -/
structure DeleteRequest where
  cleaner : Nat
  jobCode : String
  iterNums : List Nat
deriving DecidableEq

/-! ## The pass over the registered jobs -/

/-- Where the pass stands: which jobs are left, and what it asks the store about the first of
them, with so many repetitions left. -/
inductive Reconciliation where
  | finding (jobCodes : List String) (left : Nat)
  | listing (jobCode : String) (jobCodes : List String) (retentionBoundary : Nat)
      (request : ListingRequest) (iterNums : List Nat) (left : Nat)
  | deleting (request : DeleteRequest) (jobCodes : List String) (left : Nat)

namespace JobCleaner

/-- Newest iteration of a job that may be deleted while its current one is {lit}`iterNum`. -/
def calculateRetentionBoundary (registry : JobRegistry) (jobCode : String) (iterNum : Nat) :
    Option Nat :=
  match registry.getJob jobCode with
  | .ok jobDef => jobDef.calculateRetentionBoundary iterNum
  | .error _ => none

variable (paths : JobPaths) (registry : JobRegistry) (maxAttempts : Nat)

/-- Go on to the jobs that are left. -/
def goOn (jobCodes : List String) : Reconciliation := .finding jobCodes (maxAttempts - 1)

/-- A request failed: it is repeated, or the job is given up, or the pass ends with its
instance. -/
def afterFailure (e : StorageError) (jobCodes : List String) (again : Nat → Reconciliation)
    (left : Nat) : Reconciliation :=
  if e.isRetryable then
    match left with
    | 0 => goOn maxAttempts jobCodes
    | left + 1 => again left
  else if e = .cancelled then .finding [] 0
  else goOn maxAttempts jobCodes

/-- Look up the newest iteration of the first job that is left. -/
def findTail (provider : Backend) (jobCode : String) (jobCodes : List String) (left : Nat) :
    Reconciliation :=
  match findJobMeta paths provider jobCode with
  | .error (.notFound _) => goOn maxAttempts jobCodes
  | .error e => afterFailure maxAttempts e jobCodes (.finding (jobCode :: jobCodes)) left
  | .ok jobMeta =>
      match calculateRetentionBoundary registry jobCode jobMeta.iterNum with
      | none => goOn maxAttempts jobCodes
      | some retentionBoundary =>
          match buildListingStartKey paths provider jobCode retentionBoundary with
          | .error _ => goOn maxAttempts jobCodes
          | .ok startKey =>
              .listing jobCode jobCodes retentionBoundary
                { directory := paths.buildJobPrefix jobCode, startKey := some startKey
                  pageSize := provider.listPageSize, cursor := none } [] (maxAttempts - 1)

/-- Read one page of the listing of a tail; the last one is followed by the deletion of what was
listed. -/
def listTail (provider : Backend) (cleaner : Nat) (jobCode : String) (jobCodes : List String)
    (retentionBoundary : Nat) (request : ListingRequest) (iterNums : List Nat) (left : Nat) :
    Reconciliation :=
  match provider.listObjects request with
  | .error e =>
      afterFailure maxAttempts e jobCodes
        (.listing jobCode jobCodes retentionBoundary { request with cursor := none } []) left
  | .ok listedPage =>
      let iterNums := iterNums ++ outdatedIterNums paths retentionBoundary listedPage.objects
      match listedPage.nextCursor with
      | some cursor =>
          .listing jobCode jobCodes retentionBoundary { request with cursor := some cursor }
            iterNums left
      | none =>
          if iterNums.isEmpty then goOn maxAttempts jobCodes
          else .deleting ⟨cleaner, jobCode, iterNums⟩ jobCodes (maxAttempts - 1)

end JobCleaner

/-- The deletion a pass asks for where it stands. -/
def Reconciliation.deletion : Reconciliation → Option DeleteRequest
  | .deleting request _ _ => some request
  | _ => none

/-! ## The system -/

/-- One store, the instances that work on it, and the instance every worker belongs to. -/
structure Fleet where
  paths : JobPaths
  registries : Nat → JobRegistry
  maxAttempts : Nat → Nat
  home : Uuid → Nat

/-- The iterations created so far, the latest first. -/
abbrev Creations := List (String × Nat)

/-- The cleaner of one instance: the reports that wait, the deletion one of them led to, and the
pass over the jobs. -/
structure CleanerState where
  inbox : List JobIterationStarted
  handling : Option (DeleteRequest × Nat)
  reconciliation : Reconciliation

/-- A read of a job: the state it answered with, and the store and the creations at that
moment. -/
structure JobRead where
  job : Job
  store : ObjectStore
  creations : Creations

/-- What a worker is about to create. -/
inductive CreatorPhase where
  | idle
  | read (origin : JobRead)
  | readNothing (jobCode : String)
  | creating (job : Job) (origin : Option JobRead)

/-- The store, the iterations created in it, the deletions asked for, and where cleaners and
workers stand. -/
structure Cleanup where
  store : ObjectStore
  creations : Creations
  requests : List DeleteRequest
  cleaners : Nat → CleanerState
  workers : Uuid → CreatorPhase

/-- What workers, cleaners and the store do. -/
inductive CleanupAction where
  | read (worker : Uuid) (jobMeta : JobMeta)
  | readNothing (worker : Uuid) (jobCode : String) (provider : Backend)
  | prepare (worker jobId : Uuid) (idsByPosition : List Uuid) (now : Nat)
  | put (worker : Uuid) (token : String) (reply : WriteReply)
  | save (job : Job) (token : String)
  | receive (cleaner : Nat) (report : JobIterationStarted)
  | drop (cleaner : Nat) (report : JobIterationStarted)
  | answerReport (cleaner : Nat) (answer : Except StorageError Unit)
  | find (cleaner : Nat) (provider : Backend)
  | list (cleaner : Nat) (provider : Backend)
  | answerTail (cleaner : Nat) (answer : Except StorageError Unit)
  | delete (cleaner : Nat) (jobCode : String) (iterNum : Nat)
  | stop (cleaner : Nat)

namespace Cleanup

variable (fleet : Fleet)

/-- Before anything happened: every cleaner is about to start its pass. -/
def init (details : String) : Cleanup where
  store := .empty details
  creations := []
  requests := []
  cleaners := fun i =>
    ⟨[], none, JobCleaner.goOn (fleet.maxAttempts i) (fleet.registries i).listJobs⟩
  workers := fun _ => .idle

def setCleaner (s : Cleanup) (i : Nat) (cleaner : CleanerState) : Cleanup :=
  { s with cleaners := Function.update s.cleaners i cleaner }

def setWorker (s : Cleanup) (w : Uuid) (phase : CreatorPhase) : Cleanup :=
  { s with workers := Function.update s.workers w phase }

/-- Send a deletion; it takes effect at moments of its own. -/
def send (s : Cleanup) (requests : Option DeleteRequest) : Cleanup :=
  { s with requests := requests.toList ++ s.requests }

/-- The job a worker creates next.  Numbers have 64 bits. -/
def newIteration (w jobId : Uuid) (idsByPosition : List Uuid) (now : Nat) :
    CreatorPhase → Option CreatorPhase
  | .read origin => do
      let jobDef ← ((fleet.registries (fleet.home w)).getJob origin.job.code).toOption
      match Job.nextIteration jobDef w jobId idsByPosition now origin.job with
      | (.ok _, job) => if job.iterNum ≤ u64Max then some (.creating job (some origin)) else none
      | (.error _, _) => none
  | .readNothing jobCode => do
      let jobDef ← ((fleet.registries (fleet.home w)).getJob jobCode).toOption
      let job ← (Job.new jobDef [] w jobId idsByPosition now).toOption
      return .creating job none
  | _ => none

/-- A started iteration is reported to the cleaner of the worker's instance; the first one of a
job is not. -/
def reportStartedIteration (s : Cleanup) (w : Uuid) (job : Job) (origin : Option JobRead) :
    Cleanup :=
  match origin with
  | none => s
  | some _ =>
      let cleaner := s.cleaners (fleet.home w)
      s.setCleaner (fleet.home w)
        { cleaner with inbox := cleaner.inbox ++ [⟨job.code, job.iterNum⟩] }

/-- Handle a report: delete the one iteration it pushed past the boundary. -/
def deleteIteration (s : Cleanup) (i : Nat) (report : JobIterationStarted) : Cleanup :=
  let cleaner := s.cleaners i
  let request :=
    (JobCleaner.calculateRetentionBoundary (fleet.registries i) report.jobCode report.iterNum).map
      fun retentionBoundary => (⟨i, report.jobCode, [retentionBoundary]⟩ : DeleteRequest)
  (s.setCleaner i
    { cleaner with
      inbox := cleaner.inbox.erase report
      handling := request.map fun request => (request, fleet.maxAttempts i - 1) }).send request

/-- One action of workers, cleaners and the store. -/
def step (s : Cleanup) : CleanupAction → Option Cleanup
  | .read w jobMeta =>
      match ObjectStorage.getJobByMeta fleet.paths (fleet.registries (fleet.home w)) s.store
          jobMeta with
      | .ok job => some (s.setWorker w (.read ⟨job, s.store, s.creations⟩))
      | .error _ => none
  | .readNothing w jobCode provider =>
      match findJobMeta fleet.paths provider jobCode with
      | .error (.notFound _) => some (s.setWorker w (.readNothing jobCode))
      | _ => none
  | .prepare w jobId idsByPosition now =>
      (newIteration fleet w jobId idsByPosition now (s.workers w)).map (s.setWorker w)
  | .put w token reply =>
      match s.workers w with
      | .creating job origin =>
          match ObjectStorage.saveJob fleet.paths token job s.store with
          | (.error _, _) => none
          | (.ok _, store) =>
              let created : Cleanup :=
                { s with store := store, creations := (job.code, job.iterNum) :: s.creations }
              match reply with
              | .delivered =>
                  some ((created.reportStartedIteration fleet w job origin).setWorker w .idle)
              | .lost => some (created.setWorker w .idle)
              | .repeated => some created
      | _ => none
  | .save job token =>
      -- a state of an iteration that was read, saved over the version it was read under
      if job.version ≠ "" ∧ job.iterNum ≤ u64Max then
        match ObjectStorage.saveJob fleet.paths token job s.store with
        | (.error _, _) => none
        | (.ok _, store) => some { s with store := store }
      else none
  | .receive i report =>
      if report ∈ (s.cleaners i).inbox ∧ (s.cleaners i).handling = none then
        some (s.deleteIteration fleet i report)
      else none
  | .drop i report =>
      let cleaner := s.cleaners i
      some (s.setCleaner i { cleaner with inbox := cleaner.inbox.erase report })
  | .answerReport i answer =>
      let cleaner := s.cleaners i
      match cleaner.handling, answer with
      | none, _ => none
      | some _, .ok _ => some (s.setCleaner i { cleaner with handling := none })
      | some (request, left), .error e =>
          if e.isRetryable && 0 < left then
            some ((s.setCleaner i { cleaner with handling := some (request, left - 1) }).send
              (some request))
          else some (s.setCleaner i
            { cleaner with
              handling := none
              inbox := if e = .cancelled then [] else cleaner.inbox })
  | .find i provider =>
      let cleaner := s.cleaners i
      match cleaner.reconciliation with
      | .finding (jobCode :: jobCodes) left =>
          some (s.setCleaner i
            { cleaner with
              reconciliation := JobCleaner.findTail fleet.paths (fleet.registries i)
                (fleet.maxAttempts i) provider jobCode jobCodes left })
      | _ => none
  | .list i provider =>
      let cleaner := s.cleaners i
      match cleaner.reconciliation with
      | .listing jobCode jobCodes retentionBoundary request iterNums left =>
          let reconciliation := JobCleaner.listTail fleet.paths (fleet.maxAttempts i) provider i
            jobCode jobCodes retentionBoundary request iterNums left
          some ((s.setCleaner i { cleaner with reconciliation := reconciliation }).send
            reconciliation.deletion)
      | _ => none
  | .answerTail i answer =>
      let cleaner := s.cleaners i
      match cleaner.reconciliation, answer with
      | .deleting _ jobCodes _, .ok _ =>
          some (s.setCleaner i
            { cleaner with reconciliation := JobCleaner.goOn (fleet.maxAttempts i) jobCodes })
      | .deleting request jobCodes left, .error e =>
          let reconciliation := JobCleaner.afterFailure (fleet.maxAttempts i) e jobCodes
            (.deleting request jobCodes) left
          some ((s.setCleaner i { cleaner with reconciliation := reconciliation }).send
            reconciliation.deletion)
      | _, _ => none
  | .delete i jobCode iterNum =>
      if s.requests.any fun request =>
          request.cleaner = i && request.jobCode = jobCode && request.iterNums.contains iterNum then
        some { s with
          store := s.store.deleteObject (fleet.paths.buildJobIterationPath jobCode iterNum) }
      else none
  | .stop i => some (s.setCleaner i ⟨[], none, .finding [] 0⟩)

/-- The store lists strongly consistently where a cleaner looks for the newest iteration, and no
job is stored whose code extends the given one. -/
def Admits (jobCode : String) (s : Cleanup) : CleanupAction → Prop
  | .find _ provider => provider.Lists s.store.contents
  | .put w _ _ =>
      ∀ job origin, s.workers w = .creating job origin → ¬JobPaths.Extends jobCode job.code
  | _ => True

end Cleanup

end JobManager
