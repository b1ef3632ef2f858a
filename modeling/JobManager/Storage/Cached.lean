import JobManager.Library.Transition
import JobManager.Library.VersionLog
import JobManager.Storage.ObjectStorage

/-!
# Cached storage

Any number of caches over one store with conditional writes.  A cache holds at most one
state of every job, behind a lock of that job; a call waits for the lock, sends requests and
waits for their replies, and other calls of the same cache and of others go on at every such
wait.  A request takes effect at one moment; what its caller does with the reply up to its
next wait is done at that moment, where no other call could see the difference.

Main definitions:

- {lit}`CachedJob`: what one cache holds of one job.
- {lit}`CacheCall.advance`: what a call does next.
- {lit}`CacheSystem.step`: one action of the callers and of the store.
-/

namespace JobManager

/-! ## The store -/

/-- Whether a stored iteration is closed. -/
def StoredJob.isClosed (s : StoredJob) : Bool := s.status = .completed || s.status = .failed

/-- The versions of one job the store ever held, the latest first. -/
abbrev JobLog := VersionLog StoredJob

/-- The versions of every job. -/
abbrev JobLogs := String → JobLog

namespace JobLogs

variable (registry : JobRegistry) (details : String)

def findJobMeta (logs : JobLogs) (jobCode : String) : Except StorageError JobMeta :=
  match (logs jobCode).newest with
  | none => .error (.notFound "No job state objects found for requested job")
  | some v => .ok ⟨jobCode, v.number, v.token⟩

def getJobByMeta (logs : JobLogs) (jobMeta : JobMeta) : Except StorageError Job :=
  match (logs jobMeta.code).current jobMeta.iterNum with
  | none => .error (.notFound details)
  | some v =>
      if v.token = jobMeta.version then
        ObjectStorage.deserializeJob registry v.content jobMeta.version
      else .error (.concurrentModification details)

/-- The stored state of the iteration, unless it is the one the meta names. -/
def getChangedJob (logs : JobLogs) (jobMeta : JobMeta) : Except StorageError (Option Job) :=
  match (logs jobMeta.code).current jobMeta.iterNum with
  | none => .error (.notFound details)
  | some v =>
      if v.token = jobMeta.version then .ok none
      else (ObjectStorage.deserializeJob registry v.content v.token).map some

/-- Whether the conditional write of a job is accepted. -/
def accepts (logs : JobLogs) (job : Job) : Bool :=
  match (logs job.code).current job.iterNum with
  | none => job.version = ""
  | some v => job.version ≠ "" && v.token = job.version

/-- The version a write of a job leaves. -/
def written (job : Job) (token : String) : Version StoredJob :=
  ⟨job.iterNum, token, StoredJob.fromJob job⟩

end JobLogs

/-! ## One job of one cache -/

/-- What a cache holds of a job, and the call that holds its lock. -/
structure CachedJob where
  job : Option Job
  holder : Option Nat

namespace CachedJob

def empty : CachedJob where
  job := none
  holder := none

def replaceJob (cached : CachedJob) (job : Job) : CachedJob := { cached with job := some job }

def forgetJob (cached : CachedJob) : CachedJob := { cached with job := none }

/-- Whether the entry holds exactly the state the meta describes. -/
def isUnchangedSince (cached : CachedJob) (jobMeta : JobMeta) : Bool :=
  cached.job.any fun job => job.iterNum = jobMeta.iterNum && job.version = jobMeta.version

/-- Take a state unless a later iteration is held. -/
def updateCacheIfNewer (storageJob : Job) (cached : CachedJob) : CachedJob :=
  match cached.job with
  | some current =>
      if current.iterNum ≤ storageJob.iterNum then cached.replaceJob storageJob else cached
  | none => cached.replaceJob storageJob

def lock (cached : CachedJob) (id : Nat) : CachedJob := { cached with holder := some id }

def unlock (cached : CachedJob) : CachedJob := { cached with holder := none }

end CachedJob

/-! ## Calls -/

/-- Where a call stands. -/
inductive CachePhase where
  -- a read of the job waits for the lock to look at the entry
  | getJob
  -- it asks whether the open iteration it saw has changed
  | checking (cached : Job)
  -- it has, and the read waits for the lock to leave what it found
  | writingBack (jobMeta : JobMeta) (job : Job)
  -- it asks for the newest iteration
  | discovering
  -- and waits for the lock to look at the entry again
  | discovered (jobMeta : JobMeta)
  -- under the lock it fetches that iteration, with so many repetitions left
  | fetching (jobMeta : JobMeta) (left : Nat)
  | rediscovering (left : Nat)
  | returned (answer : Except StorageError Job) (ended : JobLog)
  -- a read of a named version waits for the lock, then fetches under it
  | getJobByMeta (jobMeta : JobMeta)
  | fetchingByMeta (jobMeta : JobMeta)
  -- a save waits for the lock, then writes under it
  | saveJob (job : Job)
  | saving (job : Job)
  | finished

/-- A call made of one cache, with the versions of the job stored when it was made. -/
structure CacheCall where
  cache : Nat
  code : String
  since : JobLog
  phase : CachePhase

namespace CacheCall

variable (registry : JobRegistry) (details : String)

/-- Where a read stands once the newest iteration is known and the lock is held. -/
def reconsider (id : Nat) (logs : JobLogs) (code : String) (cached : CachedJob)
    (jobMeta : JobMeta) : CachedJob × CachePhase :=
  match cached.job with
  | some job =>
      if job.iterNum = jobMeta.iterNum ∧ job.version = jobMeta.version then
        (cached, .returned (.ok job) (logs code))
      else (cached.lock id, .fetching jobMeta 1)
  | none => (cached.lock id, .fetching jobMeta 1)

/-- What a call does next: the entry and the phase it leaves, unless it waits for the lock or
for its write to take effect. -/
def advance (id : Nat) (logs : JobLogs) (code : String) (cached : CachedJob) :
    CachePhase → Option (CachedJob × CachePhase)
  | .getJob =>
      if cached.holder = none then
        match cached.job.filter fun job => !job.isProcessed with
        | some job => some (cached, .checking job)
        | none => some (cached, .discovering)
      else none
  | .checking job =>
      let jobMeta : JobMeta := ⟨job.code, job.iterNum, job.version⟩
      match logs.getChangedJob registry details jobMeta with
      | .ok none => some (cached, .returned (.ok job) (logs code))
      | .ok (some changed) => some (cached, .writingBack jobMeta changed)
      | .error (.notFound _) => some (cached, .discovering)
      | .error e => some (cached, .returned (.error e) (logs code))
  | .writingBack jobMeta job =>
      if cached.holder = none then
        some (if cached.isUnchangedSince jobMeta then cached.replaceJob job else cached,
          .returned (.ok job) (logs code))
      else none
  | .discovering =>
      match logs.findJobMeta code with
      | .ok jobMeta => some (cached, .discovered jobMeta)
      | .error e => some (cached, .returned (.error e) (logs code))
  | .discovered jobMeta =>
      if cached.holder = none then some (reconsider id logs code cached jobMeta) else none
  | .fetching jobMeta left =>
      match logs.getJobByMeta registry details jobMeta with
      | .ok job => some ((cached.replaceJob job).unlock, .returned (.ok job) (logs code))
      | .error e =>
          if e.isConflict then some (cached, .rediscovering left)
          else some (cached.unlock, .returned (.error e) (logs code))
  | .rediscovering left =>
      match logs.findJobMeta code, left with
      | .error e, _ => some (cached.unlock, .returned (.error e) (logs code))
      | .ok jobMeta, left + 1 => some (cached, .fetching jobMeta left)
      | .ok _, 0 =>
          some (cached.unlock, .returned (.error (.concurrentModification
            "Failed to read consistent job state after retries")) (logs code))
  | .getJobByMeta jobMeta =>
      if cached.holder = none then
        if cached.isUnchangedSince jobMeta then some (cached, .finished)
        else some (cached.lock id, .fetchingByMeta jobMeta)
      else none
  | .fetchingByMeta jobMeta =>
      match logs.getJobByMeta registry details jobMeta with
      | .ok job => some ((CachedJob.updateCacheIfNewer job cached).unlock, .finished)
      | .error e =>
          if e.isConflict then some (cached.forgetJob.unlock, .finished)
          else some (cached.unlock, .finished)
  | .saveJob job => if cached.holder = none then some (cached.lock id, .saving job) else none
  | .saving job => if logs.accepts job then none else some (cached.forgetJob.unlock, .finished)
  | .returned _ _ => none
  | .finished => none

/-- Where a call ends whose request failed for a reason of its own, or which is dropped. -/
def failed (logs : JobLogs) (code : String) (e : StorageError) : CachePhase → Option CachePhase
  | .returned _ _ => none
  | .finished => none
  | .getJobByMeta _ => some .finished
  | .fetchingByMeta _ => some .finished
  | .saveJob _ => some .finished
  | .saving _ => some .finished
  | _ => some (.returned (.error e) (logs code))

end CacheCall

/-! ## The system -/

/-- What becomes of the reply to a write that took effect: it arrives, it is lost and the call
fails, or it is lost and the write is sent again. -/
inductive WriteReply where
  | delivered
  | lost
  | repeated
deriving DecidableEq

/-- What callers and the store do. -/
inductive CacheAction where
  | getJob (id cache : Nat) (jobCode : String)
  | getJobByMeta (id cache : Nat) (jobMeta : JobMeta)
  | saveJob (id cache : Nat) (job : Job)
  | advance (id : Nat)
  | put (id : Nat) (token : String) (reply : WriteReply)
  | fail (id : Nat) (e : StorageError)

/-- The versions stored, what every cache holds of every job, and the calls made. -/
structure CacheSystem where
  logs : JobLogs
  entries : Nat → String → CachedJob
  calls : Nat → Option CacheCall

namespace CacheSystem

/-- Before anything happened. -/
def init : CacheSystem where
  logs := fun _ => []
  entries := fun _ _ => .empty
  calls := fun _ => none

/-- A call is made. -/
def make (s : CacheSystem) (id cache : Nat) (code : String) (phase : CachePhase) :
    Option CacheSystem :=
  match s.calls id with
  | some _ => none
  | none =>
      some { s with
        calls := Function.update s.calls id (some ⟨cache, code, s.logs code, phase⟩) }

/-- A call leaves an entry and goes on. -/
def leave (s : CacheSystem) (id : Nat) (call : CacheCall) (cached : CachedJob)
    (phase : CachePhase) : CacheSystem :=
  { s with
    entries := Function.update s.entries call.cache
      (Function.update (s.entries call.cache) call.code cached)
    calls := Function.update s.calls id (some { call with phase := phase }) }

/-- Release the lock if the call holds it. -/
def releasedBy (id : Nat) (cached : CachedJob) : CachedJob :=
  if cached.holder = some id then cached.unlock else cached

/-- One action of the callers and of the store.  A failed request answers neither that the job
is absent nor that it was modified. -/
def step (registry : JobRegistry) (details : String) (s : CacheSystem) :
    CacheAction → Option CacheSystem
  | .getJob id cache jobCode => s.make id cache jobCode .getJob
  | .getJobByMeta id cache jobMeta => s.make id cache jobMeta.code (.getJobByMeta jobMeta)
  | .saveJob id cache job => s.make id cache job.code (.saveJob job)
  | .advance id =>
      match s.calls id with
      | none => none
      | some call =>
          (CacheCall.advance registry details id s.logs call.code (s.entries call.cache call.code)
            call.phase).map fun (cached, phase) => s.leave id call cached phase
  | .put id token reply =>
      match s.calls id with
      | none => none
      | some call =>
          match call.phase with
          | .saving job =>
              if s.logs.accepts job ∧ token ≠ "" then
                let stored : CacheSystem :=
                  { s with
                    logs := Function.update s.logs job.code
                      (JobLogs.written job token :: s.logs job.code) }
                let cached := s.entries call.cache call.code
                match reply with
                | .delivered =>
                    some (stored.leave id call
                      (cached.replaceJob (job.updateVersion token)).unlock .finished)
                | .lost => some (stored.leave id call cached.unlock .finished)
                | .repeated => some stored
              else none
          | _ => none
  | .fail id e =>
      match s.calls id, e with
      | none, _ => none
      | _, .notFound _ => none
      | _, .concurrentModification _ => none
      | some call, e =>
          (CacheCall.failed s.logs call.code e call.phase).map fun phase =>
            s.leave id call (releasedBy id (s.entries call.cache call.code)) phase

/-- The writes the store is used with: a version token names one content, an iteration is
created only after the one before it was stored closed, and a closed one is not written
again. -/
def admits (s : CacheSystem) : CacheAction → Bool
  | .put id token _ =>
      match s.calls id with
      | some ⟨_, _, _, .saving job⟩ =>
          (s.logs job.code).allows StoredJob.isClosed (JobLogs.written job token)
      | _ => true
  | _ => true

end CacheSystem

end JobManager
