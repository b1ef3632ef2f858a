import JobManager.Library.Retry
import JobManager.Storage.Listing
import JobManager.Storage.State

/-!
# Job states as objects

Every iteration is one object.  A save creates the object of a new iteration or replaces
the version it carries; a read lists the newest object of the job and reads the version the
listing named, beginning again where that version was replaced in between.

Main results:

- Theorem {lit}`ObjectStorage.saveJob_eq`: a save is one conditional write.
- Theorem {lit}`Retrier.retry_of_done`, {lit}`Retrier.retry_of_error`: a first attempt that
  ends the call.
- Theorem {lit}`Retrier.retry_eq`: the attempts are a retry loop over no state.
- Theorem {lit}`Retrier.retry_of_retry`: attempts that all fail for one cause spend the
  budget.
- Theorem {lit}`ObjectStorage.getJobByMeta_eq_ok`: what a read of a named version answers.
-/

namespace JobManager

/-! ## A store of objects with conditional writes -/

/-- One stored state object. -/
structure StateObject where
  version : String
  body : StoredJob

/-- A store of objects: what it holds, the versions it has issued, and what it says along with
a refusal. -/
structure ObjectStore where
  objects : String → Option StateObject
  issued : List String
  details : String

/-- Condition a state object is written under. -/
inductive PutCondition where
  | createOnly
  | matchVersion (version : String)
deriving DecidableEq

/-- Whether the stored object meets the condition. -/
def PutCondition.isMetBy : PutCondition → Option StateObject → Bool
  | .createOnly, stored => stored.isNone
  | .matchVersion version, stored => stored.any fun object => object.version = version

namespace ObjectStore

/-- A store without objects. -/
def empty (details : String) : ObjectStore where
  objects := fun _ => none
  issued := []
  details := details

/-- The version every object is stored under. -/
def contents (store : ObjectStore) : Contents := fun key => (store.objects key).map (·.version)

/-- Write an object under a condition; the store answers with the version it gave it. -/
def putObject (key : String) (body : StoredJob) (condition : PutCondition) (token : String) :
    Mutation ObjectStore StorageError String := fun store =>
  if condition.isMetBy (store.objects key) then
    (.ok token,
      { store with
        objects := Function.update store.objects key (some ⟨token, body⟩)
        issued := token :: store.issued })
  else (.error (.concurrentModification store.details), store)

/-- Read the object whose stored version is the expected one. -/
def getObject (store : ObjectStore) (key expectedVersion : String) :
    Except StorageError StoredJob :=
  match store.objects key with
  | none => .error (.notFound store.details)
  | some object =>
      if object.version = expectedVersion then .ok object.body
      else .error (.concurrentModification store.details)

/-- Read an object with its version, unless it still carries the known one. -/
def getChangedObject (store : ObjectStore) (key knownVersion : String) :
    Except StorageError (Option StateObject) :=
  match store.objects key with
  | none => .error (.notFound store.details)
  | some object => if object.version = knownVersion then .ok none else .ok (some object)

/-- Delete an object; where there is none, nothing happens. -/
def deleteObject (store : ObjectStore) (key : String) : ObjectStore :=
  { store with objects := Function.update store.objects key none }

@[simp] theorem objects_deleteObject_self (store : ObjectStore) (key : String) :
    (store.deleteObject key).objects key = none :=
  Function.update_self ..

/-- Every other object stays. -/
theorem objects_deleteObject_of_ne (store : ObjectStore) {key key' : String} (h : key' ≠ key) :
    (store.deleteObject key).objects key' = store.objects key' :=
  Function.update_of_ne h ..

end ObjectStore

/-! ## Attempts -/

namespace StorageError

def isRetryable : StorageError → Bool
  | .timeout => true
  | .rateLimited => true
  | .serviceUnavailable => true
  | _ => false

def isConflict : StorageError → Bool
  | .concurrentModification _ => true
  | _ => false

end StorageError

/-- Outcome of one attempt of a retried operation. -/
inductive RetryStep (α : Type) where
  | done (value : α)
  | retry (cause : StorageError)

/-- This failure as a retry loop reads it. -/
def StorageError.intoRetryStep {α : Type} (e : StorageError) : Except StorageError (RetryStep α) :=
  if e.isRetryable then .ok (.retry e) else .error e

namespace Retrier

variable {α : Type}

/-- Attempts from the given one on, with so many left after it. -/
def retryFrom (handler : Nat → Except StorageError (RetryStep α)) :
    Nat → Nat → Except StorageError α
  | attempt, left =>
      match handler attempt with
      | .error e => .error e
      | .ok (.done value) => .ok value
      | .ok (.retry cause) =>
          match left with
          | 0 => .error (.attemptsSpent cause)
          | left + 1 => retryFrom handler (attempt + 1) left

/-- Repeat an operation until it ends or the attempts are spent; the first is always made. -/
def retry (maxAttempts : Nat) (handler : Nat → Except StorageError (RetryStep α)) :
    Except StorageError α := retryFrom handler 0 (maxAttempts - 1)

variable {handler : Nat → Except StorageError (RetryStep α)} {maxAttempts : Nat}

/-- An attempt that is done ends the loop. -/
theorem retry_of_done {value : α} (h : handler 0 = .ok (.done value)) :
    retry maxAttempts handler = .ok value := by
  rw [retry, retryFrom, h]

/-- And so does one that fails for good. -/
theorem retry_of_error {e : StorageError} (h : handler 0 = .error e) :
    retry maxAttempts handler = .error e := by
  rw [retry, retryFrom, h]

/-- An attempt as a step of a retry loop over no state. -/
def attemptStep (handler : Nat → Except StorageError (RetryStep α)) (attempt : Nat) :
    Mutation Unit StorageError (Retry.Step StorageError α) :=
  .ofExcept ((handler attempt).map fun
    | .done value => .done value
    | .retry cause => .retry cause)

/-- The loop over replies is the general one, without a state and without pauses. -/
theorem retryFrom_eq (attempt left : Nat) :
    retryFrom handler attempt left =
      (Retry.retryFrom ⟨.cancelled, .attemptsSpent⟩ (fun _ => false) (attemptStep handler) attempt
        left ()).1 := by
  induction left generalizing attempt with
  | zero =>
      rw [retryFrom, Retry.retryFrom, attemptStep]
      rcases handler attempt with e | value | cause <;> rfl
  | succ left ih =>
      rw [retryFrom, Retry.retryFrom, attemptStep]
      rcases handler attempt with e | value | cause
      · rfl
      · rfl
      · exact ih (attempt + 1)

/-- The attempts of the storage layer are a retry loop over no state whose pauses nobody
cancels. -/
theorem retry_eq :
    retry maxAttempts handler =
      (Retry.retry ⟨.cancelled, .attemptsSpent⟩ maxAttempts (fun _ => false) (attemptStep handler)
        ()).1 :=
  retryFrom_eq 0 (maxAttempts - 1)

/-- Attempts that all ask for another spend the budget. -/
theorem retry_of_retry {cause : StorageError}
    (h : ∀ attempt, handler attempt = .ok (.retry cause)) :
    retry maxAttempts handler = .error (.attemptsSpent cause) := by
  have hstep : ∀ attempt s, attemptStep handler attempt s = (.ok (.retry cause), s) := by
    intro attempt s
    rw [attemptStep, h]
    rfl
  have hkeeps : Retry.Keeps ⟨.cancelled, .attemptsSpent⟩ (max 1 maxAttempts) (fun _ => false)
      (attemptStep handler) (fun _ _ => True)
      (fun result _ => result = .error (.attemptsSpent cause)) := by
    refine ⟨?_, ?_, ?_⟩
    · intro attempt s e s' _ _ hattempt
      rw [hstep] at hattempt
      cases hattempt
    · intro attempt s value s' _ _ hattempt
      rw [hstep] at hattempt
      cases hattempt
    · intro attempt s cause' s' _ _ hattempt
      rw [hstep] at hattempt
      cases hattempt
      exact ⟨trivial, rfl, by simp⟩
  rw [retry_eq]
  exact Retry.retry_rule hkeeps trivial

end Retrier

/-! ## The operations -/

/-- The definition of a registered job. -/
def JobRegistry.getJob (registry : JobRegistry) (code : String) : Except Error JobDefinition :=
  match registry.jobsByCode.get code with
  | some jobDef => .ok jobDef
  | none => .error (.other s!"job definition {code} not found")

namespace ObjectStorage

variable (paths : JobPaths) (registry : JobRegistry)

def deserializeJob (storedJob : StoredJob) (version : String) : Except StorageError Job :=
  match registry.getJob storedJob.code with
  | .error (.other message) => .error (.serialization message)
  | .ok jobDef =>
      .ok (storedJob.intoJob jobDef.maxIterations jobDef.iterationInterval jobDef.taskLimits
        version)

def getJobByMeta (store : ObjectStore) (jobMeta : JobMeta) : Except StorageError Job := do
  let key := paths.buildJobIterationPath jobMeta.code jobMeta.iterNum
  let storedJob ← store.getObject key jobMeta.version
  deserializeJob registry storedJob jobMeta.version

/-- The stored state of an iteration, unless it is the one the meta names. -/
def getChangedJob (store : ObjectStore) (jobMeta : JobMeta) :
    Except StorageError (Option Job) := do
  let key := paths.buildJobIterationPath jobMeta.code jobMeta.iterNum
  match ← store.getChangedObject key jobMeta.version with
  | none => return none
  | some object => return some (← deserializeJob registry object.body object.version)

/-- One attempt of a read: the provider lists at one moment, and the object is read from the
store at another. -/
def attemptGetJob (provider : Backend) (store : ObjectStore) (jobCode : String) :
    Except StorageError (RetryStep Job) :=
  match findJobMeta paths provider jobCode with
  | .error e => e.intoRetryStep
  | .ok jobMeta =>
      match getJobByMeta paths registry store jobMeta with
      | .ok job => .ok (.done job)
      | .error e => if e.isRetryable || e.isConflict then .ok (.retry e) else .error e

/-- Read the newest iteration of a job; every attempt comes with the provider and the store as
they stand when it is made. -/
def getJob (maxAttempts : Nat) (provider : Nat → Backend) (store : Nat → ObjectStore)
    (jobCode : String) : Except StorageError Job :=
  Retrier.retry maxAttempts fun attempt =>
    attemptGetJob paths registry (provider attempt) (store attempt) jobCode

/-- What a save is conditioned on. -/
def putCondition (job : Job) : PutCondition :=
  if job.version = "" then .createOnly else .matchVersion job.version

/-- Save a job, answering with the job under its stored version. -/
def saveJob (token : String) (job : Job) : Mutation ObjectStore StorageError Job := do
  let key := paths.buildJobIterationPath job.code job.iterNum
  let storedVersion ←
    ObjectStore.putObject key (StoredJob.fromJob job) (putCondition job) token
  return job.updateVersion storedVersion

/-! ## What an operation answers -/

variable {paths registry} {store : ObjectStore} {provider : Backend} {job : Job}

/-- What an accepted save leaves. -/
def saved (paths : JobPaths) (store : ObjectStore) (token : String) (job : Job) : ObjectStore :=
  { store with
    objects := Function.update store.objects (paths.buildJobIterationPath job.code job.iterNum)
      (some ⟨token, StoredJob.fromJob job⟩)
    issued := token :: store.issued }

/-- A save stores what persists of the job under its own key. -/
theorem objects_saved_self (token : String) :
    (saved paths store token job).objects (paths.buildJobIterationPath job.code job.iterNum) =
      some ⟨token, StoredJob.fromJob job⟩ :=
  Function.update_self ..

/-- Every other object stays. -/
theorem objects_saved_of_ne (token : String) {key : String}
    (h : key ≠ paths.buildJobIterationPath job.code job.iterNum) :
    (saved paths store token job).objects key = store.objects key :=
  Function.update_of_ne h ..

/-- A save is one conditional write. -/
theorem saveJob_eq (token : String) :
    saveJob paths token job store =
      if (putCondition job).isMetBy
          (store.objects (paths.buildJobIterationPath job.code job.iterNum)) then
        (.ok (job.updateVersion token), saved paths store token job)
      else (.error (.concurrentModification store.details), store) := by
  rw [saveJob, Mutation.bind_apply, ObjectStore.putObject]
  split <;> rename_i heq
  · split at heq <;> cases heq
    rw [if_pos ‹_›]
    rfl
  · split at heq <;> cases heq
    rw [if_neg ‹_›]

/-- The version a read names is what it answers with, under the settings of the registered
definition. -/
theorem getJobByMeta_eq_ok {jobMeta : JobMeta} :
    getJobByMeta paths registry store jobMeta = .ok job ↔
      ∃ object jobDef, store.objects (paths.buildJobIterationPath jobMeta.code jobMeta.iterNum) =
          some object ∧ object.version = jobMeta.version ∧
        registry.jobsByCode.get object.body.code = some jobDef ∧
        job = object.body.intoJob jobDef.maxIterations jobDef.iterationInterval jobDef.taskLimits
          jobMeta.version := by
  simp only [getJobByMeta, ObjectStore.getObject]
  cases hobject : store.objects (paths.buildJobIterationPath jobMeta.code jobMeta.iterNum) with
  | none => simp [bind, Except.bind]
  | some object =>
      by_cases hversion : object.version = jobMeta.version
      · simp only [hversion, ↓reduceIte, bind, Except.bind, deserializeJob, JobRegistry.getJob]
        cases hdef : registry.jobsByCode.get object.body.code with
        | none => simp [hdef]
        | some jobDef => simp [hdef, hversion, eq_comm]
      · simp [hversion, bind, Except.bind]

end ObjectStorage

end JobManager
