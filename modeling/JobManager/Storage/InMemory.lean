import JobManager.Storage.Paths
import JobManager.Storage.State

/-!
# The storage of tests

Holds the current iteration of every job it was given, and no history.  A save is
conditional: one without a version creates the iteration after the stored one, any other
replaces the stored version it carries.

Main results:

- Theorem {lit}`InMemoryStorage.saveJob_allowed`: what an allowed save leaves.
- Theorem {lit}`InMemoryStorage.saveJob_refused`: a save that is not allowed is answered
  with a conflict and changes nothing.
-/

namespace JobManager

/-- The current iteration of every job, and how many saves were accepted. -/
structure InMemoryStorage where
  jobsByCode : String → Option Job
  versionCounter : Nat

namespace InMemoryStorage

/-- A storage holding no job. -/
def new : InMemoryStorage where
  jobsByCode := fun _ => none
  versionCounter := 0

/-- Whether the job may replace what is stored for its code, if anything. -/
def isSaveAllowed (job : Job) (stored : Option Job) : Bool :=
  match stored, decide (job.version = "") with
  | none, true => job.iterNum = 1
  | none, false => false
  | some stored, true => stored.iterNum + 1 = job.iterNum
  | some stored, false => stored.iterNum = job.iterNum && stored.version = job.version

/-- What is stored for a job. -/
def getJob (storage : InMemoryStorage) (jobCode : String) : Except StorageError Job :=
  match storage.jobsByCode jobCode with
  | some job => .ok job
  | none => .error (.notFound "Job is absent in in-memory storage")

/-- Save a job, answering with the job under its stored version. -/
def saveJob (job : Job) : Mutation InMemoryStorage StorageError Job := fun storage =>
  if isSaveAllowed job (storage.jobsByCode job.code) then
    let nextVersion := storage.versionCounter + 1
    let job := job.updateVersion (toString nextVersion)
    (.ok job,
      { jobsByCode := Function.update storage.jobsByCode job.code (some (copyPersistedState job))
        versionCounter := nextVersion })
  else
    (.error (.concurrentModification
      s!"job '{job.code}' iteration {job.iterNum} was modified in in-memory storage"), storage)

variable {storage : InMemoryStorage} {job : Job}

/-- What an allowed save leaves. -/
def saved (storage : InMemoryStorage) (job : Job) : InMemoryStorage where
  jobsByCode := Function.update storage.jobsByCode job.code
    (some (copyPersistedState (job.updateVersion (toString (storage.versionCounter + 1)))))
  versionCounter := storage.versionCounter + 1

/-- A save keeps what persists of the job, under the next version. -/
theorem jobsByCode_saved_self : (storage.saved job).jobsByCode job.code =
    some (copyPersistedState (job.updateVersion (toString (storage.versionCounter + 1)))) :=
  Function.update_self ..

/-- Every other job stays as it was. -/
theorem jobsByCode_saved_of_ne (storage : InMemoryStorage) (job : Job) {code : String}
    (h : code ≠ job.code) : (storage.saved job).jobsByCode code = storage.jobsByCode code :=
  Function.update_of_ne h ..

/-- A job of which nothing is stored may only begin, with its first iteration. -/
theorem isSaveAllowed_absent :
    isSaveAllowed job none = true ↔ job.version = "" ∧ job.iterNum = 1 := by
  by_cases hversion : job.version = "" <;> simp [isSaveAllowed, hversion]

/-- An iteration that was never saved may only follow the one stored. -/
theorem isSaveAllowed_creation {stored : Job} (hversion : job.version = "") :
    isSaveAllowed job (some stored) = true ↔ stored.iterNum + 1 = job.iterNum := by
  simp [isSaveAllowed, hversion]

/-- Any other save replaces the very version it was read as. -/
theorem isSaveAllowed_replacement {stored : Job} (hversion : job.version ≠ "") :
    isSaveAllowed job (some stored) = true ↔
      stored.iterNum = job.iterNum ∧ stored.version = job.version := by
  simp [isSaveAllowed, hversion]

/-- A save that is allowed answers with its version. -/
theorem saveJob_allowed (h : isSaveAllowed job (storage.jobsByCode job.code) = true) :
    saveJob job storage =
      (.ok (job.updateVersion (toString (storage.versionCounter + 1))), storage.saved job) := by
  rw [saveJob, if_pos h]
  rfl

/-- One that is not changes nothing. -/
theorem saveJob_refused (h : isSaveAllowed job (storage.jobsByCode job.code) = false) :
    saveJob job storage =
      (.error (.concurrentModification
        s!"job '{job.code}' iteration {job.iterNum} was modified in in-memory storage"),
        storage) := by
  rw [saveJob, if_neg (by simp [h])]

end InMemoryStorage

end JobManager
