import JobManager.Library.Chunks
import JobManager.Storage.Wire

/-!
# Deleting objects

How many requests the deletion of a set of objects becomes is the provider's own: one of them
takes many objects in one request and reports which of them it could not delete, the others take
one object at a time and refuse one that is gone already.

Main results:

- Theorem {lit}`classifyDeleteFailures_isRetryable`: a batch is repeated exactly where one of its
  failures may pass.
- Theorem {lit}`S3Backend.deleteRequests_bounded`: the requests of a batched deletion.
- The laws of {lit}`DeleteClient`: the requests name every object once, and a request succeeds
  exactly where the provider says that its objects are gone.
-/

namespace JobManager

/-! ## Failures inside an answer -/

/-- One object a batch could not delete. -/
structure ObjectDeleteError where
  key : Option String
  code : Option String
  message : Option String
deriving DecidableEq

def mapDeleteFailureCode : Option String → Option StorageError
  | some "SlowDown" => some .rateLimited
  | some "RequestLimitExceeded" => some .rateLimited
  | some "RequestTimeout" => some .timeout
  | some "RequestTimeoutException" => some .timeout
  | some "InternalError" => some .serviceUnavailable
  | some "ServiceUnavailable" => some .serviceUnavailable
  | some "PriorRequestNotComplete" => some .serviceUnavailable
  | _ => none

def maxDescribedDeleteFailures : Nat := 10

def ObjectDeleteError.describe (failure : ObjectDeleteError) : String :=
  let key := failure.key.getD "unnamed object"
  let code := failure.code.getD "no code"
  let message := failure.message.getD "no message"
  s!"{key} ({code}: {message})"

def describeDeleteFailures (failures : List ObjectDeleteError) : String :=
  let description := ", ".intercalate
    ((failures.take maxDescribedDeleteFailures).map ObjectDeleteError.describe)
  let omittedCount := failures.length - maxDescribedDeleteFailures
  if 0 < omittedCount then s!"{description} (+{omittedCount} more)" else description

/-- What the failures of one batch amount to. -/
def classifyDeleteFailures (failures : List ObjectDeleteError) : Option StorageError :=
  if failures.isEmpty then none
  else
    match failures.findSome? fun failure => mapDeleteFailureCode failure.code with
    | some transientError => some transientError
    | none =>
        let details := describeDeleteFailures failures
        some (.backend s!"Failed to delete job state objects: {details}")

/-- A batch counts as deleted exactly where no failure is listed. -/
theorem classifyDeleteFailures_eq_none {failures : List ObjectDeleteError} :
    classifyDeleteFailures failures = none ↔ failures = [] := by
  cases failures with
  | nil => simp [classifyDeleteFailures]
  | cons failure failures =>
      simp only [classifyDeleteFailures, List.isEmpty_cons, Bool.false_eq_true, if_false]
      split <;> simp

/-- A failure that is listed may pass. -/
theorem mapDeleteFailureCode_isRetryable {code : Option String} {e : StorageError}
    (h : mapDeleteFailureCode code = some e) : e.isRetryable = true := by
  unfold mapDeleteFailureCode at h
  split at h <;> cases h <;> rfl

/-- A batch is repeated exactly where one of the failures it reports may pass. -/
theorem classifyDeleteFailures_isRetryable {failures : List ObjectDeleteError} {e : StorageError}
    (h : classifyDeleteFailures failures = some e) :
    e.isRetryable = true ↔
      ∃ failure ∈ failures, (mapDeleteFailureCode failure.code).isSome = true := by
  rw [classifyDeleteFailures] at h
  split at h
  · cases h
  · split at h <;> rename_i hfind
    · cases h
      obtain ⟨failure, hmem, hcode⟩ := List.exists_of_findSome?_eq_some hfind
      constructor
      · intro _
        exact ⟨failure, hmem, by rw [hcode]; rfl⟩
      · intro _
        exact mapDeleteFailureCode_isRetryable hcode
    · cases h
      rw [List.findSome?_eq_none_iff] at hfind
      constructor
      · intro hretry
        cases hretry
      · rintro ⟨failure, hmem, hcode⟩
        rw [hfind failure hmem] at hcode
        cases hcode

/-! ## One client for the three providers -/

/-- How a provider deletes objects: the requests a set of keys becomes, and what it makes of the
answer to one of them.  The provider's answer says of some requests that their objects are
gone. -/
structure DeleteClient where
  Request : Type
  Answer : Type
  requests : List String → List Request
  keys : Request → List String
  send : Bool → Request → Answer → Option String × Except StorageError Unit
  isDone : Request → Answer → Bool
  keys_requests : ∀ keys', (requests keys').flatMap keys = keys'
  send_ok : ∀ isCancelled request answer, (send isCancelled request answer).2 = .ok () ↔
    isCancelled = false ∧ isDone request answer = true

/-- What is made of an answer within the request. -/
def RequestRun.andThen {ε α β : Type} (read : α → Except ε β) : RequestRun ε α → RequestRun ε β
  | .cancelled => .cancelled
  | .timedOut => .timedOut
  | .finished (.ok value) => .finished (read value)
  | .finished (.error error) => .finished (.error error)

/-! ## Batches -/

/-- Keys one batch may carry. -/
def DeleteBatchSize := { size : Nat // 1 ≤ size ∧ size ≤ 1000 }

namespace S3Backend

/-- A single object, or a batch of them. -/
inductive DeleteRequest where
  | object (key : String)
  | batch (keys : List String)
deriving DecidableEq

def DeleteRequest.keys : DeleteRequest → List String
  | .object key => [key]
  | .batch keys => keys

/-- A set of one key is a request of its own kind. -/
def deleteRequests (deleteBatchSize : DeleteBatchSize) : List String → List DeleteRequest
  | [key] => [.object key]
  | keys => (keys.toChunks deleteBatchSize.val).map .batch

/-- The report of a batch is read within its request. -/
def deleteObjectBatch (run : RequestRun S3Failure (List ObjectDeleteError)) :
    RequestRun S3Failure Unit :=
  run.andThen fun failures =>
    match classifyDeleteFailures failures with
    | none => .ok ()
    | some failure => .error (.unusable failure)

def sendDelete (isCancelled : Bool) (request : DeleteRequest)
    (run : RequestRun S3Failure (List ObjectDeleteError)) :
    Option String × Except StorageError Unit :=
  match request with
  | .object _ => Wire.sendRequest isCancelled (run.andThen fun _ => .ok ()) .success
  | .batch _ => Wire.sendRequest isCancelled (deleteObjectBatch run) .success

/-- A single object is gone where its request was answered, the objects of a batch where the
answer reports no failure. -/
def isDeleted : DeleteRequest → RequestRun S3Failure (List ObjectDeleteError) → Bool
  | .object _, .finished (.ok _) => true
  | .batch _, .finished (.ok failures) => failures.isEmpty
  | _, _ => false

/-- A batch succeeds exactly where its deletion was carried out. -/
theorem sendDelete_ok (isCancelled : Bool) (request : DeleteRequest)
    (run : RequestRun S3Failure (List ObjectDeleteError)) :
    (sendDelete isCancelled request run).2 = .ok () ↔
      isCancelled = false ∧ isDeleted request run = true := by
  cases request with
  | object key =>
      rw [sendDelete, Wire.sendRequest_eq_ok]
      rcases run with _ | _ | (error | failures) <;>
        simp [RequestRun.andThen, isDeleted, Wire.accepts]
  | batch keys =>
      rw [sendDelete, Wire.sendRequest_eq_ok]
      rcases run with _ | _ | (error | failures)
      · simp [deleteObjectBatch, RequestRun.andThen, isDeleted, Wire.accepts]
      · simp [deleteObjectBatch, RequestRun.andThen, isDeleted, Wire.accepts]
      · simp [deleteObjectBatch, RequestRun.andThen, isDeleted, Wire.accepts]
      · cases hclass : classifyDeleteFailures failures with
        | none =>
            obtain rfl := classifyDeleteFailures_eq_none.mp hclass
            simp [deleteObjectBatch, RequestRun.andThen, isDeleted, hclass]
        | some failure =>
            have hne : failures ≠ [] := by
              rintro rfl
              cases hclass
            simp [deleteObjectBatch, RequestRun.andThen, isDeleted, Wire.accepts, hclass, hne]

/-- The batches name every key, once and in order. -/
theorem keys_deleteRequests (deleteBatchSize : DeleteBatchSize) (keys : List String) :
    (deleteRequests deleteBatchSize keys).flatMap DeleteRequest.keys = keys := by
  unfold deleteRequests
  split
  · rfl
  · rw [List.flatMap_map, List.flatMap_def]
    exact (congrArg List.flatten (List.map_id _)).trans (Chunks.flatten_toChunks keys)

/-- A batched deletion makes as few requests as its batches allow, and none of them carries more
keys than a batch may. -/
theorem deleteRequests_bounded (deleteBatchSize : DeleteBatchSize) (keys : List String) :
    (deleteRequests deleteBatchSize keys).length =
        (keys.length + deleteBatchSize.val - 1) / deleteBatchSize.val ∧
      ∀ request ∈ deleteRequests deleteBatchSize keys,
        request.keys.length ≤ deleteBatchSize.val := by
  obtain ⟨size, hpos, hmax⟩ := deleteBatchSize
  unfold deleteRequests
  split
  · refine ⟨?_, ?_⟩
    · simp only [List.length_singleton, Nat.add_sub_cancel_left]
      exact (Nat.div_self hpos).symm
    · intro request hrequest
      rw [List.mem_singleton.mp hrequest]
      exact hpos
  · refine ⟨?_, ?_⟩
    · rw [List.length_map, Chunks.length_toChunks hpos]
    · intro request hrequest
      obtain ⟨chunk, hchunk, rfl⟩ := List.mem_map.mp hrequest
      exact Chunks.length_le_of_mem_toChunks hpos keys chunk hchunk

def deletion (deleteBatchSize : DeleteBatchSize) : DeleteClient where
  Request := DeleteRequest
  Answer := RequestRun S3Failure (List ObjectDeleteError)
  requests := deleteRequests deleteBatchSize
  keys := DeleteRequest.keys
  send := sendDelete
  isDone := isDeleted
  keys_requests := keys_deleteRequests deleteBatchSize
  send_ok := sendDelete_ok

end S3Backend

/-! ## One object at a time -/

namespace AzureBackend

/-- A blob that is gone already is what the deletion asked for. -/
def sendDelete (isCancelled : Bool) (_key : String) (run : RequestRun AzureError Unit) :
    Option String × Except StorageError Unit :=
  Wire.sendRequest isCancelled run (.objectGone ())

def isDeleted (_key : String) : RequestRun AzureError Unit → Bool
  | .finished (.ok _) => true
  | .finished (.error error) => ProviderError.isObjectGone error
  | _ => false

/-- One deletion succeeds exactly where it was carried out. -/
theorem sendDelete_ok (isCancelled : Bool) (key : String) (run : RequestRun AzureError Unit) :
    (sendDelete isCancelled key run).2 = .ok () ↔
      isCancelled = false ∧ isDeleted key run = true := by
  rw [sendDelete, Wire.sendRequest_eq_ok]
  rcases run with _ | _ | (error | value) <;> simp [isDeleted, Wire.accepts]

def deletion : DeleteClient where
  Request := String
  Answer := RequestRun AzureError Unit
  requests := id
  keys := fun key => [key]
  send := sendDelete
  isDone := isDeleted
  keys_requests := List.flatMap_singleton'
  send_ok := sendDelete_ok

end AzureBackend

namespace GcsBackend

/-- A status the service refuses with is a failure of the request, under what the service said. -/
def sendObjectRequest {α : Type} (answerReader : Nat × String → Except StorageError α) :
    RequestRun GcsRequestError (Nat × String) → RequestRun GcsFailure α
  | .cancelled => .cancelled
  | .timedOut => .timedOut
  | .finished (.error error) => .finished (.error (.unanswered error))
  | .finished (.ok response) =>
      if isSuccessful response.1 then .finished ((answerReader response).mapError .unusable)
      else .finished (.error (.refused response.1 response.2))

/-- An object that is gone already is what the deletion asked for. -/
def sendDelete (isCancelled : Bool) (_key : String)
    (run : RequestRun GcsRequestError (Nat × String)) : Option String × Except StorageError Unit :=
  Wire.sendRequest isCancelled (sendObjectRequest (fun _ => .ok ()) run) (.objectGone ())

def isDeleted (_key : String) : RequestRun GcsRequestError (Nat × String) → Bool
  | .finished (.ok response) => isSuccessful response.1 || isAbsentStatus response.1
  | _ => false

/-- One deletion succeeds exactly where it was carried out. -/
theorem sendDelete_ok (isCancelled : Bool) (key : String)
    (run : RequestRun GcsRequestError (Nat × String)) :
    (sendDelete isCancelled key run).2 = .ok () ↔
      isCancelled = false ∧ isDeleted key run = true := by
  rw [sendDelete, Wire.sendRequest_eq_ok]
  rcases run with _ | _ | (error | ⟨status, details⟩)
  · simp [sendObjectRequest, isDeleted]
  · simp [sendObjectRequest, isDeleted]
  · simp [sendObjectRequest, isDeleted, Wire.accepts, ProviderError.isObjectGone]
  · cases hstatus : isSuccessful status
    · simp [sendObjectRequest, isDeleted, Wire.accepts, ProviderError.isObjectGone, hstatus]
    · simp [sendObjectRequest, isDeleted, hstatus, Except.mapError]

def deletion : DeleteClient where
  Request := String
  Answer := RequestRun GcsRequestError (Nat × String)
  requests := id
  keys := fun key => [key]
  send := sendDelete
  isDone := isDeleted
  keys_requests := List.flatMap_singleton'
  send_ok := sendDelete_ok

end GcsBackend

/-- The providers objects may be kept at. -/
inductive DeleteProvider where
  | s3 (deleteBatchSize : DeleteBatchSize)
  | azure
  | gcs

def DeleteProvider.client : DeleteProvider → DeleteClient
  | .s3 deleteBatchSize => S3Backend.deletion deleteBatchSize
  | .azure => AzureBackend.deletion
  | .gcs => GcsBackend.deletion

end JobManager
