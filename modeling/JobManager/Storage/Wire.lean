import JobManager.Storage.ObjectStorage

/-!
# Requests to a provider

Every request of every provider goes through one wrapper, which bounds it, records it under one
pair of operation and status, and turns what came back into an answer or an error.  What a
failure means is the provider's own; two refusals are answers a caller may ask for.

Main results:

- Theorem {lit}`Wire.sendRequest_eq_ok`: which requests are answered for their caller.
-/

namespace JobManager

/-! ## Statuses -/

/-- What the status of an answer amounts to. -/
inductive HttpOutcome where
  | notModified
  | failed (error : StorageError)
deriving DecidableEq

def classifyHttpStatus (status : Nat) (details : String) : HttpOutcome :=
  match status with
  | 304 => .notModified
  | 401 => .failed (.auth details)
  | 403 => .failed (.auth details)
  | 404 => .failed (.notFound details)
  | 408 => .failed .timeout
  | 412 => .failed (.concurrentModification details)
  | 429 => .failed .rateLimited
  | 500 => .failed .serviceUnavailable
  | 502 => .failed .serviceUnavailable
  | 503 => .failed .serviceUnavailable
  | 504 => .failed .serviceUnavailable
  | _ => .failed (.backend details)

/-- What a failed request is recorded as. -/
inductive RequestStatus where
  | answered (status : Nat)
  | failed
  | notSent
deriving DecidableEq

namespace RequestStatus

def successStatus : String := "OK"

def failedStatus : String := "ERR"

def cancelledStatus : String := "CANCELLED"

/-- The label a status is recorded under. -/
def intoLabel : RequestStatus → Option String
  | .answered status => some (toString status)
  | .failed => some failedStatus
  | .notSent => none

end RequestStatus

/-- What a provider's own failure answers. -/
class ProviderError (ε : Type) where
  intoStorageError : ε → StorageError
  recordedStatus : ε → RequestStatus
  isNotModified : ε → Bool
  isObjectGone : ε → Bool

/-- Beside a successful answer, the refusal the caller asked for, and what it stands for. -/
inductive ExpectedAnswer (α : Type) where
  | success
  | notModified (answer : α)
  | objectGone (answer : α)

/-! ## One request -/

/-- How a request that was sent ended. -/
inductive RequestRun (ε α : Type) where
  | cancelled
  | timedOut
  | finished (result : Except ε α)

/-- Why a request has no answer. -/
inductive CallError (ε : Type) where
  | timedOut
  | notSent
  | cancelled
  | refused (error : ε)

namespace Wire

variable {ε α : Type}

/-- Run one request, unless it is cancelled before it is sent. -/
def sendRequestInternal (isCancelled : Bool) : RequestRun ε α → Except (CallError ε) α
  | run =>
      if isCancelled then .error .notSent
      else
        match run with
        | .cancelled => .error .cancelled
        | .finished (.ok value) => .ok value
        | .finished (.error error) => .error (.refused error)
        | .timedOut => .error .timedOut

variable [ProviderError ε]

/-- What a refusal amounts to for a caller that asked for it, and what it is recorded under. -/
def settleRefusal (error : ε) : ExpectedAnswer α → Option String × Except StorageError α
  | .notModified answer =>
      if ProviderError.isNotModified error then
        ((ProviderError.recordedStatus error).intoLabel, .ok answer)
      else
        ((ProviderError.recordedStatus error).intoLabel,
          .error (ProviderError.intoStorageError error))
  | .objectGone answer =>
      if ProviderError.isObjectGone error then (some RequestStatus.successStatus, .ok answer)
      else
        ((ProviderError.recordedStatus error).intoLabel,
          .error (ProviderError.intoStorageError error))
  | .success =>
      ((ProviderError.recordedStatus error).intoLabel,
        .error (ProviderError.intoStorageError error))

/-- Send one request: what it is recorded under, and its answer. -/
def sendRequest (isCancelled : Bool) (run : RequestRun ε α) (acceptedAnswer : ExpectedAnswer α) :
    Option String × Except StorageError α :=
  match sendRequestInternal isCancelled run with
  | .ok answer => (some RequestStatus.successStatus, .ok answer)
  | .error .notSent => (none, .error .cancelled)
  | .error .cancelled => (some RequestStatus.cancelledStatus, .error .cancelled)
  | .error .timedOut => (some RequestStatus.failedStatus, .error .timeout)
  | .error (.refused error) => settleRefusal error acceptedAnswer

/-- The refusal a caller asked for, and what it stands for. -/
def accepts (acceptedAnswer : ExpectedAnswer α) (error : ε) (answer : α) : Prop :=
  match acceptedAnswer with
  | .success => False
  | .notModified value => ProviderError.isNotModified error = true ∧ answer = value
  | .objectGone value => ProviderError.isObjectGone error = true ∧ answer = value

/-- A refusal counts as a success where the answer is one that is accepted. -/
theorem settleRefusal_eq_ok {error : ε} {acceptedAnswer : ExpectedAnswer α} {answer : α} :
    (settleRefusal error acceptedAnswer).2 = .ok answer ↔ accepts acceptedAnswer error answer := by
  cases acceptedAnswer with
  | success => simp [settleRefusal, accepts]
  | notModified value =>
      cases hrefusal : ProviderError.isNotModified error
      · simp [settleRefusal, accepts, hrefusal]
      · simp [settleRefusal, accepts, hrefusal, eq_comm]
  | objectGone value =>
      cases hrefusal : ProviderError.isObjectGone error
      · simp [settleRefusal, accepts, hrefusal]
      · simp [settleRefusal, accepts, hrefusal, eq_comm]

/-- A request is answered where it was sent and the provider answered it, or refused it as the
caller asked for. -/
theorem sendRequest_eq_ok {isCancelled : Bool} {run : RequestRun ε α}
    {acceptedAnswer : ExpectedAnswer α} {answer : α} :
    (sendRequest isCancelled run acceptedAnswer).2 = .ok answer ↔
      isCancelled = false ∧ (run = .finished (.ok answer) ∨
        ∃ error, run = .finished (.error error) ∧ accepts acceptedAnswer error answer) := by
  cases isCancelled with
  | true => simp [sendRequest, sendRequestInternal]
  | false =>
      rcases run with _ | _ | (error | value)
      · simp [sendRequest, sendRequestInternal]
      · simp [sendRequest, sendRequestInternal]
      · simp [sendRequest, sendRequestInternal, settleRefusal_eq_ok]
      · simp [sendRequest, sendRequestInternal]

end Wire

/-! ## Failures of the first provider -/

/-- What its client fails with. -/
inductive SdkError where
  | serviceError (status : Nat) (text : String)
  | timeoutError (text : String)
  | dispatchFailure (text : String)
  | other (text : String)
deriving DecidableEq

/-- What one of its requests failed with. -/
inductive S3Failure where
  | refused (error : SdkError)
  | unread (text : String)
  | unusable (error : StorageError)
deriving DecidableEq

def mapS3Error : SdkError → StorageError
  | .serviceError status text =>
      match classifyHttpStatus status s!"S3 SDK error: {text}" with
      | .failed error => error
      | .notModified => .other s!"conditional read answer reached error mapping: {text}"
  | .timeoutError _ => .timeout
  | .dispatchFailure _ => .serviceUnavailable
  | .other text => .backend s!"S3 SDK error: {text}"

def isNotModifiedAnswer : SdkError → Bool
  | .serviceError status _ => classifyHttpStatus status "" = .notModified
  | _ => false

instance : ProviderError S3Failure where
  intoStorageError
    | .refused error => mapS3Error error
    | .unread text => .backend s!"Failed to read job body: {text}"
    | .unusable error => error
  recordedStatus
    | .refused (.serviceError status _) => .answered status
    | .refused _ => .failed
    | .unread _ => .failed
    | .unusable _ => .failed
  isNotModified
    | .refused error => isNotModifiedAnswer error
    | _ => false
  isObjectGone _ := false

/-! ## Failures of the second provider -/

/-- What its client fails with. -/
inductive AzureErrorKind where
  | httpResponse (status : Nat) (errorCode : Option String)
  | connection
  | io
  | credential
  | dataConversion
  | other
deriving DecidableEq

/-- A failure and its text. -/
structure AzureError where
  kind : AzureErrorKind
  text : String
deriving DecidableEq

/-- Whether the code of a conflict names a creation somebody else reached first. -/
def isLostCreationRace (errorCode : Option String) : Bool :=
  errorCode.all fun code => code = "BlobAlreadyExists" || code = "ContainerAlreadyExists"

/-- Whether the code of a refused condition names the condition as what was refused. -/
def isRefusedCondition (errorCode : Option String) : Bool :=
  errorCode.all fun code => code = "ConditionNotMet"

def mapAzureError (err : AzureError) : StorageError :=
  match err.kind with
  | .httpResponse status errorCode =>
      if status = 409 ∧ isLostCreationRace errorCode = true then
        .concurrentModification s!"Azure storage error: {err.text}"
      else if status = 412 ∧ ¬isRefusedCondition errorCode = true then
        .backend s!"Azure storage error: {err.text}"
      else
        match classifyHttpStatus status s!"Azure storage error: {err.text}" with
        | .failed error => error
        | .notModified => .other s!"conditional read answer reached error mapping: {err.text}"
  | .connection => .serviceUnavailable
  | .io => .serviceUnavailable
  | .credential => .auth s!"Azure storage error: {err.text}"
  | .dataConversion => .backend s!"Azure storage error: {err.text}"
  | .other => .backend s!"Azure storage error: {err.text}"

instance : ProviderError AzureError where
  intoStorageError := mapAzureError
  recordedStatus err :=
    match err.kind with
    | .httpResponse status _ => .answered status
    | _ => .failed
  isNotModified err :=
    match err.kind with
    | .httpResponse status _ => classifyHttpStatus status "" = .notModified
    | _ => false
  isObjectGone err :=
    match err.kind with
    | .httpResponse status errorCode =>
        status = 404 && errorCode.all fun code => code = "BlobNotFound"
    | _ => false

/-! ## Failures of the third provider -/

/-- What kept a request from being answered. -/
inductive GcsRequestError where
  | unauthorized (details : String) (isTransient : Bool)
  | transport (isTimeout isBuilder : Bool) (text : String)
deriving DecidableEq

/-- What one of its requests failed with. -/
inductive GcsFailure where
  | unanswered (error : GcsRequestError)
  | refused (status : Nat) (details : String)
  | unusable (error : StorageError)
deriving DecidableEq

def isSuccessful (status : Nat) : Bool := 200 ≤ status && status < 300

def isNotModifiedStatus (status : Nat) : Bool := classifyHttpStatus status "" = .notModified

def isAbsentStatus (status : Nat) : Bool := classifyHttpStatus status "" = .failed (.notFound "")

/-- Whether somebody created the bucket first. -/
def isLostBucketRace (status : Nat) : Bool := status = 409

def mapResponseStatus (status : Nat) (details : String) : StorageError :=
  match classifyHttpStatus status details with
  | .failed error => error
  | .notModified =>
      .other s!"conditional read answer reached error mapping under status {status}"

def mapRequestError : GcsRequestError → StorageError
  | .unauthorized _ true => .serviceUnavailable
  | .unauthorized details false => .auth details
  | .transport isTimeout isBuilder text =>
      if isTimeout then .timeout
      else if isBuilder then .backend s!"gcs request could not be built: {text}"
      else .serviceUnavailable

instance : ProviderError GcsFailure where
  intoStorageError
    | .unanswered error => mapRequestError error
    | .refused status details => mapResponseStatus status details
    | .unusable error => error
  recordedStatus
    | .unanswered (.unauthorized _ _) => .notSent
    | .refused status _ => .answered status
    | .unanswered (.transport _ _ _) => .failed
    | .unusable _ => .failed
  isNotModified
    | .refused status _ => isNotModifiedStatus status
    | _ => false
  isObjectGone
    | .refused status _ => isAbsentStatus status
    | _ => false

end JobManager
