import JobManager.Storage.ObjectStorage

/-!
# Saves over unreliable requests

A save repeats its request where the store could not be reached, and the store may have
carried out a request whose answer was lost.  Others write to the store in between.  What a
repetition is conditioned on does not change, so a request that was carried out once makes
every later one of the same save fail.

Main results:

- Theorem {lit}`ObjectStorage.saveJobWith_answered`: over requests that are all answered a
  save is one conditional write.
- Theorem {lit}`ObjectStorage.save_takes_effect_once`: however requests fail and others
  interfere, a save takes effect once at most, and it does where it answers with a version.
-/

namespace JobManager

/-- A write touches its own key only. -/
theorem ObjectStore.putObject_of_ne {key key' token : String} {body : StoredJob}
    {condition : PutCondition} {store : ObjectStore} (h : key' ≠ key) :
    (ObjectStore.putObject key body condition token store).2.objects key' =
      store.objects key' := by
  rw [putObject]
  split
  · simp only [Function.update_of_ne h]
  · rfl

/-! ## What others do to the store -/

/-- What others do to the store while a save waits. -/
inductive StoreEvent where
  | put (key : String) (body : StoredJob) (condition : PutCondition) (token : String)
  | delete (key : String)

namespace StoreEvent

def apply (store : ObjectStore) : StoreEvent → ObjectStore
  | .put key body condition token => (ObjectStore.putObject key body condition token store).2
  | .delete key => store.deleteObject key

/-- Whether the event may make a broken condition on a key hold again: the version waited for
is issued anew, or the object that was in the way is gone. -/
def mayRestore (key : String) (condition : PutCondition) : StoreEvent → Bool
  | .put key' _ _ token => key' = key && condition = .matchVersion token
  | .delete key' => key' = key && condition = .createOnly

end StoreEvent

/-! ## Requests -/

/-- What a request may fail with on the way: not with the refusal of its condition, which is an
answer, and not with what the calls above it report. -/
def StorageError.failsRequest : StorageError → Bool
  | .concurrentModification _ => false
  | .cancelled => false
  | .attemptsSpent _ => false
  | _ => true

/-- How a request ended for the caller: with the store's answer, with a failure on the way, or
with a cancellation.  In the last two the store may have carried it out. -/
inductive RequestEnd where
  | answered
  | failed (cause : { e : StorageError // e.failsRequest = true }) (isApplied : Bool)
  | cancelled (isApplied : Bool)

/-- One request of a save: what others did before it reached the store, the version the store
has for it, and how it ended. -/
structure PutRequest where
  events : List StoreEvent
  token : String
  ending : RequestEnd

namespace PutRequest

/-- Whether the store carried the request out. -/
def isApplied (r : PutRequest) : Bool :=
  match r.ending with
  | .answered => true
  | .failed _ isApplied => isApplied
  | .cancelled isApplied => isApplied

/-- The store the request meets. -/
def arrival (r : PutRequest) (store : ObjectStore) : ObjectStore :=
  r.events.foldl StoreEvent.apply store

end PutRequest

/-- A save on its way: the store, the versions its own requests were stored under, and the
number of requests. -/
structure PutCall where
  store : ObjectStore
  taken : List String
  requests : Nat

/-- A failed attempt, repeated where the failure may pass. -/
def StorageError.repeatStep (e : StorageError) :
    Except StorageError (Retry.Step StorageError String) :=
  if e.isRetryable then .ok (.retry e) else .error e

namespace PutRequest

/-- What the store makes of a request. -/
def put (key : String) (body : StoredJob) (condition : PutCondition) (r : PutRequest)
    (c : PutCall) : Except StorageError String × ObjectStore :=
  ObjectStore.putObject key body condition r.token (r.arrival c.store)

/-- What a request leaves. -/
def settle (key : String) (body : StoredJob) (condition : PutCondition) (r : PutRequest)
    (c : PutCall) : PutCall :=
  let isTaken := r.isApplied && condition.isMetBy ((r.arrival c.store).objects key)
  { store := if r.isApplied then (r.put key body condition c).2 else r.arrival c.store
    taken := if isTaken then r.token :: c.taken else c.taken
    requests := c.requests + 1 }

/-- What the caller makes of how a request ended. -/
def answer (key : String) (body : StoredJob) (condition : PutCondition) (r : PutRequest)
    (c : PutCall) : Except StorageError (Retry.Step StorageError String) :=
  match r.ending with
  | .answered =>
      match (r.put key body condition c).1 with
      | .ok storedVersion => .ok (.done storedVersion)
      | .error e => e.repeatStep
  | .failed cause _ => cause.val.repeatStep
  | .cancelled _ => .error .cancelled

end PutRequest

/-- One request of a save. -/
def attemptPut (key : String) (body : StoredJob) (condition : PutCondition) (r : PutRequest) :
    Mutation PutCall StorageError (Retry.Step StorageError String) := fun c =>
  (r.answer key body condition c, r.settle key body condition c)

namespace ObjectStorage

/-- How the retry loop of the storage reports its own ends. -/
def retryReports : Retry.Reports StorageError := ⟨.cancelled, .attemptsSpent⟩

/-- Save a job over the given requests; a cancellation may come before the first or in a pause
between two. -/
def saveJobWith (paths : JobPaths) (maxAttempts : Nat) (isCancelled : Bool)
    (isPauseCancelled : Nat → Bool) (request : Nat → PutRequest) (job : Job) :
    Mutation PutCall StorageError Job :=
  if isCancelled then .refuse .cancelled
  else do
    let storedVersion ← Retry.retry retryReports maxAttempts isPauseCancelled fun attempt =>
      attemptPut (paths.buildJobIterationPath job.code job.iterNum) (StoredJob.fromJob job)
        (putCondition job) (request attempt)
    return job.updateVersion storedVersion

end ObjectStorage

/-! ## A broken condition stays broken -/

section Broken

variable {key : String} {condition : PutCondition} {store : ObjectStore}

/-- What another one does to the store does not mend the condition, unless it may restore it. -/
theorem StoreEvent.apply_broken {event : StoreEvent}
    (hevent : event.mayRestore key condition = false)
    (hbroken : condition.isMetBy (store.objects key) = false) :
    condition.isMetBy ((event.apply store).objects key) = false := by
  cases event with
  | put key' body condition' token =>
      simp only [apply]
      by_cases hkey : key = key'
      · subst hkey
        rw [ObjectStore.putObject]
        split
        · simp only [Function.update_self]
          cases condition with
          | createOnly => rfl
          | matchVersion version =>
              simpa [PutCondition.isMetBy, mayRestore, eq_comm] using hevent
        · exact hbroken
      · rw [ObjectStore.putObject_of_ne hkey]
        exact hbroken
  | delete key' =>
      simp only [apply]
      by_cases hkey : key = key'
      · subst hkey
        rw [ObjectStore.objects_deleteObject_self]
        cases condition with
        | createOnly => simp [mayRestore] at hevent
        | matchVersion version => rfl
      · rw [ObjectStore.objects_deleteObject_of_ne store hkey]
        exact hbroken

theorem PutRequest.arrival_broken {r : PutRequest}
    (hevents : ∀ event ∈ r.events, event.mayRestore key condition = false)
    (hbroken : condition.isMetBy (store.objects key) = false) :
    condition.isMetBy ((r.arrival store).objects key) = false := by
  rw [arrival]
  revert hevents
  generalize r.events = events
  intro hevents
  induction events generalizing store with
  | nil => exact hbroken
  | cons event events ih =>
      rw [List.foldl_cons]
      exact ih (StoreEvent.apply_broken (hevents event List.mem_cons_self) hbroken)
        fun event' hmem => hevents event' (List.mem_cons_of_mem _ hmem)

end Broken

/-! ## A save takes effect once -/

section Once

variable {key : String} {body : StoredJob} {condition : PutCondition} {r : PutRequest}

namespace PutRequest

/-- A request that meets its condition. -/
theorem put_of_met {c : PutCall}
    (h : condition.isMetBy ((r.arrival c.store).objects key) = true) :
    (r.put key body condition c).1 = .ok r.token ∧
      (r.put key body condition c).2.objects key = some ⟨r.token, body⟩ := by
  rw [put, ObjectStore.putObject, if_pos h]
  exact ⟨rfl, Function.update_self ..⟩

/-- A request that does not. -/
theorem put_of_broken {c : PutCall}
    (h : condition.isMetBy ((r.arrival c.store).objects key) = false) :
    r.put key body condition c =
      (.error (.concurrentModification (r.arrival c.store).details), r.arrival c.store) := by
  rw [put, ObjectStore.putObject, if_neg (by simp [h])]

/-- A request leaves the store as it met it, or the body under the version the store had for
it. -/
theorem settle_cases (c : PutCall) :
    (r.settle key body condition c).taken = c.taken ∧
        (r.settle key body condition c).store = r.arrival c.store ∨
      (r.settle key body condition c).taken = r.token :: c.taken ∧
        condition.isMetBy ((r.arrival c.store).objects key) = true ∧
        (r.settle key body condition c).store.objects key = some ⟨r.token, body⟩ := by
  simp only [settle]
  cases happlied : r.isApplied
  · exact Or.inl ⟨rfl, rfl⟩
  · cases hmet : condition.isMetBy ((r.arrival c.store).objects key)
    · rw [put_of_broken hmet]
      exact Or.inl ⟨rfl, rfl⟩
    · exact Or.inr ⟨rfl, rfl, (put_of_met hmet).2⟩

/-- A request touches its own key only. -/
theorem settle_of_ne (c : PutCall) {key' : String} (h : key' ≠ key) :
    (r.settle key body condition c).store.objects key' = (r.arrival c.store).objects key' := by
  simp only [settle]
  split
  · exact ObjectStore.putObject_of_ne h
  · rfl

theorem repeatStep_ne_done (e : StorageError) (version : String) :
    e.repeatStep ≠ .ok (.done version) := by
  rw [StorageError.repeatStep]
  split <;> simp

/-- An answer with a version is the store's own. -/
theorem answer_eq_done {c : PutCall} {version : String}
    (h : r.answer key body condition c = .ok (.done version)) :
    version = r.token ∧ (r.settle key body condition c).taken = r.token :: c.taken ∧
      (r.settle key body condition c).store.objects key = some ⟨r.token, body⟩ := by
  cases hending : r.ending with
  | answered =>
      simp only [answer, hending] at h
      have happlied : r.isApplied = true := by rw [isApplied, hending]
      cases hmet : condition.isMetBy ((r.arrival c.store).objects key)
      · rw [put_of_broken hmet] at h
        exact absurd h (repeatStep_ne_done _ _)
      · rw [(put_of_met hmet).1] at h
        cases h
        refine ⟨rfl, ?_⟩
        simp only [settle, happlied, hmet]
        exact ⟨rfl, (put_of_met hmet).2⟩
  | failed cause _ =>
      simp only [answer, hending] at h
      exact absurd h (repeatStep_ne_done _ _)
  | cancelled _ =>
      simp only [answer, hending] at h
      cases h

/-- What is repeated may pass, and what is not is the failure itself. -/
theorem repeatStep_eq {e e' : StorageError} :
    (e.repeatStep = .ok (.retry e') → e' = e ∧ e.isRetryable = true) ∧
      (e.repeatStep = .error e' → e' = e) := by
  rw [StorageError.repeatStep]
  split <;> rename_i hretryable
  · refine ⟨?_, ?_⟩
    · intro h
      cases h
      exact ⟨rfl, hretryable⟩
    · intro h
      cases h
  · refine ⟨?_, ?_⟩
    · intro h
      cases h
    · intro h
      cases h
      rfl

theorem answer_eq_retry {c : PutCall} {cause : StorageError}
    (h : r.answer key body condition c = .ok (.retry cause)) : cause.isRetryable = true := by
  cases hending : r.ending with
  | answered =>
      simp only [answer, hending] at h
      split at h
      · cases h
      · obtain ⟨rfl, hretryable⟩ := repeatStep_eq.1 h
        exact hretryable
  | failed e _ =>
      simp only [answer, hending] at h
      obtain ⟨rfl, hretryable⟩ := repeatStep_eq.1 h
      exact hretryable
  | cancelled _ =>
      simp only [answer, hending] at h
      cases h

/-- A failed attempt that is not repeated failed on the way, was cancelled, or met a broken
condition. -/
theorem answer_eq_error {c : PutCall} {e : StorageError}
    (h : r.answer key body condition c = .error e) :
    e.failsRequest = true ∨ e = .cancelled ∨
      e.isConflict = true ∧
        condition.isMetBy ((r.settle key body condition c).store.objects key) = false := by
  cases hending : r.ending with
  | answered =>
      simp only [answer, hending] at h
      have happlied : r.isApplied = true := by rw [isApplied, hending]
      cases hmet : condition.isMetBy ((r.arrival c.store).objects key)
      · rw [put_of_broken hmet] at h
        obtain rfl := repeatStep_eq.2 h
        refine Or.inr (Or.inr ⟨rfl, ?_⟩)
        simp only [settle, happlied, put_of_broken hmet]
        exact hmet
      · rw [(put_of_met hmet).1] at h
        cases h
  | failed cause _ =>
      simp only [answer, hending] at h
      obtain rfl := repeatStep_eq.2 h
      exact Or.inl cause.property
  | cancelled _ =>
      simp only [answer, hending] at h
      cases h
      exact Or.inr (Or.inl rfl)

end PutRequest

end Once

/-! ## What others do is left alone -/

/-- The store after the first requests, had they never been made. -/
def othersAlone (request : Nat → PutRequest) (store : ObjectStore) : Nat → ObjectStore
  | 0 => store
  | n + 1 => (request n).arrival (othersAlone request store n)

/-- Two stores hold the same under every other key. -/
def AgreeOff (key : String) (store store' : ObjectStore) : Prop :=
  ∀ key' ≠ key, store.objects key' = store'.objects key'

section Frame

variable {key : String} {store store' : ObjectStore}

/-- What happens to a key depends on nothing but the key. -/
theorem AgreeOff.apply (h : AgreeOff key store store') (event : StoreEvent) :
    AgreeOff key (event.apply store) (event.apply store') := by
  intro key' hkey
  cases event with
  | put written body condition token =>
      simp only [StoreEvent.apply]
      by_cases hwritten : key' = written
      · subst hwritten
        rw [ObjectStore.putObject, ObjectStore.putObject, h key' hkey]
        split
        · simp only [Function.update_self]
        · exact h key' hkey
      · rw [ObjectStore.putObject_of_ne hwritten, ObjectStore.putObject_of_ne hwritten]
        exact h key' hkey
  | delete deleted =>
      simp only [StoreEvent.apply]
      by_cases hdeleted : key' = deleted
      · subst hdeleted
        rw [ObjectStore.objects_deleteObject_self, ObjectStore.objects_deleteObject_self]
      · rw [ObjectStore.objects_deleteObject_of_ne _ hdeleted,
          ObjectStore.objects_deleteObject_of_ne _ hdeleted]
        exact h key' hkey

theorem AgreeOff.arrival (h : AgreeOff key store store') (r : PutRequest) :
    AgreeOff key (r.arrival store) (r.arrival store') := by
  rw [PutRequest.arrival, PutRequest.arrival]
  generalize r.events = events
  induction events generalizing store store' with
  | nil => exact h
  | cons event events ih => exact ih (h.apply event)

end Frame

/-- What holds of a save after any number of its requests: it took effect once at most, its
condition is broken from then on, and everything else in the store is what others did. -/
structure TakesOnce (key : String) (condition : PutCondition) (request : Nat → PutRequest)
    (store : ObjectStore) (c : PutCall) : Prop where
  once : c.taken.length ≤ 1
  broken : c.taken ≠ [] → condition.isMetBy (c.store.objects key) = false
  frame : AgreeOff key c.store (othersAlone request store c.requests)
  untouched : c.taken = [] → c.store = othersAlone request store c.requests

section Steps

variable {key : String} {body : StoredJob} {condition : PutCondition}
  {request : Nat → PutRequest} {store : ObjectStore} {c : PutCall}

theorem TakesOnce.begin (key : String) (condition : PutCondition) (request : Nat → PutRequest)
    (store : ObjectStore) : TakesOnce key condition request store ⟨store, [], 0⟩ :=
  ⟨by simp, by simp, fun _ _ => rfl, fun _ => rfl⟩

/-- The body just stored breaks the condition it was stored under. -/
theorem broken_of_stored {token : String} (htoken : condition ≠ .matchVersion token) :
    condition.isMetBy (some ⟨token, body⟩) = false := by
  cases condition with
  | createOnly => rfl
  | matchVersion version =>
      have hne : token ≠ version := by
        rintro rfl
        exact htoken rfl
      simpa [PutCondition.isMetBy] using hne

/-- One more request keeps that. -/
theorem TakesOnce.settle (h : TakesOnce key condition request store c)
    (hevents : ∀ event ∈ (request c.requests).events, event.mayRestore key condition = false)
    (htoken : condition ≠ .matchVersion (request c.requests).token) :
    TakesOnce key condition request store ((request c.requests).settle key body condition c) := by
  have hbroken : c.taken ≠ [] →
      condition.isMetBy (((request c.requests).arrival c.store).objects key) = false :=
    fun htaken => PutRequest.arrival_broken hevents (h.broken htaken)
  have hframe : AgreeOff key ((request c.requests).arrival c.store)
      (othersAlone request store (c.requests + 1)) := h.frame.arrival _
  have hrequests : ((request c.requests).settle key body condition c).requests =
      c.requests + 1 := rfl
  rcases @PutRequest.settle_cases key body condition (request c.requests) c
    with ⟨htaken, hstore⟩ | ⟨htaken, hmet, hstored⟩
  · refine ⟨htaken ▸ h.once, ?_, ?_, ?_⟩
    · rw [htaken, hstore]
      exact hbroken
    · rw [hstore, hrequests]
      exact hframe
    · rw [htaken, hstore, hrequests]
      intro hnil
      rw [h.untouched hnil]
      rfl
  · -- the condition was met, so no earlier request was carried out
    have hnil : c.taken = [] := by
      by_contra htaken
      rw [hbroken htaken] at hmet
      cases hmet
    refine ⟨by simp [htaken, hnil], ?_, ?_, by simp [htaken]⟩
    · intro _
      rw [hstored]
      exact broken_of_stored htoken
    · rw [hrequests]
      intro key' hkey
      rw [← hframe key' hkey]
      exact PutRequest.settle_of_ne c hkey

end Steps

namespace ObjectStorage

section Save

variable {paths : JobPaths} {maxAttempts : Nat} {isPauseCancelled : Nat → Bool}
  {request : Nat → PutRequest} {store : ObjectStore} {job : Job}

/-- What the loop of a save ends with. -/
structure SaveEnds (key : String) (body : StoredJob) (condition : PutCondition)
    (request : Nat → PutRequest) (store : ObjectStore) (budget : Nat)
    (result : Except StorageError String) (c : PutCall) : Prop where
  takesOnce : TakesOnce key condition request store c
  requests : c.requests ≤ budget
  ok : ∀ version, result = .ok version →
    c.taken = [version] ∧ c.store.objects key = some ⟨version, body⟩
  conflict : ∀ e, result = .error e → e.isConflict = true →
    condition.isMetBy (c.store.objects key) = false
  spent : ∀ cause, result = .error (.attemptsSpent cause) → cause.isRetryable = true

/-- Every request keeps what holds of the save, and answers for how the loop ends after it. -/
theorem attemptPut_keeps {key : String} {body : StoredJob} {condition : PutCondition}
    {budget : Nat}
    (hevents : ∀ attempt, ∀ event ∈ (request attempt).events,
      event.mayRestore key condition = false)
    (htokens : ∀ attempt, condition ≠ .matchVersion (request attempt).token) :
    Retry.Keeps retryReports budget isPauseCancelled
      (fun attempt => attemptPut key body condition (request attempt))
      (fun attempt c => c.requests = attempt ∧ TakesOnce key condition request store c)
      (SaveEnds key body condition request store budget) := by
  have hsettled : ∀ c, TakesOnce key condition request store c →
      TakesOnce key condition request store
        ((request c.requests).settle key body condition c) :=
    fun c hc => hc.settle (hevents _) (htokens _)
  refine ⟨?_, ?_, ?_⟩
  · rintro attempt c e c' hattempt ⟨rfl, hc⟩ hput
    obtain ⟨hanswer, rfl⟩ := Prod.mk.inj hput
    refine ⟨hsettled c hc, hattempt, by simp, ?_, ?_⟩
    · rintro e' ⟨⟩ hconflict
      rcases PutRequest.answer_eq_error hanswer with hfails | rfl | ⟨-, hbroken⟩
      · cases e <;> cases hconflict
        cases hfails
      · cases hconflict
      · exact hbroken
    · rintro cause ⟨⟩
      rcases PutRequest.answer_eq_error hanswer with hfails | hcancelled | ⟨hconflict, -⟩
      · cases hfails
      · cases hcancelled
      · cases hconflict
  · rintro attempt c version c' hattempt ⟨rfl, hc⟩ hput
    obtain ⟨hanswer, rfl⟩ := Prod.mk.inj hput
    obtain ⟨rfl, htaken, hstored⟩ := PutRequest.answer_eq_done hanswer
    refine ⟨hsettled c hc, hattempt, ?_, by simp, by simp⟩
    rintro version ⟨⟩
    have hnil : c.taken = [] := by
      have honce := (hsettled c hc).once
      rw [htaken] at honce
      simpa using honce
    exact ⟨by rw [htaken, hnil], hstored⟩
  · rintro attempt c cause c' hattempt ⟨rfl, hc⟩ hput
    obtain ⟨hanswer, rfl⟩ := Prod.mk.inj hput
    refine ⟨⟨rfl, hsettled c hc⟩, ⟨hsettled c hc, hattempt, by simp [retryReports], ?_, ?_⟩,
      fun _ => ⟨hsettled c hc, hattempt, by simp [retryReports], ?_, by simp [retryReports]⟩⟩
    · rintro e ⟨⟩ hconflict
      cases hconflict
    · rintro cause' ⟨⟩
      exact PutRequest.answer_eq_retry hanswer
    · rintro e ⟨⟩ hconflict
      cases hconflict

/-- Where no version the job was loaded under is issued anew and nobody deletes a first version
that is being created, a save takes effect once at most, however its requests fail, are
repeated or cut off and whatever others do in between.  It answers with the job under the
version it took effect under, which the store then holds; it answers with a conflict only where
the store no longer holds what the save was conditioned on; and everything else in the store is
what others did. -/
theorem save_takes_effect_once
    (hevents : ∀ attempt, ∀ event ∈ (request attempt).events,
      event.mayRestore (paths.buildJobIterationPath job.code job.iterNum) (putCondition job) =
        false)
    (htokens : ∀ attempt, (request attempt).token ≠ job.version) :
    ∃ result c, saveJobWith paths maxAttempts false isPauseCancelled request job ⟨store, [], 0⟩ =
        (result, c) ∧
      c.taken.length ≤ 1 ∧ c.requests ≤ max 1 maxAttempts ∧
      (∀ job', result = .ok job' → ∃ version, job' = job.updateVersion version ∧
        c.taken = [version] ∧
        c.store.objects (paths.buildJobIterationPath job.code job.iterNum) =
          some ⟨version, StoredJob.fromJob job⟩) ∧
      (∀ e, result = .error e → e.isConflict = true →
        (putCondition job).isMetBy
          (c.store.objects (paths.buildJobIterationPath job.code job.iterNum)) = false) ∧
      (c.taken = [] → c.store = othersAlone request store c.requests) ∧
      ∀ key ≠ paths.buildJobIterationPath job.code job.iterNum,
        c.store.objects key = (othersAlone request store c.requests).objects key := by
  have hcondition : ∀ attempt, putCondition job ≠ .matchVersion (request attempt).token := by
    intro attempt heq
    rw [putCondition] at heq
    split at heq
    · cases heq
    · exact htokens attempt (PutCondition.matchVersion.inj heq).symm
  rcases hloop : Retry.retry retryReports maxAttempts isPauseCancelled (fun attempt =>
    attemptPut (paths.buildJobIterationPath job.code job.iterNum) (StoredJob.fromJob job)
      (putCondition job) (request attempt)) ⟨store, [], 0⟩ with ⟨result, c⟩
  have hends : SaveEnds (paths.buildJobIterationPath job.code job.iterNum) (StoredJob.fromJob job)
      (putCondition job) request store (max 1 maxAttempts) result c := by
    have hkeeps : Retry.Keeps retryReports (max 1 maxAttempts) isPauseCancelled _ _
        (SaveEnds _ (StoredJob.fromJob job) _ request store _) :=
      attemptPut_keeps hevents hcondition
    have hrule := Retry.retry_rule hkeeps ⟨rfl, .begin _ _ _ store⟩
    rw [hloop] at hrule
    exact hrule
  have hsave : saveJobWith paths maxAttempts false isPauseCancelled request job ⟨store, [], 0⟩ =
      (result.map job.updateVersion, c) := by
    rw [saveJobWith, if_neg (by simp), Mutation.bind_apply, hloop]
    cases result <;> rfl
  refine ⟨_, c, hsave, hends.takesOnce.once, hends.requests, ?_, ?_, hends.takesOnce.untouched,
    hends.takesOnce.frame⟩
  · intro job' hok
    cases result with
    | error e => cases hok
    | ok version =>
        cases hok
        obtain ⟨htaken, hstored⟩ := hends.ok version rfl
        exact ⟨version, rfl, htaken, hstored⟩
  · intro e herror hconflict
    cases result with
    | ok version => cases herror
    | error e' =>
        cases herror
        exact hends.conflict e rfl hconflict

/-- Over requests that are all answered and nobody else, a save is one conditional write. -/
theorem saveJobWith_answered (token : String) {taken : List String} {requests : Nat}
    (hrequest : request 0 = ⟨[], token, .answered⟩) :
    saveJobWith paths maxAttempts false isPauseCancelled request job ⟨store, taken, requests⟩ =
      ((saveJob paths token job store).1,
        { store := (saveJob paths token job store).2
          taken := if (saveJob paths token job store).1.isOk then token :: taken else taken
          requests := requests + 1 }) := by
  rw [saveJobWith, if_neg (by simp), Mutation.bind_apply, Retry.retry, Retry.retryFrom, saveJob_eq]
  cases hmet : (putCondition job).isMetBy
      (store.objects (paths.buildJobIterationPath job.code job.iterNum)) <;>
    simp [attemptPut, PutRequest.answer, PutRequest.settle, PutRequest.put, PutRequest.arrival,
      PutRequest.isApplied, ObjectStore.putObject, StorageError.repeatStep,
      StorageError.isRetryable, saved, Except.isOk, Except.toBool, hrequest, hmet]

end Save

/-- A job at its first iteration, loaded under the given version. -/
def loadedJob (version : String) : Job where
  id := 900
  code := "a"
  iterNum := 1
  status := .started
  tasksById := .empty
  updatedByWorkerId := 101
  startedAt := 0
  runningAt := none
  completedAt := none
  nextStartAt := none
  metadata := []
  version := version
  maxIterations := none
  iterationInterval := none
  taskLimits := .default

/-- The key of that iteration. -/
def loadedKey : String := JobPaths.buildJobIterationPath ⟨"jobs", .json⟩ "a" 1

/-- A store that holds it. -/
def loadedStore : ObjectStore :=
  { ObjectStore.empty "changed" with
    objects := Function.update (fun _ => none) loadedKey
      (some ⟨"v1", StoredJob.fromJob (loadedJob "")⟩) }

/-- The answer to the first request is lost; another one replaces what it stored before the
request is repeated. -/
def lostThenOvertaken : Nat → PutRequest
  | 0 => ⟨[], "v2", .failed ⟨.timeout, rfl⟩ true⟩
  | _ + 1 =>
      ⟨[.put loadedKey (StoredJob.fromJob (loadedJob "")) (.matchVersion "v2") "v3"], "v4",
        .answered⟩

theorem lostThenOvertaken_once :
    ∃ result c, saveJobWith ⟨"jobs", .json⟩ 3 false (fun _ => false) lostThenOvertaken
        (loadedJob "v1") ⟨loadedStore, [], 0⟩ = (result, c) ∧
      result.isOk = false ∧ c.requests = 2 ∧ c.taken = ["v2"] ∧ c.taken.length ≤ 1 := by
  have hevents : ∀ attempt, ∀ event ∈ (lostThenOvertaken attempt).events,
      event.mayRestore loadedKey (.matchVersion "v1") = false := by
    intro attempt event hmem
    cases attempt with
    | zero => cases hmem
    | succ n =>
        rw [List.mem_singleton.mp hmem, StoreEvent.mayRestore]
        simp
  have htokens : ∀ attempt, (lostThenOvertaken attempt).token ≠ "v1" := by
    intro attempt
    cases attempt <;> simp [lostThenOvertaken]
  obtain ⟨result, c, hsave, honce, -⟩ := @save_takes_effect_once ⟨"jobs", .json⟩ 3 (fun _ => false)
    lostThenOvertaken loadedStore (loadedJob "v1") hevents htokens
  have hran : (saveJobWith ⟨"jobs", .json⟩ 3 false (fun _ => false) lostThenOvertaken
      (loadedJob "v1") ⟨loadedStore, [], 0⟩).1.isOk = false ∧
      (saveJobWith ⟨"jobs", .json⟩ 3 false (fun _ => false) lostThenOvertaken
        (loadedJob "v1") ⟨loadedStore, [], 0⟩).2.requests = 2 ∧
      (saveJobWith ⟨"jobs", .json⟩ 3 false (fun _ => false) lostThenOvertaken
        (loadedJob "v1") ⟨loadedStore, [], 0⟩).2.taken = ["v2"] := by
    decide +kernel
  rw [hsave] at hran
  exact ⟨result, c, hsave, hran.1, hran.2.1, hran.2.2, honce⟩

end ObjectStorage

end JobManager
