import JobManager.Execution.Cleaner
import JobManager.Protocol.SaveLoop
import JobManager.Storage.Deletion
import JobManager.Storage.Outdated
import JobManager.Storage.Repeats

/-!
# What a cleanup achieves

The pass over the registered jobs looks up the newest iteration of a job, lists the tail that
fell out of its retention, and deletes it.  Listings are read page by page, deletions are sent
request by request, any request may fail, take effect in part or come back without an answer, and
is repeated where that may help.  Meanwhile others create and delete iterations.

Main definitions:

- {lit}`Incident`: what happens around one request of a cleaner.
- {lit}`JobCleaner.deleteOutdatedIterations`, {lit}`JobCleaner.reconcileRegistryJobs`: the
  cleanup of one job, and the pass.

- {lit}`Sweep.Stable`: what survives every request of a cleaner that deletes no other keys than
  the given ones.
-/

namespace JobManager

/-! ## Requests of a cleaner -/

/-- What happens around one request of a cleaner: what others did before it reached the store,
whether it was cancelled by then, how the provider answers a listing of the store, how it answers
a deletion, and what such a request deletes where the answer does not say that it did all. -/
structure Incident (client : DeleteClient) where
  events : List StoreEvent
  isCancelled : Bool
  lists : ObjectStore → ListingRequest → Except StorageError ListedPage
  answer : client.Answer
  picks : String → Bool

/-- What the store deletes for a request. -/
def Incident.removes {client : DeleteClient} (incident : Incident client)
    (request : client.Request) : List String :=
  if incident.isCancelled then []
  else if client.isDone request incident.answer then client.keys request
  else (client.keys request).filter incident.picks

/-- The store, the requests to come, and the keys the cleaner's own requests deleted. -/
structure Sweep (client : DeleteClient) where
  store : ObjectStore
  incidents : List (Incident client)
  removed : List String

/-- Why a call has no answer: its next request is still under way, or it failed. -/
inductive Stop where
  | waiting
  | failed (error : InternalError)
deriving DecidableEq

def Stop.reports : Retry.Reports Stop where
  fromCancellation := .failed .cancelled
  fromSpentAttempts
    | .waiting => .waiting
    | .failed error => .failed (.maxAttemptsReached error)

/-- What a cleaner is made with, and what its provider declares. -/
structure CleanerSetup where
  paths : JobPaths
  registry : JobRegistry
  maxAttempts : Nat
  provider : DeleteProvider
  listingStartBound : ListingStartBound
  listPageSize : Nat

/-- The calls a cleanup of a job makes. -/
inductive CleanupCall where
  | find
  | list
  | delete

namespace Sweep

variable {client : DeleteClient}

/-- What others did before a request reached the store. -/
def arrive (s : Sweep client) (incident : Incident client)
    (incidents : List (Incident client)) : Sweep client :=
  { s with store := incident.events.foldl StoreEvent.apply s.store, incidents := incidents }

/-- The store deletes objects for the cleaner. -/
def remove (s : Sweep client) (keys : List String) : Sweep client :=
  { s with store := keys.foldl ObjectStore.deleteObject s.store, removed := keys ++ s.removed }

/-- The next request reaches the store. -/
def next : Mutation (Sweep client) Stop (Incident client) := fun s =>
  match s.incidents with
  | [] => (.error .waiting, s)
  | incident :: incidents => (.ok incident, s.arrive incident incidents)

end Sweep

namespace CleanerSetup

/-- The provider a cleaner works with. -/
abbrev client (setup : CleanerSetup) : DeleteClient := setup.provider.client

/-- The provider as it lists the store when a request reaches it. -/
def backend (setup : CleanerSetup) (incident : Incident setup.client) (store : ObjectStore) :
    Backend where
  listingStartBound := setup.listingStartBound
  listPageSize := setup.listPageSize
  listObjects := if incident.isCancelled then fun _ => .error .cancelled else incident.lists store

end CleanerSetup

/-! ## The calls -/

namespace JobCleaner

variable (setup : CleanerSetup)

/-- What a cleaner does with its requests. -/
abbrev CleanerM := Mutation (Sweep setup.client) Stop

/-- Run one storage call under the cleaner's own retry policy. -/
def retryStorageCall {α : Type} (isPauseCancelled : Nat → Bool)
    (call : CleanerM setup (Except StorageError α)) : CleanerM setup α :=
  Retry.retry Stop.reports setup.maxAttempts isPauseCancelled fun _ => do
    match ← call with
    | .ok value => return .done value
    | .error e =>
        if e.isRetryable then return .retry (.failed (.fromStorage e))
        else .refuse (.failed (.fromStorage e))

/-- Look up the newest iteration of a job. -/
def findJobMetaCall (jobCode : String) : CleanerM setup (Except StorageError JobMeta) := do
  let incident ← Sweep.next
  let s ← Mutation.current
  return findJobMeta setup.paths (setup.backend incident s.store) jobCode

/-- Read the pages of a listing to its end; every page is read from the store as it is then. -/
def readPages (retentionBoundary : Nat) :
    Nat → ListingRequest → List Nat → CleanerM setup (Except StorageError (List Nat))
  | 0, _, _ => .refuse .waiting
  | fuel + 1, request, iterNums => do
      let incident ← Sweep.next
      let s ← Mutation.current
      match (setup.backend incident s.store).listObjects request with
      | .error e => return .error e
      | .ok listedPage =>
          let iterNums :=
            iterNums ++ outdatedIterNums setup.paths retentionBoundary listedPage.objects
          match listedPage.nextCursor with
          | none => return .ok iterNums
          | some cursor =>
              readPages retentionBoundary fuel { request with cursor := some cursor } iterNums

/-- List the iterations of a job at or below the boundary. -/
def listOutdatedCall (jobCode : String) (retentionBoundary : Nat) :
    CleanerM setup (Except StorageError (List Nat)) := do
  let bounds : Backend := ⟨setup.listingStartBound, setup.listPageSize, fun _ => .error .cancelled⟩
  match buildListingStartKey setup.paths bounds jobCode retentionBoundary with
  | .error e => return .error e
  | .ok startKey =>
      let s ← Mutation.current
      -- every page costs a request, so there are no more pages than requests to come
      readPages setup retentionBoundary s.incidents.length
        { directory := setup.paths.buildJobPrefix jobCode, startKey := some startKey
          pageSize := setup.listPageSize, cursor := none } []

/-- Send the requests of a deletion, up to the first that fails. -/
def sendDeletes : List setup.client.Request → CleanerM setup (Except StorageError Unit)
  | [] => return .ok ()
  | request :: requests => do
      let incident ← Sweep.next
      Mutation.write fun s => s.remove (incident.removes request)
      match (setup.client.send incident.isCancelled request incident.answer).2 with
      | .error e => return .error e
      | .ok () => sendDeletes requests

/-- Delete the given iterations of a job. -/
def deleteIterationsCall (jobCode : String) (iterNums : List Nat) :
    CleanerM setup (Except StorageError Unit) :=
  if iterNums.isEmpty then return .ok ()
  else
    sendDeletes setup
      (setup.client.requests (iterNums.map (setup.paths.buildJobIterationPath jobCode)))

variable (isPauseCancelled : String → CleanupCall → Nat → Bool)

/-- Delete what is outdated of a job whose newest iteration is known, and count it. -/
def deleteTail (jobCode : String) (jobMeta : JobMeta) : CleanerM setup Nat :=
  match calculateRetentionBoundary setup.registry jobCode jobMeta.iterNum with
  | none => return 0
  | some retentionBoundary => do
      let outdatedIterNums ← retryStorageCall setup (isPauseCancelled jobCode .list)
        (listOutdatedCall setup jobCode retentionBoundary)
      if outdatedIterNums.isEmpty then return 0
      else do
        retryStorageCall setup (isPauseCancelled jobCode .delete)
          (deleteIterationsCall setup jobCode outdatedIterNums)
        return outdatedIterNums.length

/-- Delete the whole outdated tail of a job; a job nobody has created has none. -/
def deleteOutdatedIterations (jobCode : String) : CleanerM setup Nat :=
  fun s =>
    match retryStorageCall setup (isPauseCancelled jobCode .find)
        (findJobMetaCall setup jobCode) s with
    | (.ok jobMeta, s') => deleteTail setup isPauseCancelled jobCode jobMeta s'
    | (.error (.failed (.storage (.notFound _))), s') => (.ok 0, s')
    | (.error e, s') => (.error e, s')

/-- Delete the one iteration that a report pushed past the boundary. -/
def deleteIteration (message : JobIterationStarted) : CleanerM setup Unit :=
  match calculateRetentionBoundary setup.registry message.jobCode message.iterNum with
  | none => return ()
  | some retentionBoundary =>
      retryStorageCall setup (isPauseCancelled message.jobCode .delete)
        (deleteIterationsCall setup message.jobCode [retentionBoundary])

/-- One pass over the given jobs: what it reports of each, up to the one it waits for or is
cancelled in. -/
def reconcileRegistryJobs :
    List String → Sweep setup.client → List (String × Except InternalError Nat) × Sweep setup.client
  | [], s => ([], s)
  | jobCode :: jobCodes, s =>
      match deleteOutdatedIterations setup isPauseCancelled jobCode s with
      | (.error .waiting, s') => ([], s')
      | (.error (.failed e), s') =>
          if e = .cancelled then ([(jobCode, .error e)], s')
          else
            let (reports, s'') := reconcileRegistryJobs jobCodes s'
            ((jobCode, .error e) :: reports, s'')
      | (.ok deletedCount, s') =>
          let (reports, s'') := reconcileRegistryJobs jobCodes s'
          ((jobCode, .ok deletedCount) :: reports, s'')

end JobCleaner

/-! ## What others do -/

namespace StoreEvent

def isPutOf (key : String) : StoreEvent → Bool
  | .put key' _ _ _ => key' = key
  | .delete _ => false

def isDeleteOf (key : String) : StoreEvent → Bool
  | .put _ _ _ _ => false
  | .delete key' => key' = key

/-- An object is there after an event only where it was there before or the event wrote it. -/
theorem isSome_of_apply {event : StoreEvent} {store : ObjectStore} {key : String}
    (h : ((event.apply store).objects key).isSome) :
    (store.objects key).isSome ∨ event.isPutOf key = true := by
  cases event with
  | put key' body condition token =>
      by_cases hkey : key' = key
      · exact Or.inr (decide_eq_true hkey)
      · rw [apply, ObjectStore.putObject_of_ne (Ne.symm hkey)] at h
        exact Or.inl h
  | delete key' =>
      by_cases hkey : key = key'
      · subst hkey
        rw [apply, ObjectStore.objects_deleteObject_self] at h
        cases h
      · rw [apply, ObjectStore.objects_deleteObject_of_ne store hkey] at h
        exact Or.inl h

/-- An object is only lost to an event that deletes it. -/
theorem isSome_apply {event : StoreEvent} {store : ObjectStore} {key : String}
    (hevent : event.isDeleteOf key = false) (h : (store.objects key).isSome) :
    ((event.apply store).objects key).isSome := by
  cases event with
  | put key' body condition token =>
      rw [apply, ObjectStore.putObject]
      split
      · by_cases hkey : key = key'
        · subst hkey
          simp
        · simpa only [Function.update_of_ne hkey] using h
      · exact h
  | delete key' =>
      have hkey : key ≠ key' := fun heq => of_decide_eq_false hevent heq.symm
      rwa [apply, ObjectStore.objects_deleteObject_of_ne store hkey]

end StoreEvent

/-- Deleting several keys takes exactly these objects away. -/
theorem objects_foldl_deleteObject (keys : List String) (store : ObjectStore) (key : String) :
    (keys.foldl ObjectStore.deleteObject store).objects key =
      if key ∈ keys then none else store.objects key := by
  induction keys generalizing store with
  | nil => rfl
  | cons first keys ih =>
      rw [List.foldl_cons, ih]
      by_cases hkey : key = first
      · subst hkey
        simp
      · rw [ObjectStore.objects_deleteObject_of_ne store hkey]
        simp [hkey]

/-! ## What requests keep -/

namespace Sweep

variable {client : DeleteClient}

/-- Nobody else writes the object while requests are to come. -/
def NotWritten (key : String) (s : Sweep client) : Prop :=
  ∀ incident ∈ s.incidents, ∀ event ∈ incident.events, event.isPutOf key = false

/-- Nobody else deletes the object while requests are to come. -/
def NotDeleted (key : String) (s : Sweep client) : Prop :=
  ∀ incident ∈ s.incidents, ∀ event ∈ incident.events, event.isDeleteOf key = false

/-- The object is gone for good. -/
def Gone (key : String) (s : Sweep client) : Prop :=
  s.store.objects key = none ∧ NotWritten key s

/-- The object is there and others leave it alone. -/
def Kept (key : String) (s : Sweep client) : Prop :=
  (s.store.objects key).isSome ∧ NotDeleted key s

/-- What survives every request that deletes no other keys than the given ones. -/
structure Stable (R : String → Prop) (I : Sweep client → Prop) : Prop where
  arrive : ∀ {s incident incidents}, s.incidents = incident :: incidents → I s →
    I (s.arrive incident incidents)
  remove : ∀ {s keys}, (∀ key ∈ keys, R key) → I s → I (s.remove keys)

variable {R : String → Prop} {I J : Sweep client → Prop} {key : String}

theorem Stable.and (hI : Stable R I) (hJ : Stable R J) : Stable R fun s => I s ∧ J s where
  arrive hs h := ⟨hI.arrive hs h.1, hJ.arrive hs h.2⟩
  remove hkeys h := ⟨hI.remove hkeys h.1, hJ.remove hkeys h.2⟩

/-- The incident a request meets was still to come. -/
theorem mem_of_head {s : Sweep client} {incident : Incident client}
    {incidents : List (Incident client)} (hs : s.incidents = incident :: incidents) :
    incident ∈ s.incidents :=
  hs ▸ List.mem_cons_self

/-- And so was every later one. -/
theorem mem_of_tail {s : Sweep client} {incident incident' : Incident client}
    {incidents : List (Incident client)} (hs : s.incidents = incident :: incidents)
    (h : incident' ∈ incidents) : incident' ∈ s.incidents :=
  hs ▸ List.mem_cons_of_mem _ h

/-- What is stored when a request arrives was stored before, or somebody wrote it meanwhile. -/
theorem isSome_of_arrive {s : Sweep client} {incident : Incident client}
    {incidents : List (Incident client)}
    (h : ((s.arrive incident incidents).store.objects key).isSome) :
    (s.store.objects key).isSome ∨ ∃ event ∈ incident.events, event.isPutOf key = true := by
  revert h
  refine List.foldlRecOn incident.events StoreEvent.apply (motive := fun store =>
    (store.objects key).isSome → (s.store.objects key).isSome ∨
      ∃ event ∈ incident.events, event.isPutOf key = true) Or.inl ?_
  intro store ih event hevent h
  rcases StoreEvent.isSome_of_apply h with hbefore | hput
  · exact ih hbefore
  · exact Or.inr ⟨event, hevent, hput⟩

/-- A key nobody will write stays one. -/
theorem stable_notWritten : Stable R (NotWritten key : Sweep client → Prop) where
  arrive hs h incident' hmem := h incident' (mem_of_tail hs hmem)
  remove _ h := h

/-- And so does a key nobody else will delete. -/
theorem stable_notDeleted : Stable R (NotDeleted key : Sweep client → Prop) where
  arrive hs h incident' hmem := h incident' (mem_of_tail hs hmem)
  remove _ h := h

/-- What is gone and not written again stays gone. -/
theorem stable_gone : Stable R (Gone key : Sweep client → Prop) where
  arrive hs h := by
    refine ⟨?_, stable_notWritten.arrive (R := R) hs h.2⟩
    by_contra hthere
    rcases isSome_of_arrive (Option.isSome_iff_ne_none.mpr hthere) with
      hbefore | ⟨event, hmem, hput⟩
    · rw [h.1] at hbefore
      cases hbefore
    · rw [h.2 _ (mem_of_head hs) event hmem] at hput
      cases hput
  remove _ h := by
    refine ⟨?_, h.2⟩
    rw [Sweep.remove, objects_foldl_deleteObject, h.1, ite_self]

/-- A stored key that nobody deletes stays, as long as the requests leave it alone. -/
theorem stable_kept (hkey : ¬R key) : Stable R (Kept key : Sweep client → Prop) where
  arrive hs h := by
    refine ⟨?_, stable_notDeleted.arrive (R := R) hs h.2⟩
    rw [Sweep.arrive]
    refine List.foldlRecOn _ StoreEvent.apply
      (motive := fun store => (store.objects key).isSome) h.1 ?_
    intro store ih event hevent
    exact StoreEvent.isSome_apply (h.2 _ (mem_of_head hs) event hevent) ih
  remove hkeys h := by
    refine ⟨?_, h.2⟩
    have hne := fun hmem => hkey (hkeys key hmem)
    rw [Sweep.remove, objects_foldl_deleteObject, if_neg hne]
    exact h.1

/-- A key that is not among the given ones is not deleted. -/
theorem stable_spared (hkey : ¬R key) :
    Stable R fun s : Sweep client => key ∉ s.removed where
  arrive _ h := h
  remove hkeys h hmem := by
    rcases List.mem_append.mp hmem with hnew | hold
    · exact hkey (hkeys key hnew)
    · exact h hold

end Sweep

/-! ## Providers that list what is stored -/

/-- One page of a listing, read off what is stored.  Cursors are the provider's own; {lit}`after`
says which keys one of them leaves for the pages to come. -/
structure ListedPage.Honest (after : String → String → Prop) (bound : ListingStartBound)
    (contents : Contents) (request : ListingRequest) (page : ListedPage) : Prop where
  sound : ∀ object ∈ page.objects, (contents object.key).isSome ∧
    request.directory.toList <+: object.key.toList
  sorted : (page.objects.map ListedObject.key).Pairwise (· < ·)
  complete : ∀ key, (contents key).isSome → request.directory.toList <+: key.toList →
    (request.cursor = none → bound.Reaches key request.startKey) →
    (∀ cursor, request.cursor = some cursor → after cursor key) →
    key ∈ page.objects.map ListedObject.key ∨
      ∃ cursor, page.nextCursor = some cursor ∧ after cursor key ∧
        ∀ object ∈ page.objects, object.key < key
  progress : page.nextCursor ≠ none → page.objects ≠ []

/-- The keys that may ever be stored: under the prefix of state objects, those of iterations of
the given jobs by either codec. -/
structure KeySpace (paths : JobPaths) (codes : List String) where
  Holds : String → Prop
  iterations : ∀ key, Holds key → paths.pathPrefix.toList ++ ['/'] <+: key.toList →
    ∃ code ∈ codes, ∃ codec : JobStateCodecKind, ∃ n ≤ u64Max,
      key = JobPaths.buildJobIterationPath { paths with codec := codec } code n

/-- A provider whose pages are read off what is stored, and which says that a directory is not
there only where it holds nothing. -/
structure ListsHonestly (keys : String → Prop) (after : String → String → Prop)
    (bound : ListingStartBound)
    (lists : ObjectStore → ListingRequest → Except StorageError ListedPage) : Prop where
  page : ∀ {store request page}, (∀ key, (store.contents key).isSome → keys key) →
    lists store request = .ok page → page.Honest after bound store.contents request
  absent : ∀ {store request details}, (∀ key, (store.contents key).isSome → keys key) →
    lists store request = .error (.notFound details) →
    ∀ key, (store.contents key).isSome → ¬request.directory.toList <+: key.toList

/-- What a listing sees of a store is which keys it holds. -/
theorem ObjectStore.isSome_contents {store : ObjectStore} {key : String} :
    (store.contents key).isSome = (store.objects key).isSome := by
  rw [contents, Option.isSome_map]

namespace Sweep

section Sound

variable (setup : CleanerSetup) {codes : List String} (keys : KeySpace setup.paths codes)
  (after : String → String → Prop)

/-- Nothing but the given keys is stored, others write nothing else, and listings are honest. -/
structure Sound (s : Sweep setup.client) : Prop where
  stored : ∀ key, (s.store.contents key).isSome → keys.Holds key
  writes : ∀ incident ∈ s.incidents, ∀ event ∈ incident.events, ∀ key,
    event.isPutOf key = true → keys.Holds key
  lists : ∀ incident ∈ s.incidents,
    ListsHonestly keys.Holds after setup.listingStartBound incident.lists

/-- No iteration of the job above the given one is stored, and nobody else writes one. -/
structure Bounded (code : String) (N : Nat) (s : Sweep setup.client) : Prop where
  stored : ∀ n, SavedFor setup.paths s.store.contents code n → n ≤ N
  writes : ∀ incident ∈ s.incidents, ∀ event ∈ incident.events, ∀ n ≤ u64Max,
    event.isPutOf (setup.paths.buildJobIterationPath code n) = true → n ≤ N

variable {setup keys after} {R : String → Prop}

/-- Whatever a deletion leaves was there before. -/
theorem isSome_of_remove {s : Sweep setup.client} {keys : List String} {key : String}
    (h : ((s.remove keys).store.contents key).isSome) : (s.store.contents key).isSome := by
  rw [ObjectStore.isSome_contents] at h ⊢
  rw [remove, objects_foldl_deleteObject] at h
  split at h
  · cases h
  · exact h

/-- The assumptions about the others hold all along. -/
theorem stable_sound : Stable R (Sound setup keys after) where
  arrive hs h := by
    refine ⟨?_, fun incident' hmem => h.writes _ (mem_of_tail hs hmem),
      fun incident' hmem => h.lists _ (mem_of_tail hs hmem)⟩
    intro key hkey
    rw [ObjectStore.isSome_contents] at hkey
    rcases isSome_of_arrive hkey with hbefore | ⟨event, hmem, hput⟩
    · exact h.stored key (by rwa [ObjectStore.isSome_contents])
    · exact h.writes _ (mem_of_head hs) event hmem key hput
  remove _ h := ⟨fun key hkey => h.stored key (isSome_of_remove hkey), h.writes, h.lists⟩

/-- The directories only hold what their codecs wrote. -/
theorem Sound.written {s : Sweep setup.client} (h : Sound setup keys after s) :
    WrittenByCodecs setup.paths codes s.store.contents :=
  fun key hkey hunder => keys.iterations key (h.stored key hkey) hunder

/-- No iteration beyond the bound appears. -/
theorem stable_bounded {code : String} {N : Nat} : Stable R (Bounded setup code N) where
  arrive hs h := by
    refine ⟨?_, fun incident' hmem => h.writes _ (mem_of_tail hs hmem)⟩
    rintro n ⟨hn, hkey⟩
    rw [ObjectStore.isSome_contents] at hkey
    rcases isSome_of_arrive hkey with hbefore | ⟨event, hmem, hput⟩
    · exact h.stored n ⟨hn, by rwa [ObjectStore.isSome_contents]⟩
    · exact h.writes _ (mem_of_head hs) event hmem n hn hput
  remove _ h := ⟨fun n hn => h.stored n ⟨hn.1, isSome_of_remove hn.2⟩, h.writes⟩

/-- Every number the source can name is within the greatest one. -/
theorem bounded_u64Max (code : String) (s : Sweep setup.client) : Bounded setup code u64Max s :=
  ⟨fun _ hn => hn.1, fun _ _ _ _ _ hn _ => hn⟩

end Sound

end Sweep

end JobManager
