import JobManager.Core.Merging
import JobManager.Execution.Cleaner
import JobManager.Library.Window
import Mathlib.Order.Bounds.Basic

/-!
# Cleanup behind the live tail

The iterations of one job are items under a window whose size is the smallest retention an
instance gives the job: every creation and every deletion is one of that window, whatever else
workers and cleaners do.

Main results:

- Theorem {lit}`CleanupInv.step`: every action keeps to the window.
- Theorem {lit}`cleanup_spares_live_tail`: a cleaner deletes only behind the retention of its
  own instance, the newest iteration survives, and an iteration is created a second time only
  after more creations than the smallest retention.
-/

namespace JobManager

/-! ## The window of a job -/

/-- The numbers of the iterations created of a job. -/
def createdOf (creations : Creations) (code : String) : List Nat :=
  (creations.filter fun made => made.1 = code).map Prod.snd

/-- The iterations of a job as items under a window. -/
def windowOf (paths : JobPaths) (store : ObjectStore) (creations : Creations) (code : String) :
    Window where
  created := createdOf creations code
  stored := {n | SavedFor paths store.contents code n}

section Windows

variable {paths : JobPaths} {store : ObjectStore} {creations : Creations} {code : String} {n : Nat}

/-- The iterations created of a job are those recorded under its code. -/
theorem mem_createdOf : n ∈ createdOf creations code ↔ (code, n) ∈ creations := by
  simp [createdOf]

/-- A creation adds to those of its own job. -/
theorem createdOf_cons (code' : String) (n : Nat) :
    createdOf ((code', n) :: creations) code =
      if code' = code then n :: createdOf creations code else createdOf creations code := by
  by_cases h : code' = code <;> simp [createdOf, h]

/-- An iteration is saved where its own object is stored. -/
theorem savedFor_iff {store : ObjectStore} :
    SavedFor paths store.contents code n ↔
      n ≤ u64Max ∧ ∃ object, store.objects (paths.buildJobIterationPath code n) = some object := by
  simp [SavedFor, ObjectStore.contents, Option.isSome_iff_exists]

/-- A write of one iteration stores that one and leaves the others as they are. -/
theorem savedFor_saved {job : Job} {token : String} (hjob : job.iterNum ≤ u64Max) :
    SavedFor paths (ObjectStorage.saved paths store token job).contents code n ↔
      (code = job.code ∧ n = job.iterNum) ∨ SavedFor paths store.contents code n := by
  rw [savedFor_iff, savedFor_iff]
  by_cases hkey : paths.buildJobIterationPath code n =
      paths.buildJobIterationPath job.code job.iterNum
  · constructor
    · rintro ⟨hn, -⟩
      exact Or.inl (paths.buildJobIterationPath_inj code hjob hn hkey)
    · rintro (⟨-, rfl⟩ | ⟨hn, -⟩)
      · exact ⟨hjob, _, by rw [hkey]; exact ObjectStorage.objects_saved_self token⟩
      · exact ⟨hn, _, by rw [hkey]; exact ObjectStorage.objects_saved_self token⟩
  · rw [ObjectStorage.objects_saved_of_ne token hkey]
    constructor
    · exact Or.inr
    · rintro (⟨rfl, rfl⟩ | h)
      · exact absurd rfl hkey
      · exact h

/-- A deletion takes away one iteration and leaves the others as they are. -/
theorem savedFor_deleteObject {code' : String} {m : Nat} (hm : m ≤ u64Max) :
    SavedFor paths (store.deleteObject (paths.buildJobIterationPath code' m)).contents code n ↔
      ¬(code = code' ∧ n = m) ∧ SavedFor paths store.contents code n := by
  rw [savedFor_iff, savedFor_iff]
  by_cases hkey : paths.buildJobIterationPath code n = paths.buildJobIterationPath code' m
  · rw [hkey, ObjectStore.objects_deleteObject_self]
    constructor
    · rintro ⟨-, object, hobject⟩
      cases hobject
    · rintro ⟨hother, hn, -⟩
      exact absurd (paths.buildJobIterationPath_inj code hm hn hkey) hother
  · rw [store.objects_deleteObject_of_ne hkey]
    constructor
    · intro h
      refine ⟨?_, h⟩
      rintro ⟨rfl, rfl⟩
      exact hkey rfl
    · exact And.right

/-- A creation is one under the window of its job, and leaves the windows of other jobs as they
are. -/
theorem windowOf_saved {job : Job} {token : String} (hjob : job.iterNum ≤ u64Max) :
    windowOf paths (ObjectStorage.saved paths store token job)
        ((job.code, job.iterNum) :: creations) code =
      if job.code = code then
        ⟨job.iterNum :: (windowOf paths store creations code).created,
          insert job.iterNum (windowOf paths store creations code).stored⟩
      else windowOf paths store creations code := by
  by_cases hcode : job.code = code
  · subst hcode
    simp only [windowOf, createdOf_cons, ↓reduceIte, savedFor_saved hjob, true_and]
    rfl
  · have hcode' : ¬code = job.code := fun h => hcode h.symm
    simp only [windowOf, createdOf_cons, if_neg hcode, savedFor_saved hjob, hcode', false_and,
      false_or]

/-- A deletion takes one iteration out of the window of its job. -/
theorem windowOf_deleteObject {code' : String} {m : Nat} (hm : m ≤ u64Max) :
    windowOf paths (store.deleteObject (paths.buildJobIterationPath code' m)) creations code =
      if code' = code then
        ⟨(windowOf paths store creations code).created,
          (windowOf paths store creations code).stored \ {m}⟩
      else windowOf paths store creations code := by
  by_cases hcode : code' = code
  · subst hcode
    simp only [windowOf, savedFor_deleteObject hm, ↓reduceIte, true_and, Window.mk.injEq]
    ext n
    simp [and_comm]
  · have hcode' : ¬code = code' := fun h => hcode h.symm
    simp only [windowOf, savedFor_deleteObject hm, hcode', false_and, not_false_eq_true, true_and,
      if_neg hcode]

/-- A state saved over an earlier one of its iteration leaves the window as it is. -/
theorem windowOf_resaved {job : Job} {token : String} (hjob : job.iterNum ≤ u64Max)
    (hsaved : SavedFor paths store.contents job.code job.iterNum) :
    windowOf paths (ObjectStorage.saved paths store token job) creations code =
      windowOf paths store creations code := by
  simp only [windowOf, savedFor_saved hjob, Window.mk.injEq, true_and]
  ext n
  constructor
  · rintro (⟨rfl, rfl⟩ | h)
    · exact hsaved
    · exact h
  · exact Or.inr

end Windows

/-! ## What cleaners and workers hold -/

section Invariant

variable (fleet : Fleet) (size : Nat) (creations : Creations) (code : String)

/-- The iteration lies behind the retention the instance gives the job. -/
def Deletable (i n : Nat) : Prop :=
  ∃ jobDef, (fleet.registries i).jobsByCode.get code = some jobDef ∧
    ∃ m, (code, m) ∈ creations ∧ n + jobDef.iterationRetention ≤ m

/-- What may be said of a deletion that was asked for. -/
def RequestHolds (request : DeleteRequest) : Prop :=
  ∀ n ∈ request.iterNums, n ≤ u64Max ∧
    (request.jobCode = code → Deletable fleet creations code request.cleaner n)

/-- What may be said of the pass of an instance. -/
def PassHolds (i : Nat) : Reconciliation → Prop
  | .finding _ _ => True
  | .listing jobCode _ retentionBoundary _ iterNums _ =>
      (jobCode = code → Deletable fleet creations code i retentionBoundary) ∧
        ∀ n ∈ iterNums, n ≤ retentionBoundary ∧ n ≤ u64Max
  | .deleting request _ _ => RequestHolds fleet creations code request

/-- A read that was made before now, in a store that kept to the window. -/
def ReadHolds (origin : JobRead) : Prop :=
  origin.creations <:+ creations ∧
    Windowed size (windowOf fleet.paths origin.store origin.creations code)

/-- What may be said of a worker. -/
def CreatorHolds : CreatorPhase → Prop
  | .read origin =>
      ReadHolds fleet size creations code origin ∧
        (origin.job.code, origin.job.iterNum) ∈ creations
  | .creating job origin =>
      job.version = "" ∧ job.iterNum ≤ u64Max ∧
        (job.iterNum = 1 ∨ ∃ m, (job.code, m) ∈ creations ∧ m + 1 = job.iterNum) ∧
        ∀ o, origin = some o → ReadHolds fleet size creations code o ∧
          job.code = o.job.code ∧ job.iterNum = o.job.iterNum + 1
  | _ => True

/-- The invariant of the cleanup of one job. -/
structure CleanupInv (s : Cleanup) : Prop where
  objects : ∀ key object, s.store.objects key = some object →
    key = fleet.paths.buildJobIterationPath object.body.code object.body.iterNum ∧
      (object.body.code, object.body.iterNum) ∈ s.creations
  made : ∀ made ∈ s.creations, made.2 ≤ u64Max ∧ ¬JobPaths.Extends code made.1
  reports : ∀ i, ∀ report ∈ (s.cleaners i).inbox, (report.jobCode, report.iterNum) ∈ s.creations
  requests : ∀ request ∈ s.requests, RequestHolds fleet s.creations code request
  handling : ∀ i request left, (s.cleaners i).handling = some (request, left) →
    RequestHolds fleet s.creations code request
  passes : ∀ i, PassHolds fleet s.creations code i (s.cleaners i).reconciliation
  workers : ∀ w, CreatorHolds fleet size s.creations code (s.workers w)
  windowed : Windowed size (windowOf fleet.paths s.store s.creations code)

variable {fleet size creations code}

/-- The invariant holds before anything happened. -/
theorem cleanupInv_init (details : String) : CleanupInv fleet size code (.init fleet details) where
  objects := by simp [Cleanup.init, ObjectStore.empty]
  made := by simp [Cleanup.init]
  reports := by simp [Cleanup.init]
  requests := by simp [Cleanup.init]
  handling := by simp [Cleanup.init]
  passes := fun _ => trivial
  workers := fun _ => trivial
  windowed := by
    have hempty : windowOf fleet.paths (ObjectStore.empty details) [] code = ⟨[], ∅⟩ := by
      simp [windowOf, createdOf, savedFor_iff, ObjectStore.empty]
    exact hempty ▸ windowed_empty size

/-! ## As creations go on -/

variable {creations' : Creations}

/-- What may be deleted may be deleted later on. -/
theorem Deletable.later {i n : Nat} (h : Deletable fleet creations code i n)
    (hlater : creations <:+ creations') : Deletable fleet creations' code i n := by
  obtain ⟨jobDef, hget, m, hm, hle⟩ := h
  exact ⟨jobDef, hget, m, hlater.subset hm, hle⟩

/-- So a request goes on to hold. -/
theorem RequestHolds.later {request : DeleteRequest} (h : RequestHolds fleet creations code request)
    (hlater : creations <:+ creations') : RequestHolds fleet creations' code request := by
  intro n hn
  obtain ⟨hle, hdeletable⟩ := h n hn
  exact ⟨hle, fun hcode => (hdeletable hcode).later hlater⟩

/-- And so does a pass. -/
theorem PassHolds.later {i : Nat} {pass : Reconciliation}
    (h : PassHolds fleet creations code i pass) (hlater : creations <:+ creations') :
    PassHolds fleet creations' code i pass := by
  cases pass with
  | finding jobCodes left => trivial
  | listing jobCode jobCodes retentionBoundary request iterNums left =>
      exact ⟨fun hcode => (h.1 hcode).later hlater, h.2⟩
  | deleting request jobCodes left => exact RequestHolds.later h hlater

/-- And so does a read. -/
theorem ReadHolds.later {origin : JobRead} (h : ReadHolds fleet size creations code origin)
    (hlater : creations <:+ creations') : ReadHolds fleet size creations' code origin :=
  ⟨h.1.trans hlater, h.2⟩

/-- And so does what a creator is about. -/
theorem CreatorHolds.later {phase : CreatorPhase} (h : CreatorHolds fleet size creations code phase)
    (hlater : creations <:+ creations') : CreatorHolds fleet size creations' code phase := by
  cases phase with
  | idle => trivial
  | read origin => exact ⟨h.1.later hlater, hlater.subset h.2⟩
  | readNothing jobCode => trivial
  | creating job origin =>
      obtain ⟨hversion, hbound, hseen, horigin⟩ := h
      refine ⟨hversion, hbound, ?_, fun o ho => ?_⟩
      · rcases hseen with hone | ⟨m, hm, hnext⟩
        · exact Or.inl hone
        · exact Or.inr ⟨m, hlater.subset hm, hnext⟩
      · obtain ⟨hread, hsame⟩ := horigin o ho
        exact ⟨hread.later hlater, hsame⟩

end Invariant

/-! ## What a cleaner asks for -/

section Requests

variable {fleet : Fleet} {size : Nat} {code jobCode : String} {s : Cleanup} {i : Nat}

/-- The boundary lies the retention of the job behind the iteration. -/
theorem calculateRetentionBoundary_eq_some {registry : JobRegistry} {iterNum boundary : Nat}
    (h : JobCleaner.calculateRetentionBoundary registry jobCode iterNum = some boundary) :
    ∃ jobDef, registry.jobsByCode.get jobCode = some jobDef ∧
      boundary + jobDef.iterationRetention = iterNum := by
  rw [JobCleaner.calculateRetentionBoundary, JobRegistry.getJob] at h
  cases hget : registry.jobsByCode.get jobCode with
  | none => simp [hget] at h
  | some jobDef =>
      simp only [hget, JobDefinition.calculateRetentionBoundary] at h
      split at h
      · cases h
      · cases h
        exact ⟨jobDef, rfl, by omega⟩

/-- The boundary below a created iteration may be deleted. -/
theorem deletable_of_boundary {creations : Creations} {iterNum boundary : Nat}
    (hmade : (jobCode, iterNum) ∈ creations)
    (h : JobCleaner.calculateRetentionBoundary (fleet.registries i) jobCode iterNum = some boundary)
    (hcode : jobCode = code) : Deletable fleet creations code i boundary := by
  subst hcode
  obtain ⟨jobDef, hget, heq⟩ := calculateRetentionBoundary_eq_some h
  exact ⟨jobDef, hget, iterNum, hmade, heq.le⟩

/-- Whatever is stored was created. -/
theorem CleanupInv.made_of_saved (hinv : CleanupInv fleet size code s) {n : Nat}
    (h : SavedFor fleet.paths s.store.contents jobCode n) : (jobCode, n) ∈ s.creations := by
  obtain ⟨hn, object, hobject⟩ := savedFor_iff.mp h
  obtain ⟨hkey, hmade⟩ := hinv.objects _ object hobject
  obtain ⟨rfl, rfl⟩ := fleet.paths.buildJobIterationPath_inj jobCode (hinv.made _ hmade).1 hn hkey
  exact hmade

/-- The newest stored iteration of the job is found. -/
theorem CleanupInv.findJobMeta (hinv : CleanupInv fleet size code s) {provider : Backend}
    (hlists : provider.Lists s.store.contents) {jobMeta : JobMeta}
    (h : findJobMeta fleet.paths provider code = .ok jobMeta) :
    (code, jobMeta.iterNum) ∈ s.creations := by
  have hwritten : WrittenFor fleet.paths (s.creations.map Prod.fst) s.store.contents := by
    intro key hkey
    obtain ⟨object, hobject⟩ : ∃ object, s.store.objects key = some object := by
      simpa [ObjectStore.contents, Option.isSome_iff_exists] using hkey
    obtain ⟨hkey', hmade⟩ := hinv.objects key object hobject
    exact ⟨_, List.mem_map_of_mem hmade, _, (hinv.made _ hmade).1, hkey'⟩
  have howns : OwnDirectory fleet.paths s.store.contents code := by
    refine ownDirectory_of_separated hwritten fun code' hcode' => ?_
    obtain ⟨made, hmade, rfl⟩ := List.mem_map.mp hcode'
    exact (hinv.made made hmade).2
  rcases findJobMeta_of_separated howns hwritten hlists with ⟨message, hnone, -⟩ |
    ⟨found, hfound, -, hsaved, -⟩
  · rw [h] at hnone
    cases hnone
  · rw [h] at hfound
    cases hfound
    exact hinv.made_of_saved hsaved

/-- A number that is read off a key is within range. -/
theorem parseIterNum_le {paths : JobPaths} {key : String} {n : Nat}
    (h : paths.parseIterNum key = .ok n) : n ≤ u64Max := by
  simp only [JobPaths.parseIterNum] at h
  split at h
  · cases h
  split at h
  · cases h
  split at h
  · cases h
  · cases h
    exact Nat.sub_le _ _

/-- What a page lists as outdated lies behind the boundary. -/
theorem of_mem_outdatedIterNums {paths : JobPaths} {boundary n : Nat} {objects : List ListedObject}
    (h : n ∈ outdatedIterNums paths boundary objects) : n ≤ boundary ∧ n ≤ u64Max := by
  obtain ⟨object, -, hparse⟩ := List.mem_filterMap.mp h
  split at hparse
  · rename_i iterNum hiter
    split at hparse
    · cases hparse
      exact ⟨‹_›, parseIterNum_le hiter⟩
    · cases hparse
  · cases hparse

variable {creations : Creations} {maxAttempts : Nat}

/-- A failure repeats the step or goes on with the next job. -/
theorem passHolds_afterFailure {e : StorageError} {jobCodes : List String}
    {again : Nat → Reconciliation} {left : Nat}
    (h : ∀ left, PassHolds fleet creations code i (again left)) :
    PassHolds fleet creations code i
      (JobCleaner.afterFailure maxAttempts e jobCodes again left) := by
  unfold JobCleaner.afterFailure
  split
  · cases left with
    | zero => trivial
    | succ left => exact h left
  · split <;> trivial

/-- The boundary a pass computes lies behind a stored iteration. -/
theorem CleanupInv.findTail (hinv : CleanupInv fleet size code s) {provider : Backend}
    (hlists : provider.Lists s.store.contents) (jobCodes : List String) (left : Nat) :
    PassHolds fleet s.creations code i (JobCleaner.findTail fleet.paths (fleet.registries i)
      maxAttempts provider jobCode jobCodes left) := by
  rw [JobCleaner.findTail]
  split
  · trivial
  · exact passHolds_afterFailure fun _ => trivial
  rename_i jobMeta hfind
  split
  · trivial
  rename_i boundary hboundary
  split
  · trivial
  · refine ⟨fun hcode => ?_, by simp⟩
    subst hcode
    exact deletable_of_boundary (hinv.findJobMeta hlists hfind) hboundary rfl

/-- What a pass lists lies behind its boundary. -/
theorem passHolds_listTail (maxAttempts : Nat) (provider : Backend) {jobCodes : List String}
    {boundary left : Nat} {request : ListingRequest} {iterNums : List Nat}
    (h : PassHolds fleet creations code i
      (.listing jobCode jobCodes boundary request iterNums left)) :
    PassHolds fleet creations code i (JobCleaner.listTail fleet.paths maxAttempts provider i jobCode
      jobCodes boundary request iterNums left) := by
  obtain ⟨hdeletable, hbelow⟩ := h
  rw [JobCleaner.listTail]
  split
  · exact passHolds_afterFailure fun _ => ⟨hdeletable, by simp⟩
  rename_i page _
  have hlisted : ∀ n ∈ iterNums ++ outdatedIterNums fleet.paths boundary page.objects,
      n ≤ boundary ∧ n ≤ u64Max := by
    intro n hn
    rcases List.mem_append.mp hn with hn | hn
    · exact hbelow n hn
    · exact of_mem_outdatedIterNums hn
  dsimp only
  split
  · exact ⟨hdeletable, hlisted⟩
  · split
    · trivial
    · intro n hn
      obtain ⟨hle, hbound⟩ := hlisted n hn
      refine ⟨hbound, fun hcode => ?_⟩
      obtain ⟨jobDef, hget, m, hm, hretained⟩ := hdeletable hcode
      exact ⟨jobDef, hget, m, hm, by omega⟩

theorem requestHolds_deletion {pass : Reconciliation} (h : PassHolds fleet creations code i pass) :
    ∀ request, pass.deletion = some request → RequestHolds fleet creations code request := by
  intro request hrequest
  cases pass <;> cases hrequest
  exact h

end Requests

/-! ## What an action does to the store -/

section Stores

variable {fleet : Fleet} {size : Nat} {code : String} {s s' : Cleanup}

/-- Whether a save is accepted, by what is stored. -/
theorem saveJob_eq_ok {paths : JobPaths} {token : String} {job job' : Job}
    {store store' : ObjectStore}
    (h : ObjectStorage.saveJob paths token job store = (.ok job', store')) :
    store' = ObjectStorage.saved paths store token job ∧
      (job.version = "" →
        store.objects (paths.buildJobIterationPath job.code job.iterNum) = none) ∧
      (job.version ≠ "" → ∃ object,
        store.objects (paths.buildJobIterationPath job.code job.iterNum) = some object) := by
  rw [ObjectStorage.saveJob_eq] at h
  split at h <;> rename_i hmet
  · cases h
    rw [ObjectStorage.putCondition] at hmet
    refine ⟨rfl, fun hnew => ?_, fun hold => ?_⟩
    · rw [if_pos hnew] at hmet
      exact Option.isNone_iff_eq_none.mp hmet
    · rw [if_neg hold] at hmet
      obtain ⟨object, hobject, -⟩ := (Option.any_eq_true _ _).mp hmet
      exact ⟨object, hobject⟩
  · cases h

@[simp] theorem store_reportStartedIteration (s : Cleanup) (w : Uuid) (job : Job)
    (origin : Option JobRead) :
    (s.reportStartedIteration fleet w job origin).store = s.store := by
  cases origin <;> rfl

@[simp] theorem creations_reportStartedIteration (s : Cleanup) (w : Uuid) (job : Job)
    (origin : Option JobRead) :
    (s.reportStartedIteration fleet w job origin).creations = s.creations := by
  cases origin <;> rfl

/-- What a write that takes effect creates. -/
theorem Cleanup.step_put {w : Uuid} {token : String} {reply : WriteReply}
    (h : s.step fleet (.put w token reply) = some s') :
    ∃ job origin, s.workers w = .creating job origin ∧
      (job.version = "" →
        s.store.objects (fleet.paths.buildJobIterationPath job.code job.iterNum) = none) ∧
      s'.store = ObjectStorage.saved fleet.paths s.store token job ∧
      s'.creations = (job.code, job.iterNum) :: s.creations := by
  simp only [Cleanup.step] at h
  split at h
  case h_2 => cases h
  rename_i job origin hworker
  split at h
  · cases h
  rename_i saved store hsave
  obtain ⟨rfl, hcreate, -⟩ := saveJob_eq_ok hsave
  refine ⟨job, origin, hworker, hcreate, ?_⟩
  cases reply <;> cases h
  · exact ⟨store_reportStartedIteration .., creations_reportStartedIteration ..⟩
  · exact ⟨rfl, rfl⟩
  · exact ⟨rfl, rfl⟩

/-- A later state of an iteration goes over one that is stored. -/
theorem Cleanup.step_save {job : Job} {token : String}
    (h : s.step fleet (.save job token) = some s') :
    SavedFor fleet.paths s.store.contents job.code job.iterNum ∧
      s' = { s with store := ObjectStorage.saved fleet.paths s.store token job } := by
  rw [Cleanup.step] at h
  split at h <;> rename_i hcondition
  · split at h
    · cases h
    · rename_i saved store hsave
      cases h
      obtain ⟨rfl, -, hresave⟩ := saveJob_eq_ok hsave
      exact ⟨savedFor_iff.mpr ⟨hcondition.2, hresave hcondition.1⟩, rfl⟩
  · cases h

/-- A deletion that takes effect was asked for. -/
theorem Cleanup.step_delete {i n : Nat} {jobCode : String}
    (h : s.step fleet (.delete i jobCode n) = some s') :
    ∃ request ∈ s.requests, request.cleaner = i ∧ request.jobCode = jobCode ∧
      n ∈ request.iterNums ∧
      s'.store = s.store.deleteObject (fleet.paths.buildJobIterationPath jobCode n) ∧
      s'.creations = s.creations := by
  rw [Cleanup.step] at h
  split at h <;> rename_i hasked
  · cases h
    simp only [List.any_eq_true, Bool.and_eq_true, decide_eq_true_eq, List.contains_iff_mem]
      at hasked
    obtain ⟨request, hrequest, ⟨hcleaner, hcode⟩, hn⟩ := hasked
    exact ⟨request, hrequest, hcleaner, hcode, hn, rfl, rfl⟩
  · cases h

/-- Every change to the store is a creation, a state saved over an earlier one, or a deletion
that a cleaner asked for. -/
theorem Cleanup.step_cases {a : CleanupAction} (h : s.step fleet a = some s') :
    (s'.store = s.store ∧ s'.creations = s.creations) ∨
      (∃ w token job origin, s.workers w = .creating job origin ∧
        (job.version = "" →
          s.store.objects (fleet.paths.buildJobIterationPath job.code job.iterNum) = none) ∧
        s'.store = ObjectStorage.saved fleet.paths s.store token job ∧
        s'.creations = (job.code, job.iterNum) :: s.creations) ∨
      (∃ job token, SavedFor fleet.paths s.store.contents job.code job.iterNum ∧
        s'.store = ObjectStorage.saved fleet.paths s.store token job ∧
        s'.creations = s.creations) ∨
      ∃ request ∈ s.requests, ∃ n ∈ request.iterNums,
        s'.store = s.store.deleteObject (fleet.paths.buildJobIterationPath request.jobCode n) ∧
        s'.creations = s.creations := by
  cases a with
  | read w jobMeta =>
      rw [Cleanup.step] at h
      split at h <;> cases h
      exact Or.inl ⟨rfl, rfl⟩
  | readNothing w jobCode provider =>
      rw [Cleanup.step] at h
      split at h <;> cases h
      exact Or.inl ⟨rfl, rfl⟩
  | prepare w jobId ids now =>
      obtain ⟨phase, -, rfl⟩ := Option.map_eq_some_iff.mp h
      exact Or.inl ⟨rfl, rfl⟩
  | put w token reply => exact Or.inr (Or.inl ⟨w, token, Cleanup.step_put h⟩)
  | save job token =>
      obtain ⟨hsaved, rfl⟩ := Cleanup.step_save h
      exact Or.inr (Or.inr (Or.inl ⟨job, token, hsaved, rfl, rfl⟩))
  | delete i jobCode n =>
      obtain ⟨request, hrequest, -, rfl, hn, hstores⟩ := Cleanup.step_delete h
      exact Or.inr (Or.inr (Or.inr ⟨request, hrequest, n, hn, hstores⟩))
  | receive i report =>
      rw [Cleanup.step] at h
      split at h <;> cases h
      exact Or.inl ⟨rfl, rfl⟩
  | drop i report =>
      cases h
      exact Or.inl ⟨rfl, rfl⟩
  | answerReport i answer =>
      simp only [Cleanup.step] at h
      split at h
      · cases h
      · cases h
        exact Or.inl ⟨rfl, rfl⟩
      · split at h <;> cases h <;> exact Or.inl ⟨rfl, rfl⟩
  | find i provider =>
      simp only [Cleanup.step] at h
      split at h <;> cases h
      exact Or.inl ⟨rfl, rfl⟩
  | list i provider =>
      simp only [Cleanup.step] at h
      split at h <;> cases h
      exact Or.inl ⟨rfl, rfl⟩
  | answerTail i answer =>
      simp only [Cleanup.step] at h
      split at h <;> cases h <;> exact Or.inl ⟨rfl, rfl⟩
  | stop i =>
      cases h
      exact Or.inl ⟨rfl, rfl⟩

/-- Every action is a creation or a deletion under the window of the job, or leaves the window
as it is. -/
theorem CleanupInv.window_step (hinv : CleanupInv fleet size code s)
    (hleast : ∀ i jobDef, (fleet.registries i).jobsByCode.get code = some jobDef →
      size ≤ jobDef.iterationRetention) {a : CleanupAction} (h : s.step fleet a = some s') :
    windowOf fleet.paths s'.store s'.creations code =
        windowOf fleet.paths s.store s.creations code ∨
      (windowOf fleet.paths s.store s.creations code).Step size
        (windowOf fleet.paths s'.store s'.creations code) := by
  rcases Cleanup.step_cases h with ⟨hstore, hcreations⟩ |
    ⟨w, token, job, origin, hworker, habsent, hstore, hcreations⟩ |
    ⟨job, token, hsaved, hstore, hcreations⟩ |
    ⟨request, hrequest, n, hn, hstore, hcreations⟩
  · rw [hstore, hcreations]
    exact Or.inl rfl
  · have hphase := hinv.workers w
    rw [hworker] at hphase
    obtain ⟨hversion, hbound, hseen, -⟩ := hphase
    rw [hstore, hcreations, windowOf_saved hbound]
    split <;> rename_i hcode
    · subst hcode
      refine Or.inr (.create ?_ ?_)
      · intro hstored
        obtain ⟨-, object, hobject⟩ := savedFor_iff.mp hstored
        rw [habsent hversion] at hobject
        cases hobject
      · rcases hseen with hone | ⟨m, hm, hnext⟩
        · exact Or.inl hone
        · exact Or.inr ⟨m, mem_createdOf.mpr hm, hnext⟩
    · exact Or.inl rfl
  · rw [hstore, hcreations, windowOf_resaved hsaved.1 hsaved]
    exact Or.inl rfl
  · obtain ⟨hbound, hdeletable⟩ := hinv.requests request hrequest n hn
    rw [hstore, hcreations, windowOf_deleteObject hbound]
    split <;> rename_i hcode
    · obtain ⟨jobDef, hget, m, hm, hle⟩ := hdeletable hcode
      have := hleast _ jobDef hget
      exact Or.inr (.delete ⟨m, mem_createdOf.mpr hm, by omega⟩)
    · exact Or.inl rfl

end Stores

/-! ## Every action -/

section Actions

variable {fleet : Fleet} {size : Nat} {code : String} {s s' : Cleanup}

/-- A cleaner that goes on soundly keeps the invariant. -/
theorem CleanupInv.setCleaner (hinv : CleanupInv fleet size code s) (i : Nat)
    {cleaner : CleanerState}
    (hreports : ∀ report ∈ cleaner.inbox, (report.jobCode, report.iterNum) ∈ s.creations)
    (hhandling : ∀ request left, cleaner.handling = some (request, left) →
      RequestHolds fleet s.creations code request)
    (hpass : PassHolds fleet s.creations code i cleaner.reconciliation) :
    CleanupInv fleet size code (s.setCleaner i cleaner) := by
  have hcleaners : ∀ j, (s.setCleaner i cleaner).cleaners j =
      if j = i then cleaner else s.cleaners j := by
    intro j
    simp only [Cleanup.setCleaner, Function.update_apply]
  refine ⟨hinv.objects, hinv.made, ?_, hinv.requests, ?_, ?_, hinv.workers, hinv.windowed⟩
  · intro j
    rw [hcleaners j]
    split
    · exact hreports
    · exact hinv.reports j
  · intro j
    rw [hcleaners j]
    split
    · exact hhandling
    · exact hinv.handling j
  · intro j
    rw [hcleaners j]
    split <;> rename_i hj
    · rw [hj]
      exact hpass
    · exact hinv.passes j

/-- And so does a creator. -/
theorem CleanupInv.setWorker (hinv : CleanupInv fleet size code s) (w : Uuid)
    {phase : CreatorPhase} (hphase : CreatorHolds fleet size s.creations code phase) :
    CleanupInv fleet size code (s.setWorker w phase) := by
  refine ⟨hinv.objects, hinv.made, hinv.reports, hinv.requests, hinv.handling, hinv.passes, ?_,
    hinv.windowed⟩
  intro w'
  simp only [Cleanup.setWorker, Function.update_apply]
  split
  · exact hphase
  · exact hinv.workers w'

/-- And so does a request sent on good grounds. -/
theorem CleanupInv.send (hinv : CleanupInv fleet size code s) {sent : Option DeleteRequest}
    (hsent : ∀ request, sent = some request → RequestHolds fleet s.creations code request) :
    CleanupInv fleet size code (s.send sent) := by
  refine ⟨hinv.objects, hinv.made, hinv.reports, ?_, hinv.handling, hinv.passes, hinv.workers,
    hinv.windowed⟩
  intro request hrequest
  rcases List.mem_append.mp hrequest with hnew | hold
  · exact hsent request (Option.mem_toList.mp hnew)
  · exact hinv.requests request hold

/-- The objects of a store after a write are those of the store and the one written. -/
theorem CleanupInv.objects_saved (hinv : CleanupInv fleet size code s) {token : String} {job : Job}
    {creations : Creations} (hlater : s.creations <:+ creations)
    (hmade : (job.code, job.iterNum) ∈ creations) (key : String) (object : StateObject)
    (h : (ObjectStorage.saved fleet.paths s.store token job).objects key = some object) :
    key = fleet.paths.buildJobIterationPath object.body.code object.body.iterNum ∧
      (object.body.code, object.body.iterNum) ∈ creations := by
  by_cases hkey : key = fleet.paths.buildJobIterationPath job.code job.iterNum
  · rw [hkey, ObjectStorage.objects_saved_self] at h
    cases h
    exact ⟨hkey, hmade⟩
  · rw [ObjectStorage.objects_saved_of_ne token hkey] at h
    obtain ⟨hkey', hold⟩ := hinv.objects key object h
    exact ⟨hkey', hlater.subset hold⟩

/-- An iteration is created. -/
theorem CleanupInv.create (hinv : CleanupInv fleet size code s) {w : Uuid} {job : Job}
    {origin : Option JobRead} (hworker : s.workers w = .creating job origin) (token : String)
    (hextends : ¬JobPaths.Extends code job.code)
    (hwindowed : Windowed size (windowOf fleet.paths
      (ObjectStorage.saved fleet.paths s.store token job) ((job.code, job.iterNum) :: s.creations)
      code)) :
    CleanupInv fleet size code
      { s with
        store := ObjectStorage.saved fleet.paths s.store token job
        creations := (job.code, job.iterNum) :: s.creations } := by
  have hlater : s.creations <:+ (job.code, job.iterNum) :: s.creations := List.suffix_cons _ _
  have hphase := hinv.workers w
  rw [hworker] at hphase
  obtain ⟨-, hbound, -⟩ := hphase
  refine ⟨fun key object => hinv.objects_saved hlater List.mem_cons_self key object, ?_, ?_, ?_, ?_,
    ?_, ?_, hwindowed⟩
  · intro made hmade
    rcases List.mem_cons.mp hmade with rfl | hmade
    · exact ⟨hbound, hextends⟩
    · exact hinv.made made hmade
  · exact fun i report hreport => List.mem_cons_of_mem _ (hinv.reports i report hreport)
  · exact fun request hrequest => (hinv.requests request hrequest).later hlater
  · exact fun i request left h => (hinv.handling i request left h).later hlater
  · exact fun i => (hinv.passes i).later hlater
  · exact fun w => (hinv.workers w).later hlater

/-- A state is saved over an earlier one. -/
theorem CleanupInv.resave (hinv : CleanupInv fleet size code s) {job : Job} (token : String)
    (hsaved : SavedFor fleet.paths s.store.contents job.code job.iterNum)
    (hwindowed : Windowed size (windowOf fleet.paths
      (ObjectStorage.saved fleet.paths s.store token job) s.creations code)) :
    CleanupInv fleet size code
      { s with store := ObjectStorage.saved fleet.paths s.store token job } :=
  ⟨hinv.objects_saved (List.suffix_refl _) (hinv.made_of_saved hsaved), hinv.made, hinv.reports,
    hinv.requests, hinv.handling, hinv.passes, hinv.workers, hwindowed⟩

/-- An object is deleted. -/
theorem CleanupInv.delete (hinv : CleanupInv fleet size code s) (key : String)
    (hwindowed : Windowed size
      (windowOf fleet.paths (s.store.deleteObject key) s.creations code)) :
    CleanupInv fleet size code { s with store := s.store.deleteObject key } := by
  refine ⟨?_, hinv.made, hinv.reports, hinv.requests, hinv.handling, hinv.passes, hinv.workers,
    hwindowed⟩
  intro key' object hobject
  by_cases hkey : key' = key
  · rw [hkey, ObjectStore.objects_deleteObject_self] at hobject
    cases hobject
  · rw [ObjectStore.objects_deleteObject_of_ne _ hkey] at hobject
    exact hinv.objects key' object hobject

theorem getJob_toOption {registry : JobRegistry} {jobCode : String} {jobDef : JobDefinition}
    (h : (registry.getJob jobCode).toOption = some jobDef) : jobDef.code = jobCode := by
  rw [JobRegistry.getJob] at h
  split at h <;> cases h
  exact KeyedMap.key_of_get ‹_›

/-- A worker prepares the iteration after the one it read, or the first one. -/
theorem CreatorHolds.newIteration {creations : Creations} {phase phase' : CreatorPhase}
    (h : CreatorHolds fleet size creations code phase) {w jobId : Uuid} {ids : List Uuid}
    {now : Nat} (hnew : Cleanup.newIteration fleet w jobId ids now phase = some phase') :
    CreatorHolds fleet size creations code phase' := by
  cases phase with
  | idle => cases hnew
  | creating job origin => cases hnew
  | read origin =>
      obtain ⟨hread, hmade⟩ := h
      rw [Cleanup.newIteration, Option.bind_eq_bind, Option.bind_eq_some_iff] at hnew
      obtain ⟨jobDef, hget, hnew⟩ := hnew
      split at hnew
      · rename_i job hnext
        split at hnew <;> cases hnew
        obtain ⟨-, hplanned, hiter⟩ := Job.nextIteration_eq_ok hnext
        have hcode : job.code = origin.job.code := hplanned.code.trans (getJob_toOption hget)
        refine ⟨hplanned.version, ‹_›, Or.inr ⟨origin.job.iterNum, ?_, hiter.symm⟩, ?_⟩
        · rw [hcode]
          exact hmade
        · intro o ho
          cases ho
          exact ⟨hread, hcode, hiter⟩
      · cases hnew
  | readNothing jobCode =>
      rw [Cleanup.newIteration, Option.bind_eq_bind, Option.bind_eq_some_iff] at hnew
      obtain ⟨jobDef, -, hnew⟩ := hnew
      rw [Option.bind_eq_bind, Option.bind_eq_some_iff] at hnew
      obtain ⟨job, hjob, hphase⟩ := hnew
      cases hphase
      obtain ⟨hplanned, hiter⟩ := Job.new_eq_ok (toOption_eq_some.mp hjob)
      have hone : 1 ≤ u64Max := by decide
      refine ⟨hplanned.version, hiter ▸ hone, Or.inl hiter, ?_⟩
      intro o ho
      cases ho

/-- A read answers with a state of an iteration that was created. -/
theorem CleanupInv.read (hinv : CleanupInv fleet size code s) {registry : JobRegistry}
    {jobMeta : JobMeta} {job : Job}
    (h : ObjectStorage.getJobByMeta fleet.paths registry s.store jobMeta = .ok job) :
    CreatorHolds fleet size s.creations code (.read ⟨job, s.store, s.creations⟩) := by
  obtain ⟨object, jobDef, hobject, -, -, rfl⟩ := ObjectStorage.getJobByMeta_eq_ok.mp h
  exact ⟨⟨List.suffix_refl _, hinv.windowed⟩, (hinv.objects _ object hobject).2⟩

/-- Reporting an iteration that was made keeps the invariant. -/
theorem CleanupInv.reportStartedIteration (hinv : CleanupInv fleet size code s) {w : Uuid}
    {job : Job} (hmade : (job.code, job.iterNum) ∈ s.creations) (origin : Option JobRead) :
    CleanupInv fleet size code (s.reportStartedIteration fleet w job origin) := by
  cases origin with
  | none => exact hinv
  | some o =>
      refine hinv.setCleaner (fleet.home w) ?_ (hinv.handling _) (hinv.passes _)
      intro report hreport
      rcases List.mem_append.mp hreport with hold | hnew
      · exact hinv.reports _ report hold
      · rw [List.mem_singleton.mp hnew]
        exact hmade

/-- And so does acting on a report. -/
theorem CleanupInv.deleteIteration (hinv : CleanupInv fleet size code s) {i : Nat}
    {report : JobIterationStarted} (hreport : report ∈ (s.cleaners i).inbox) :
    CleanupInv fleet size code (s.deleteIteration fleet i report) := by
  have hmade := hinv.reports i report hreport
  have hrequest : ∀ request, (JobCleaner.calculateRetentionBoundary (fleet.registries i)
      report.jobCode report.iterNum).map (fun boundary =>
        (⟨i, report.jobCode, [boundary]⟩ : DeleteRequest)) = some request →
      RequestHolds fleet s.creations code request := by
    intro request h
    obtain ⟨boundary, hboundary, rfl⟩ := Option.map_eq_some_iff.mp h
    intro n hn
    rw [List.mem_singleton.mp hn]
    obtain ⟨jobDef, -, heq⟩ := calculateRetentionBoundary_eq_some hboundary
    have hbound := (hinv.made _ hmade).1
    exact ⟨by omega, deletable_of_boundary hmade hboundary⟩
  rw [Cleanup.deleteIteration]
  refine CleanupInv.send ?_ hrequest
  refine hinv.setCleaner i ?_ ?_ (hinv.passes i)
  · intro report' hreport'
    exact hinv.reports i report' (List.mem_of_mem_erase hreport')
  · intro request left h
    obtain ⟨request', hrequest', hpair⟩ := Option.map_eq_some_iff.mp h
    cases hpair
    exact hrequest request hrequest'

/-- And so does the answer to it. -/
theorem CleanupInv.answerReport (hinv : CleanupInv fleet size code s) {i : Nat}
    {answer : Except StorageError Unit} (h : s.step fleet (.answerReport i answer) = some s') :
    CleanupInv fleet size code s' := by
  simp only [Cleanup.step] at h
  split at h
  · cases h
  · cases h
    exact hinv.setCleaner i (hinv.reports i) (fun request left hnone => by cases hnone)
      (hinv.passes i)
  · rename_i request left e hhandling
    have hrequest := hinv.handling i request left hhandling
    split at h <;> cases h
    · -- the request is sent again
      refine CleanupInv.send ?_ ?_
      · refine hinv.setCleaner i (hinv.reports i) ?_ (hinv.passes i)
        intro request' left' hsame
        cases hsame
        exact hrequest
      · intro request' hsame
        cases hsame
        exact hrequest
    · refine hinv.setCleaner i ?_ (fun request left hnone => by cases hnone) (hinv.passes i)
      intro report hreport
      dsimp only at hreport
      split at hreport
      · cases hreport
      · exact hinv.reports i report hreport

/-- Every action keeps to the window of the job. -/
theorem CleanupInv.step (hinv : CleanupInv fleet size code s)
    (hleast : ∀ i jobDef, (fleet.registries i).jobsByCode.get code = some jobDef →
      size ≤ jobDef.iterationRetention) {a : CleanupAction} (hadmits : s.Admits code a)
    (h : s.step fleet a = some s') : CleanupInv fleet size code s' := by
  have hwindowed : Windowed size (windowOf fleet.paths s'.store s'.creations code) := by
    rcases hinv.window_step hleast h with hsame | hstep
    · rw [hsame]
      exact hinv.windowed
    · exact hinv.windowed.step hstep
  cases a with
  | read w jobMeta =>
      rw [Cleanup.step] at h
      split at h <;> cases h
      exact hinv.setWorker w (hinv.read ‹_›)
  | readNothing w jobCode provider =>
      rw [Cleanup.step] at h
      split at h <;> cases h
      exact hinv.setWorker w trivial
  | prepare w jobId ids now =>
      obtain ⟨phase, hphase, rfl⟩ := Option.map_eq_some_iff.mp h
      exact hinv.setWorker w ((hinv.workers w).newIteration hphase)
  | put w token reply =>
      simp only [Cleanup.step] at h
      split at h
      case h_2 => cases h
      rename_i job origin hworker
      split at h
      · cases h
      rename_i saved store hsave
      obtain ⟨rfl, -, -⟩ := saveJob_eq_ok hsave
      have hcreated := hinv.create hworker token (hadmits job origin hworker)
      cases reply <;> cases h
      · rw [Cleanup.setWorker, store_reportStartedIteration, creations_reportStartedIteration]
          at hwindowed
        exact ((hcreated hwindowed).reportStartedIteration List.mem_cons_self origin).setWorker w
          trivial
      · exact (hcreated hwindowed).setWorker w trivial
      · exact hcreated hwindowed
  | save job token =>
      obtain ⟨hsaved, rfl⟩ := Cleanup.step_save h
      exact hinv.resave token hsaved hwindowed
  | receive i report =>
      rw [Cleanup.step] at h
      split at h <;> rename_i hcondition
      · cases h
        exact hinv.deleteIteration hcondition.1
      · cases h
  | drop i report =>
      cases h
      refine hinv.setCleaner i ?_ (hinv.handling i) (hinv.passes i)
      exact fun report' hreport' => hinv.reports i report' (List.mem_of_mem_erase hreport')
  | answerReport i answer => exact hinv.answerReport h
  | find i provider =>
      simp only [Cleanup.step] at h
      split at h <;> cases h
      exact hinv.setCleaner i (hinv.reports i) (hinv.handling i) (hinv.findTail hadmits _ _)
  | list i provider =>
      simp only [Cleanup.step] at h
      split at h <;> cases h
      rename_i hpass
      have hlisting := hinv.passes i
      rw [hpass] at hlisting
      have hlisted := passHolds_listTail (fleet.maxAttempts i) provider hlisting
      refine CleanupInv.send ?_ (requestHolds_deletion hlisted)
      exact hinv.setCleaner i (hinv.reports i) (hinv.handling i) hlisted
  | answerTail i answer =>
      simp only [Cleanup.step] at h
      split at h
      · cases h
        exact hinv.setCleaner i (hinv.reports i) (hinv.handling i) trivial
      · rename_i request jobCodes left e hpass
        cases h
        have hdeleting := hinv.passes i
        rw [hpass] at hdeleting
        have hfailed : PassHolds fleet s.creations code i
            (JobCleaner.afterFailure (fleet.maxAttempts i) e jobCodes
              (.deleting request jobCodes) left) :=
          passHolds_afterFailure fun _ => hdeleting
        refine CleanupInv.send ?_ (requestHolds_deletion hfailed)
        exact hinv.setCleaner i (hinv.reports i) (hinv.handling i) hfailed
      · cases h
  | delete i jobCode n =>
      rw [Cleanup.step] at h
      split at h <;> cases h
      exact hinv.delete _ hwindowed
  | stop i =>
      cases h
      exact hinv.setCleaner i (by simp) (fun request left hnone => by cases hnone) trivial

end Actions

/-! ## Every run -/

/-- The iteration is the newest one stored of the job. -/
def NewestSaved (paths : JobPaths) (store : ObjectStore) (code : String) (n : Nat) : Prop :=
  SavedFor paths store.contents code n ∧ ∀ m, SavedFor paths store.contents code m → m ≤ n

section Runs

variable {fleet : Fleet} {details code : String} {size : Nat} {s s' : Cleanup}

/-- So the invariant holds in every run. -/
theorem reachable_cleanupInv
    (hleast : ∀ i jobDef, (fleet.registries i).jobsByCode.get code = some jobDef →
      size ≤ jobDef.iterationRetention)
    (h : ReachableUnder (Cleanup.step fleet) (Cleanup.Admits code) (.init fleet details) s) :
    CleanupInv fleet size code s :=
  h.invariant (cleanupInv_init details) fun _ _ _ hinv hadmits hstep =>
    hinv.step hleast hadmits hstep

/-- Whatever was created, the newest stored iteration is no earlier. -/
theorem CleanupInv.newest (hinv : CleanupInv fleet size code s) (hsize : 0 < size) {n : Nat}
    (hn : (code, n) ∈ s.creations) :
    ∃ newest, NewestSaved fleet.paths s.store code newest ∧
      ∀ m, (code, m) ∈ s.creations → m ≤ newest := by
  obtain ⟨newest, hnewest, hlatest⟩ := hinv.windowed.newest hsize (mem_createdOf.mpr hn)
  exact ⟨newest, hnewest, fun m hm => hlatest m (mem_createdOf.mpr hm)⟩

/-- What lies in the window of the newest iteration stays. -/
theorem CleanupInv.saved_step (hinv : CleanupInv fleet size code s)
    (hleast : ∀ i jobDef, (fleet.registries i).jobsByCode.get code = some jobDef →
      size ≤ jobDef.iterationRetention) (hsize : 0 < size) {a : CleanupAction}
    (h : s.step fleet a = some s') {newest n : Nat}
    (hnewest : NewestSaved fleet.paths s.store code newest)
    (hsaved : SavedFor fleet.paths s.store.contents code n) (hin : newest < n + size) :
    SavedFor fleet.paths s'.store.contents code n := by
  have hkept : n ∈ (windowOf fleet.paths s'.store s'.creations code).stored := by
    rcases hinv.window_step hleast h with hsame | hstep
    · rw [hsame]
      exact hsaved
    · generalize windowOf fleet.paths s'.store s'.creations code = window at hstep
      cases hstep with
      | create _ _ => exact Set.mem_insert_of_mem _ hsaved
      | @delete m hbehind =>
          refine ⟨hsaved, ?_⟩
          rintro rfl
          obtain ⟨k, hk, hle⟩ := hbehind
          have := hinv.windowed.le_of_isNewest hsize hnewest hk
          omega
  exact hkept

/-- A second creation of an iteration comes after more creations than the window holds. -/
theorem CleanupInv.recreated (hinv : CleanupInv fleet size code s) (hsize : 0 < size)
    {w : Uuid} {token : String} {reply : WriteReply} {job : Job} {origin : JobRead}
    (h : s.step fleet (.put w token reply) = some s')
    (hworker : s.workers w = .creating job (some origin)) (hcode : job.code = code)
    (hnewest : NewestSaved fleet.paths origin.store code origin.job.iterNum)
    (hagain : (code, job.iterNum) ∈ s.creations) :
    job.iterNum = origin.job.iterNum + 1 ∧
      ∃ between, s.creations = between ++ origin.creations ∧
        size < (createdOf between code).length := by
  have hphase := hinv.workers w
  rw [hworker] at hphase
  obtain ⟨hversion, -, -, horigin⟩ := hphase
  obtain ⟨⟨⟨between, hbetween⟩, hwindowed⟩, -, hnext⟩ := horigin origin rfl
  refine ⟨hnext, between, hbetween.symm, ?_⟩
  have hbefore : ∀ m ∈ createdOf origin.creations code, m ≤ origin.job.iterNum :=
    fun m hm => hwindowed.le_of_isNewest hsize hnewest hm
  have hcreated : (windowOf fleet.paths s.store s.creations code).created =
      createdOf between code ++ createdOf origin.creations code := by
    simp [windowOf, createdOf, ← hbetween]
  obtain ⟨job', origin', hworker', habsent, -⟩ := Cleanup.step_put h
  rw [hworker] at hworker'
  cases hworker'
  subst hcode
  rw [hnext] at hagain habsent
  refine hinv.windowed.recreated hcreated hbefore (mem_createdOf.mpr hagain) ?_
  intro hstored
  obtain ⟨-, object, hobject⟩ := savedFor_iff.mp hstored
  rw [habsent hversion] at hobject
  cases hobject

/-- Cleanup never reaches the live tail of a job. -/
theorem cleanup_spares_live_tail {least : Nat}
    (hretention : ∀ i jobDef, (fleet.registries i).jobsByCode.get code = some jobDef →
      5 ≤ jobDef.iterationRetention)
    (hleast : IsLeast {r | ∃ i jobDef, (fleet.registries i).jobsByCode.get code = some jobDef ∧
      jobDef.iterationRetention = r} least)
    (h : ReachableUnder (Cleanup.step fleet) (Cleanup.Admits code) (.init fleet details) s)
    {a : CleanupAction} (hstep : s.step fleet a = some s') :
    (∀ i n, a = .delete i code n → ∃ newest jobDef,
      NewestSaved fleet.paths s.store code newest ∧
      (fleet.registries i).jobsByCode.get code = some jobDef ∧
      n + jobDef.iterationRetention ≤ newest) ∧
    (∀ newest n, NewestSaved fleet.paths s.store code newest →
      SavedFor fleet.paths s.store.contents code n → newest < n + least →
      SavedFor fleet.paths s'.store.contents code n) ∧
    (∀ n, (code, n) ∈ s.creations → ∃ newest, NewestSaved fleet.paths s.store code newest ∧
      n ≤ newest ∧ SavedFor fleet.paths s'.store.contents code newest) ∧
    ∀ w token reply job origin, a = .put w token reply →
      s.workers w = .creating job (some origin) → job.code = code →
      NewestSaved fleet.paths origin.store code origin.job.iterNum →
      (code, job.iterNum) ∈ s.creations →
      job.iterNum = origin.job.iterNum + 1 ∧
        ∃ between, s.creations = between ++ origin.creations ∧
          least < (createdOf between code).length := by
  obtain ⟨⟨i₀, jobDef₀, hget₀, hsize₀⟩, hlower⟩ := hleast
  have hsmallest : ∀ i jobDef, (fleet.registries i).jobsByCode.get code = some jobDef →
      least ≤ jobDef.iterationRetention :=
    fun i jobDef hget => hlower ⟨i, jobDef, hget, rfl⟩
  have hsize : 0 < least := by
    have := hretention i₀ jobDef₀ hget₀
    omega
  have hinv := reachable_cleanupInv hsmallest h
  refine ⟨?_, ?_, ?_, ?_⟩
  · rintro i n rfl
    obtain ⟨request, hrequest, rfl, hcode, hn, -⟩ := Cleanup.step_delete hstep
    obtain ⟨jobDef, hget, m, hm, hle⟩ := (hinv.requests request hrequest n hn).2 hcode
    obtain ⟨newest, hnewest, hlatest⟩ := hinv.newest hsize hm
    exact ⟨newest, jobDef, hnewest, hget, hle.trans (hlatest m hm)⟩
  · intro newest n hnewest hsaved hin
    exact hinv.saved_step hsmallest hsize hstep hnewest hsaved hin
  · intro n hn
    obtain ⟨newest, hnewest, hlatest⟩ := hinv.newest hsize hn
    refine ⟨newest, hnewest, hlatest n hn, ?_⟩
    exact hinv.saved_step hsmallest hsize hstep hnewest hnewest.1 (by omega)
  · rintro w token reply job origin rfl hworker hcode hnewest hagain
    exact hinv.recreated hsize hstep hworker hcode hnewest hagain

end Runs

/-! ## A worker that lags behind -/

/-- A job whose last five iterations are kept. -/
def narrowDefinition : JobDefinition := { soloDefinition "a" with iterationRetention := 5 }

theorem narrowDefinition_accepted : narrowDefinition.Accepted :=
  .retention (soloDefinition_accepted "a")
    (show (soloDefinition "a").withIterationRetention 5 = .ok narrowDefinition from rfl)

/-- One instance with that job. -/
def narrowFleet (registry : JobRegistry) : Fleet where
  paths := ⟨"jobs", .json⟩
  registries := fun _ => registry
  maxAttempts := fun _ => 3
  home := fun _ => 0

/-- The state an iteration is closed with. -/
def closedIteration (n : Nat) : Job where
  id := 900
  code := "a"
  iterNum := n
  status := .completed
  tasksById := .empty
  updatedByWorkerId := 101
  startedAt := 0
  runningAt := none
  completedAt := none
  nextStartAt := none
  metadata := []
  version := "open"
  maxIterations := none
  iterationInterval := none
  taskLimits := .default

/-- A worker creates an iteration it has seen the predecessor of, and closes it. -/
def passIteration (n : Nat) : List CleanupAction :=
  [.prepare 101 900 [n] 0, .put 101 "open" .delivered, .save (closedIteration n) "closed"]

/-- Another worker reads the first iteration while it is the newest, and goes on only when the
seventh one was created and the second one deleted. -/
def laggingActions : List CleanupAction :=
  .readNothing 101 "a" (onePageProvider []) :: passIteration 1 ++
    .read 102 ⟨"a", 1, "closed"⟩ ::
    [1, 2, 3, 4, 5, 6].flatMap (fun n => .read 101 ⟨"a", n, "closed"⟩ :: passIteration (n + 1)) ++
    [.receive 0 ⟨"a", 7⟩, .delete 0 "a" 2, .prepare 102 900 [8] 0]

/-- Whether an action other than a look for the newest iteration is admitted. -/
def Cleanup.admitsUnlisted (jobCode : String) (s : Cleanup) : CleanupAction → Bool
  | .find _ _ => false
  | .put w _ _ =>
      match s.workers w with
      | .creating job _ => ¬JobPaths.Extends jobCode job.code
      | _ => true
  | _ => true

theorem admits_of_admitsUnlisted {jobCode : String} {s : Cleanup} {a : CleanupAction}
    (h : s.admitsUnlisted jobCode a = true) : s.Admits jobCode a := by
  cases a with
  | find i provider => cases h
  | put w token reply =>
      intro job origin hworker
      rw [Cleanup.admitsUnlisted, hworker] at h
      exact of_decide_eq_true h
  | _ => trivial

/-- The registry of the job and the state its lagging worker acts in. -/
def runLagging : Option (JobRegistry × Cleanup) := do
  let registry ← (JobRegistry.new [narrowDefinition]).toOption
  let s ← runAdmitted (Cleanup.step (narrowFleet registry)) (Cleanup.admitsUnlisted "a")
    (.init (narrowFleet registry) "refused") laggingActions
  return (registry, s)

theorem exists_of_runLagging {registry : JobRegistry} {s : Cleanup}
    (h : runLagging = some (registry, s)) :
    JobRegistry.new [narrowDefinition] = .ok registry ∧
      ReachableUnder (Cleanup.step (narrowFleet registry)) (Cleanup.Admits "a")
        (.init (narrowFleet registry) "refused") s := by
  simp only [runLagging, Option.bind_eq_bind, Option.bind_eq_some_iff] at h
  obtain ⟨registry', hregistry, s', hrun, hpair⟩ := h
  cases hpair
  refine ⟨toOption_eq_some.mp hregistry, ?_⟩
  exact (reachableUnder_of_runAdmitted .init hrun).weaken fun _ _ => admits_of_admitsUnlisted

/-- The second worker is about to create an iteration that was created before, prepared on what
it read when the first iteration was the only one. -/
def createsAgain : JobRegistry × Cleanup → Bool
  | (registry, s) =>
      (registry.jobsByCode.get "a").isSome &&
      (Cleanup.step (narrowFleet registry) s (.put 102 "open" .delivered)).isSome &&
      match s.workers 102 with
      | .creating job (some origin) =>
          job.code = "a" && s.creations.contains ("a", job.iterNum) &&
            origin.job.iterNum = 1 && origin.creations = [("a", 1)] &&
            (origin.store.objects
              (JobPaths.buildJobIterationPath ⟨"jobs", .json⟩ "a" 1)).isSome
      | _ => false

/-- The worker creates the second iteration again, with six creations after its read. -/
theorem lagging_creation_outlasts_window :
    ∃ registry s s' job origin, runLagging = some (registry, s) ∧
      s.workers 102 = .creating job (some origin) ∧
      Cleanup.step (narrowFleet registry) s (.put 102 "open" .delivered) = some s' ∧
      NewestSaved ⟨"jobs", .json⟩ origin.store "a" origin.job.iterNum ∧
      (∃ between, s.creations = between ++ origin.creations ∧
        5 < (createdOf between "a").length) := by
  have hruns : runLagging.any createsAgain = true := by decide +kernel
  obtain ⟨⟨registry, s⟩, hrun, hcheck⟩ := (Option.any_eq_true _ _).mp hruns
  obtain ⟨hregistry, hreach⟩ := exists_of_runLagging hrun
  simp only [createsAgain, Bool.and_eq_true] at hcheck
  obtain ⟨⟨hget, hput⟩, hworker⟩ := hcheck
  obtain ⟨jobDef, hget⟩ := Option.isSome_iff_exists.mp hget
  obtain ⟨s', hput⟩ := Option.isSome_iff_exists.mp hput
  split at hworker
  case h_2 => cases hworker
  rename_i job origin hphase
  simp only [Bool.and_eq_true, decide_eq_true_eq, List.contains_iff_mem] at hworker
  obtain ⟨⟨⟨⟨hcode, hmade⟩, hiter⟩, hcreations⟩, hstored⟩ := hworker
  -- every instance has the one definition, with a retention of five
  have hdef : ∀ jobDef, registry.jobsByCode.get "a" = some jobDef → jobDef = narrowDefinition :=
    fun jobDef hget => List.mem_singleton.mp (JobRegistry.mem_of_get_new hregistry hget)
  have hretention : ∀ (i : Nat) jobDef,
      ((narrowFleet registry).registries i).jobsByCode.get "a" = some jobDef →
        5 ≤ jobDef.iterationRetention := by
    intro i jobDef hget
    rw [hdef jobDef hget]
    exact narrowDefinition_accepted.minIterationRetention_le
  have hleast : IsLeast {r | ∃ (i : Nat) (jobDef : JobDefinition),
      ((narrowFleet registry).registries i).jobsByCode.get "a" = some jobDef ∧
        jobDef.iterationRetention = r} 5 := by
    refine ⟨⟨0, jobDef, hget, by rw [hdef jobDef hget]; rfl⟩, ?_⟩
    rintro r ⟨i, jobDef, hget, rfl⟩
    exact hretention i jobDef hget
  -- the read came when the first iteration was the only one created
  have hnewest : NewestSaved ⟨"jobs", .json⟩ origin.store "a" origin.job.iterNum := by
    have hinv : CleanupInv (narrowFleet registry) 5 "a" s :=
      reachable_cleanupInv hretention hreach
    have hholds := hinv.workers 102
    rw [hphase] at hholds
    have hwindowed := (hholds.2.2.2 origin rfl).1.2
    rw [hiter]
    refine ⟨savedFor_iff.mpr ⟨by decide, Option.isSome_iff_exists.mp hstored⟩, fun m hm => ?_⟩
    have honly := mem_createdOf.mp (hwindowed.created m hm)
    rw [hcreations, List.mem_singleton] at honly
    exact (Prod.mk.inj honly).2.le
  obtain ⟨-, -, -, hagain⟩ := cleanup_spares_live_tail hretention hleast hreach hput
  exact ⟨registry, s, s', job, origin, hrun, hphase, hput, hnewest,
    (hagain 102 "open" .delivered job origin rfl hphase hcode hnewest hmade).2⟩

end JobManager
