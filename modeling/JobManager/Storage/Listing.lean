import JobManager.Core.Registry
import JobManager.Storage.Paths

/-!
# Finding the states of a job in an object store

The newest iteration of a job is the first object of an ascending listing of the job's
directory; the iterations the cleanup may delete are read from a listing of the same
directory, page by page.  A provider is known only through what it answers: it lists the
stored keys under a directory in ascending byte order, in pages linked by cursors.

Main results:

- Theorem {lit}`findJobMeta_of_separated`: where no stored code extends that of the job,
  the newest stored iteration of the job is found.
- Theorem {lit}`jobs_separated_iff`: the jobs of a registry do not leak into each other
  exactly when no code extends another by a slash.
-/

namespace JobManager

/-! ## Providers -/

/-- One state object a listing named. -/
structure ListedObject where
  key : String
  version : Option String
deriving DecidableEq

/-- One page of a listing. -/
structure ListedPage where
  objects : List ListedObject
  nextCursor : Option String
deriving DecidableEq

/-- What one request of a listing asks for. -/
structure ListingRequest where
  directory : String
  startKey : Option String
  pageSize : Nat
  cursor : Option String
deriving DecidableEq

/-- Where a provider begins a listing relative to the boundary key it was given. -/
inductive ListingStartBound where
  | inclusive
  | exclusive
deriving DecidableEq

/-- One provider, in the operations a listing is made with. -/
structure Backend where
  listingStartBound : ListingStartBound
  listPageSize : Nat
  listObjects : ListingRequest → Except StorageError ListedPage

/-- Which iteration of a job is stored under which version. -/
structure JobMeta where
  code : String
  iterNum : Nat
  version : String
deriving DecidableEq

/-! ## Listings -/

/-- What a read of a job starts from: the newest stored iteration. -/
def findJobMeta (paths : JobPaths) (store : Backend) (jobCode : String) :
    Except StorageError JobMeta := do
  let listedPage ← store.listObjects
    { directory := paths.buildJobPrefix jobCode, startKey := none, pageSize := 1, cursor := none }
  match listedPage.objects with
  | [] => .error (.notFound "No job state objects found for requested job")
  | newestObject :: _ =>
      match newestObject.version with
      -- The job is stored, so this must not reach the caller as an absence.
      | none =>
          .error (.backend s!"Listing named job state object {newestObject.key} without a version")
      | some version => do
          let iterNum ← paths.parseIterNum newestObject.key
          return { code := jobCode, iterNum := iterNum, version := version }

/-- Key the listing of a job's outdated iterations starts at. -/
def buildListingStartKey (paths : JobPaths) (store : Backend) (jobCode : String)
    (retentionBoundary : Nat) : Except StorageError String :=
  match store.listingStartBound with
  | .inclusive => .ok (paths.buildJobIterationPath jobCode retentionBoundary)
  | .exclusive =>
      if retentionBoundary + 1 ≤ u64Max then
        .ok (paths.buildJobIterationPath jobCode (retentionBoundary + 1))
      else .error (.other s!"Retention boundary {retentionBoundary} has no next iteration")

/-- The iterations at or below the boundary among the listed objects. -/
def outdatedIterNums (paths : JobPaths) (retentionBoundary : Nat) (objects : List ListedObject) :
    List Nat :=
  objects.filterMap fun object =>
    match paths.parseIterNum object.key with
    | .ok iterNum => if iterNum ≤ retentionBoundary then some iterNum else none
    | .error _ => none

/-- Read the pages of a listing to its end. -/
def listPages (paths : JobPaths) (store : Backend) (retentionBoundary : Nat) :
    Nat → ListingRequest → List Nat → Option (Except StorageError (List Nat))
  | 0, _, _ => none
  | fuel + 1, request, iterNums =>
      match store.listObjects request with
      | .error e => some (.error e)
      | .ok listedPage =>
          let iterNums := iterNums ++ outdatedIterNums paths retentionBoundary listedPage.objects
          match listedPage.nextCursor with
          | none => some (.ok iterNums)
          | some cursor =>
              listPages paths store retentionBoundary fuel { request with cursor := some cursor }
                iterNums

/-- The iterations of a job at or below the boundary; nothing while the listing has more
pages than {lit}`fuel`. -/
def listJobOutdatedIterations (paths : JobPaths) (store : Backend) (jobCode : String)
    (retentionBoundary fuel : Nat) : Option (Except StorageError (List Nat)) :=
  match buildListingStartKey paths store jobCode retentionBoundary with
  | .error e => some (.error e)
  | .ok startKey =>
      listPages paths store retentionBoundary fuel
        { directory := paths.buildJobPrefix jobCode, startKey := some startKey
          pageSize := store.listPageSize, cursor := none } []

/-! ## What a provider holds and lists -/

/-- The version every stored object is stored under. -/
abbrev Contents := String → Option String

/-- A request is answered with these objects, over all of its pages.  A page that is not the
last one names at least one object. -/
inductive Backend.Delivers (store : Backend) : ListingRequest → List ListedObject → Prop
  | last {request : ListingRequest} {objects : List ListedObject} :
      store.listObjects request = .ok ⟨objects, none⟩ → Delivers store request objects
  | next {request : ListingRequest} {objects rest : List ListedObject} {cursor : String} :
      store.listObjects request = .ok ⟨objects, some cursor⟩ → objects ≠ [] →
      Delivers store { request with cursor := some cursor } rest →
      Delivers store request (objects ++ rest)

/-- A request is answered with these objects over all of its pages, any of which may be
empty. -/
inductive Backend.Pages (store : Backend) : ListingRequest → List ListedObject → Prop
  | last {request : ListingRequest} {objects : List ListedObject} :
      store.listObjects request = .ok ⟨objects, none⟩ → Pages store request objects
  | next {request : ListingRequest} {objects rest : List ListedObject} {cursor : String} :
      store.listObjects request = .ok ⟨objects, some cursor⟩ →
      Pages store { request with cursor := some cursor } rest →
      Pages store request (objects ++ rest)

/-- The key is not before the boundary a listing was asked to start at. -/
def ListingStartBound.Reaches (key : String) : ListingStartBound → Option String → Prop
  | _, none => True
  | .inclusive, some startKey => startKey ≤ key
  | .exclusive, some startKey => startKey < key

/-- The provider lists the stored objects under a directory in ascending byte order, from the
boundary it was given or from earlier. -/
def Backend.Lists (store : Backend) (contents : Contents) : Prop :=
  ∀ request, request.cursor = none → 0 < request.pageSize →
    ∃ listed, store.Delivers request listed ∧
      (listed.map ListedObject.key).Pairwise (· < ·) ∧
      (∀ object ∈ listed, object.version.isSome ∧ contents object.key = object.version ∧
        request.directory.toList <+: object.key.toList) ∧
      ∀ key version, contents key = some version → request.directory.toList <+: key.toList →
        store.listingStartBound.Reaches key request.startKey →
        ⟨key, some version⟩ ∈ listed

namespace Backend

variable {store : Backend} {request : ListingRequest}

theorem Delivers.first_page {listed : List ListedObject} (h : store.Delivers request listed) :
    ∃ page rest, store.listObjects request = .ok page ∧ listed = page.objects ++ rest ∧
      (page.objects = [] → listed = []) := by
  cases h with
  | last h => exact ⟨_, [], h, by simp, by simp⟩
  | next h hne _ => exact ⟨_, _, h, rfl, fun hnil => absurd hnil hne⟩

theorem Delivers.pages {listed : List ListedObject} (h : store.Delivers request listed) :
    store.Pages request listed := by
  induction h with
  | last h => exact .last h
  | next h _ _ ih => exact .next h ih

/-- With fuel for its pages a listing is read to its end, and gives the outdated iterations
it names. -/
theorem Pages.listPages {listed : List ListedObject} (h : store.Pages request listed)
    (paths : JobPaths) (boundary : Nat) (iterNums : List Nat) :
    ∃ pages, ∀ fuel, listPages paths store boundary fuel request iterNums =
      if pages ≤ fuel then some (.ok (iterNums ++ outdatedIterNums paths boundary listed))
      else none := by
  induction h generalizing iterNums with
  | last h =>
      refine ⟨1, fun fuel => ?_⟩
      cases fuel with
      | zero => rfl
      | succ fuel => simp [JobManager.listPages, h]
  | @next request objects rest cursor h _ ih =>
      obtain ⟨pages, hpages⟩ := ih (iterNums ++ outdatedIterNums paths boundary objects)
      refine ⟨pages + 1, fun fuel => ?_⟩
      cases fuel with
      | zero => rfl
      | succ fuel =>
          have happend : outdatedIterNums paths boundary (objects ++ rest) =
              outdatedIterNums paths boundary objects ++ outdatedIterNums paths boundary rest :=
            List.filterMap_append
          simp only [JobManager.listPages, h, hpages, happend, List.append_assoc,
            Nat.add_le_add_iff_right]

/-- Reading a delivered listing to its end is possible, and gives the outdated iterations it
names whatever the fuel. -/
theorem Delivers.listPages {listed : List ListedObject} (h : store.Delivers request listed)
    (paths : JobPaths) (boundary : Nat) (iterNums : List Nat) :
    (∃ fuel, (listPages paths store boundary fuel request iterNums).isSome) ∧
      ∀ fuel answer, listPages paths store boundary fuel request iterNums = some answer →
        answer = .ok (iterNums ++ outdatedIterNums paths boundary listed) := by
  obtain ⟨pages, hpages⟩ := h.pages.listPages paths boundary iterNums
  constructor
  · exact ⟨pages, by simp [hpages]⟩
  · intro fuel answer hanswer
    rw [hpages] at hanswer
    split at hanswer
    · exact (Option.some.inj hanswer).symm
    · cases hanswer

end Backend

/-- A provider that answers every listing with one page of the given objects. -/
def onePageProvider (listed : List ListedObject) : Backend where
  listingStartBound := .inclusive
  listPageSize := 1000
  listObjects := fun request =>
    .ok
      { objects := listed.filter fun object =>
          request.directory.toList <+: object.key.toList ∧
            ∀ startKey ∈ request.startKey, startKey ≤ object.key
        nextCursor := none }

/-- One page of the stored objects in ascending order is a listing of them. -/
theorem onePageProvider_lists {listed : List ListedObject} {contents : Contents}
    (hsorted : (listed.map ListedObject.key).Pairwise (· < ·))
    (hversions : ∀ object ∈ listed, object.version.isSome)
    (hstored : ∀ key version, contents key = some version ↔ ⟨key, some version⟩ ∈ listed) :
    (onePageProvider listed).Lists contents := by
  intro request _ _
  refine ⟨_, .last rfl, ?_, ?_, ?_⟩
  · exact hsorted.sublist (List.filter_sublist.map _)
  · intro object hobject
    obtain ⟨hmem, hasked⟩ := List.mem_filter.mp hobject
    obtain ⟨version, hversion⟩ := Option.isSome_iff_exists.mp (hversions object hmem)
    refine ⟨hversions object hmem, ?_, (of_decide_eq_true hasked).1⟩
    rw [hversion]
    exact (hstored _ _).mpr (hversion ▸ hmem)
  · intro key version hkey hunder hreaches
    refine List.mem_filter.mpr ⟨(hstored key version).mp hkey, decide_eq_true ⟨hunder, ?_⟩⟩
    intro startKey hstart
    rw [hstart] at hreaches
    exact hreaches

/-! ## The states of one job -/

/-- The iteration of the job is stored. -/
def SavedFor (paths : JobPaths) (contents : Contents) (code : String) (n : Nat) : Prop :=
  n ≤ u64Max ∧ (contents (paths.buildJobIterationPath code n)).isSome

/-- Every stored object was written as an iteration of one of the jobs. -/
def WrittenFor (paths : JobPaths) (codes : List String) (contents : Contents) : Prop :=
  ∀ key, (contents key).isSome →
    ∃ code ∈ codes, ∃ n ≤ u64Max, key = paths.buildJobIterationPath code n

/-- Every stored key that lies in the directory of the job and carries a number is the key of
that iteration of the job. -/
def OwnDirectory (paths : JobPaths) (contents : Contents) (code : String) : Prop :=
  ∀ key i, (contents key).isSome → (paths.buildJobPrefix code).toList <+: key.toList →
    paths.parseIterNum key = .ok i → key = paths.buildJobIterationPath code i

section OneJob

variable {paths : JobPaths} {codes : List String} {contents : Contents} {code : String}
  {store : Backend}

/-- Where no code extends that of the job, its directory holds its own states only. -/
theorem ownDirectory_of_separated (hwritten : WrittenFor paths codes contents)
    (hseparated : ∀ code' ∈ codes, ¬JobPaths.Extends code code') :
    OwnDirectory paths contents code := by
  intro key i hkey hunder hparse
  obtain ⟨code', hcode', n, hn, rfl⟩ := hwritten key hkey
  rcases (paths.under_buildJobPrefix code n).mp hunder with rfl | hextends
  · rw [paths.parseIterNum_buildJobIterationPath code hn] at hparse
    rw [Except.ok.inj hparse]
  · exact absurd hextends (hseparated code' hcode')

/-- A key in the directory of the job is the key of a stored iteration of the job. -/
theorem OwnDirectory.saved (howns : OwnDirectory paths contents code)
    (hwritten : WrittenFor paths codes contents) {key : String} (hkey : (contents key).isSome)
    (hunder : (paths.buildJobPrefix code).toList <+: key.toList) :
    ∃ n, SavedFor paths contents code n ∧ key = paths.buildJobIterationPath code n ∧
      paths.parseIterNum key = .ok n := by
  obtain ⟨code', -, n, hn, hkey'⟩ := hwritten key hkey
  have hparse : paths.parseIterNum key = .ok n := by
    rw [hkey']
    exact paths.parseIterNum_buildJobIterationPath code' hn
  have hown := howns key n hkey hunder hparse
  exact ⟨n, ⟨hn, hown ▸ hkey⟩, hown, hparse⟩

/-- A read of a job starts from the first key of its directory. -/
theorem findJobMeta_first (hlists : store.Lists contents) :
    (findJobMeta paths store code =
        .error (.notFound "No job state objects found for requested job") ∧
      ∀ key, (contents key).isSome → ¬(paths.buildJobPrefix code).toList <+: key.toList) ∨
      ∃ key version, contents key = some version ∧
        (paths.buildJobPrefix code).toList <+: key.toList ∧
        (∀ key', (contents key').isSome → (paths.buildJobPrefix code).toList <+: key'.toList →
          key ≤ key') ∧
        findJobMeta paths store code =
          (paths.parseIterNum key).map fun n => ⟨code, n, version⟩ := by
  obtain ⟨listed, hdelivers, hsorted, hsound, hcomplete⟩ := hlists
    { directory := paths.buildJobPrefix code, startKey := none, pageSize := 1, cursor := none }
    rfl Nat.one_pos
  obtain ⟨page, rest, hpage, hlisted, hempty⟩ := hdelivers.first_page
  have hmem : ∀ key, (contents key).isSome → (paths.buildJobPrefix code).toList <+: key.toList →
      key ∈ listed.map ListedObject.key := by
    intro key hkey hunder
    obtain ⟨version, hversion⟩ := Option.isSome_iff_exists.mp hkey
    exact List.mem_map.mpr ⟨_, hcomplete _ version hversion hunder trivial, rfl⟩
  cases hobjects : page.objects with
  | nil =>
      left
      refine ⟨by simp only [findJobMeta, hpage, bind, Except.bind, hobjects], ?_⟩
      intro key hkey hunder
      have hin := hmem key hkey hunder
      rw [hempty hobjects] at hin
      cases hin
  | cons newest others =>
      right
      have hfirst : listed = newest :: (others ++ rest) := by
        rw [hlisted, hobjects, List.cons_append]
      obtain ⟨hversion, hstored, hunder⟩ := hsound newest (by simp [hfirst])
      obtain ⟨version, hversion⟩ := Option.isSome_iff_exists.mp hversion
      refine ⟨newest.key, version, hstored.trans hversion, hunder, ?_, ?_⟩
      · -- the listing ascends, so no other key of the directory comes before its first
        intro key hkey hbelow
        have hin := hmem key hkey hbelow
        rw [hfirst, List.map_cons] at hin hsorted
        rcases List.mem_cons.mp hin with heq | htail
        · exact le_of_eq heq.symm
        · exact le_of_lt ((List.pairwise_cons.mp hsorted).1 _ htail)
      · simp only [findJobMeta, hpage, bind, Except.bind, hobjects, hversion]
        cases paths.parseIterNum newest.key <;> rfl

/-- The newest stored iteration of a job is found, and nothing is found where nothing is
stored. -/
theorem findJobMeta_of_separated (howns : OwnDirectory paths contents code)
    (hwritten : WrittenFor paths codes contents) (hlists : store.Lists contents) :
    (∃ message, findJobMeta paths store code = .error (.notFound message) ∧
        ∀ n, ¬SavedFor paths contents code n) ∨
      ∃ jobMeta, findJobMeta paths store code = .ok jobMeta ∧ jobMeta.code = code ∧
        SavedFor paths contents code jobMeta.iterNum ∧
        ∀ n, SavedFor paths contents code n → n ≤ jobMeta.iterNum := by
  have hown : ∀ n, (paths.buildJobPrefix code).toList <+:
      (paths.buildJobIterationPath code n).toList :=
    fun n => (paths.under_buildJobPrefix code n).mpr (Or.inl rfl)
  rcases findJobMeta_first hlists with
    ⟨hfind, hnothing⟩ | ⟨key, version, hkey, hunder, hleast, hfind⟩
  · exact Or.inl ⟨_, hfind, fun n hn => hnothing _ hn.2 (hown n)⟩
  · right
    obtain ⟨n, hn, rfl, hparse⟩ := howns.saved hwritten (by simp [hkey]) hunder
    refine ⟨⟨code, n, version⟩, by rw [hfind, hparse]; rfl, rfl, hn, ?_⟩
    -- the first key of the directory is the least one, so its iteration is the latest
    intro m hm
    by_contra hlater
    have hlt := (paths.buildJobIterationPath_lt_iff code hn.1 hm.1).mpr (Nat.lt_of_not_le hlater)
    exact absurd (hleast _ hm.2 (hown m)) (not_le.mpr hlt)

/-- The cleanup listing of a job names stored iterations of that job only. -/
theorem listJobOutdatedIterations_saved (howns : OwnDirectory paths contents code)
    (hwritten : WrittenFor paths codes contents) (hlists : store.Lists contents)
    (hsize : 0 < store.listPageSize) {boundary fuel : Nat} {iterNums : List Nat}
    (h : listJobOutdatedIterations paths store code boundary fuel = some (.ok iterNums)) :
    ∀ i ∈ iterNums, SavedFor paths contents code i := by
  rw [listJobOutdatedIterations] at h
  split at h
  · cases h
  rename_i startKey _
  obtain ⟨listed, hdelivers, -, hsound, -⟩ := hlists
    { directory := paths.buildJobPrefix code, startKey := some startKey
      pageSize := store.listPageSize, cursor := none } rfl hsize
  have hlisted := (hdelivers.listPages paths boundary []).2 fuel _ h
  intro i hi
  rw [Except.ok.inj hlisted, List.nil_append] at hi
  obtain ⟨object, hobject, hoblist⟩ := List.mem_filterMap.mp hi
  obtain ⟨hversion, hstored, hunder⟩ := hsound object hobject
  obtain ⟨n, hn, -, hparse⟩ := howns.saved hwritten (by rw [hstored]; exact hversion) hunder
  simp only [hparse] at hoblist
  split at hoblist
  · cases hoblist
    exact hn
  · cases hoblist

/-- The cleanup listing of a job comes to its end. -/
theorem listJobOutdatedIterations_ends (hlists : store.Lists contents)
    (hsize : 0 < store.listPageSize) {boundary : Nat} (hboundary : boundary < u64Max) :
    ∃ fuel iterNums, listJobOutdatedIterations paths store code boundary fuel =
      some (.ok iterNums) := by
  have hstart : ∃ startKey, buildListingStartKey paths store code boundary = .ok startKey := by
    rw [buildListingStartKey]
    cases store.listingStartBound with
    | inclusive => exact ⟨_, rfl⟩
    | exclusive => exact ⟨_, if_pos hboundary⟩
  obtain ⟨startKey, hstart⟩ := hstart
  obtain ⟨listed, hdelivers, -, -, -⟩ := hlists
    { directory := paths.buildJobPrefix code, startKey := some startKey
      pageSize := store.listPageSize, cursor := none } rfl hsize
  obtain ⟨⟨fuel, hfuel⟩, hanswers⟩ := hdelivers.listPages paths boundary []
  obtain ⟨answer, hanswer⟩ := Option.isSome_iff_exists.mp hfuel
  refine ⟨fuel, outdatedIterNums paths boundary listed, ?_⟩
  rw [listJobOutdatedIterations, hstart]
  simp only [hanswer]
  rw [hanswers fuel answer hanswer, List.nil_append]

end OneJob

/-! ## The jobs of a registry -/

/-- The jobs do not leak into each other: whatever was written for them, the directory of each
holds its own states, its newest iteration is found, and its cleanup listing names its own
iterations. -/
def SeparatesJobs (paths : JobPaths) (codes : List String) : Prop :=
  ∀ contents, WrittenFor paths codes contents → ∀ code ∈ codes,
    OwnDirectory paths contents code ∧
    ∀ store : Backend, store.Lists contents →
      ((∃ message, findJobMeta paths store code = .error (.notFound message)) ↔
        ∀ n, ¬SavedFor paths contents code n) ∧
      (∀ n, SavedFor paths contents code n →
        ∃ jobMeta, findJobMeta paths store code = .ok jobMeta ∧ jobMeta.code = code ∧
          SavedFor paths contents code jobMeta.iterNum ∧
          ∀ m, SavedFor paths contents code m → m ≤ jobMeta.iterNum) ∧
      (0 < store.listPageSize → ∀ boundary,
        (boundary < u64Max → ∃ fuel iterNums,
          listJobOutdatedIterations paths store code boundary fuel = some (.ok iterNums)) ∧
        ∀ fuel iterNums,
          listJobOutdatedIterations paths store code boundary fuel = some (.ok iterNums) →
          ∀ i ∈ iterNums, SavedFor paths contents code i)

theorem separatesJobs_of_not_extends {paths : JobPaths} {codes : List String}
    (h : ∀ code ∈ codes, ∀ code' ∈ codes, ¬JobPaths.Extends code code') :
    SeparatesJobs paths codes := by
  intro contents hwritten code hcode
  have howns := ownDirectory_of_separated hwritten (h code hcode)
  refine ⟨howns, fun store hlists => ?_⟩
  have hfind := findJobMeta_of_separated howns hwritten hlists
  refine ⟨?_, ?_, ?_⟩
  · constructor
    · rintro ⟨message, hnone⟩
      rcases hfind with ⟨-, -, hnothing⟩ | ⟨jobMeta, hfound, -⟩
      · exact hnothing
      · rw [hfound] at hnone
        cases hnone
    · intro hnothing
      rcases hfind with ⟨message, hnone, -⟩ | ⟨jobMeta, -, -, hsaved, -⟩
      · exact ⟨message, hnone⟩
      · exact absurd hsaved (hnothing _)
  · intro n hn
    rcases hfind with ⟨-, -, hnothing⟩ | hfound
    · exact absurd hn (hnothing n)
    · exact hfound
  · intro hsize boundary
    exact ⟨listJobOutdatedIterations_ends hlists hsize, fun fuel iterNums hlist =>
      listJobOutdatedIterations_saved howns hwritten hlists hsize hlist⟩

/-- No code extends itself by a slash. -/
theorem JobPaths.not_extends_self (code : String) : ¬JobPaths.Extends code code := by
  intro h
  have := h.length_le
  simp at this

/-- A state of a job whose code extends that of another by a slash lies in the directory of
the other. -/
theorem not_ownDirectory_of_extends {paths : JobPaths} {code code' : String}
    (h : JobPaths.Extends code code') {contents : Contents} {n : Nat} (hn : n ≤ u64Max)
    (hsaved : (contents (paths.buildJobIterationPath code' n)).isSome) :
    ¬OwnDirectory paths contents code := by
  intro howns
  have hkey := howns _ n hsaved ((paths.under_buildJobPrefix code n).mpr (Or.inr h))
    (paths.parseIterNum_buildJobIterationPath code' hn)
  have hcode := (paths.buildJobIterationPath_inj code' hn hn hkey).1
  rw [hcode] at h
  exact JobPaths.not_extends_self _ h

/-- The jobs of a registry do not leak into each other in the object store exactly when no
code of the registry extends another by a slash. -/
theorem jobs_separated_iff (paths : JobPaths) (registry : JobRegistry) :
    SeparatesJobs paths registry.listJobs ↔
      ∀ code ∈ registry.listJobs, ∀ code' ∈ registry.listJobs, ¬JobPaths.Extends code code' := by
  constructor
  · intro hseparates code hcode code' hcode' hextends
    let contents : Contents := fun key =>
      if key = paths.buildJobIterationPath code' 1 then some "v1" else none
    have hone : 1 ≤ u64Max := by decide
    have hwritten : WrittenFor paths registry.listJobs contents := by
      intro key hkey
      by_cases heq : key = paths.buildJobIterationPath code' 1
      · exact ⟨code', hcode', 1, hone, heq⟩
      · simp [contents, heq] at hkey
    exact not_ownDirectory_of_extends hextends hone (by simp [contents])
      (hseparates contents hwritten code hcode).1
  · exact separatesJobs_of_not_extends

/-! ## A code inside another -/

/-- A registry of two jobs of one task each. -/
def twoJobRegistry (code code' : String) : Except Error JobRegistry := do
  let jobDef ← JobDefinition.new 1 code [(TaskDefinition.new "t" 1000000, 7)] [] [] .default
  let jobDef' ← JobDefinition.new 2 code' [(TaskDefinition.new "t" 1000000, 8)] [] [] .default
  JobRegistry.new [jobDef, jobDef']

/-- A store that holds one object. -/
def soleContents (key : String) : Contents := fun k => if k = key then some "v1" else none

/-- A provider of a store that holds one object. -/
def soleObjectStore (key : String) : Backend where
  listingStartBound := .inclusive
  listPageSize := 1000
  listObjects := fun request =>
    .ok
      { objects :=
          if request.directory.toList <+: key.toList ∧ ∀ startKey ∈ request.startKey, startKey ≤ key
          then [⟨key, some "v1"⟩] else []
        nextCursor := none }

theorem soleObjectStore_eq (key : String) :
    soleObjectStore key = onePageProvider [⟨key, some "v1"⟩] := by
  simp only [soleObjectStore, onePageProvider, List.filter_cons, List.filter_nil, decide_eq_true_eq]

theorem soleObjectStore_lists (key : String) : (soleObjectStore key).Lists (soleContents key) := by
  rw [soleObjectStore_eq]
  apply onePageProvider_lists
  · simp
  · simp
  · intro k version
    by_cases hk : k = key
    · simp [soleContents, hk, eq_comm]
    · simp [soleContents, hk]

/-- Two jobs under the codes `a` and `a/b` are accepted together, and with the first iteration
of the second as the only stored object the read of the first answers with that iteration. -/
theorem nested_codes_leak :
    (∃ registry, twoJobRegistry "a" "a/b" = .ok registry ∧
      ¬SeparatesJobs ⟨"jobs", .json⟩ registry.listJobs) ∧
    (soleObjectStore "jobs/a/b/state-18446744073709551614.json").Lists
      (soleContents "jobs/a/b/state-18446744073709551614.json") ∧
    findJobMeta ⟨"jobs", .json⟩ (soleObjectStore "jobs/a/b/state-18446744073709551614.json") "a" =
      .ok ⟨"a", 1, "v1"⟩ ∧
    JobPaths.buildJobIterationPath ⟨"jobs", .json⟩ "a/b" 1 =
      "jobs/a/b/state-18446744073709551614.json" ∧
    ∀ n, ¬SavedFor ⟨"jobs", .json⟩ (soleContents "jobs/a/b/state-18446744073709551614.json")
      "a" n := by
  have hpath : JobPaths.buildJobIterationPath ⟨"jobs", .json⟩ "a/b" 1 =
      "jobs/a/b/state-18446744073709551614.json" := by
    decide +kernel
  have hone : 1 ≤ u64Max := by decide
  refine ⟨?_, soleObjectStore_lists _, by decide +kernel, hpath, ?_⟩
  · have hnew : (twoJobRegistry "a" "a/b").toOption.map JobRegistry.listJobs =
        some ["a", "a/b"] := by
      decide +kernel
    rw [Option.map_eq_some_iff] at hnew
    obtain ⟨registry, hregistry, hcodes⟩ := hnew
    refine ⟨registry, toOption_eq_some.mp hregistry, ?_⟩
    intro hseparates
    have hwritten : WrittenFor ⟨"jobs", .json⟩ registry.listJobs
        (soleContents "jobs/a/b/state-18446744073709551614.json") := by
      intro key hkey
      by_cases heq : key = "jobs/a/b/state-18446744073709551614.json"
      · exact ⟨"a/b", by simp [hcodes], 1, hone, heq.trans hpath.symm⟩
      · simp [soleContents, heq] at hkey
    have hextends : JobPaths.Extends "a" "a/b" := by decide +kernel
    exact not_ownDirectory_of_extends hextends hone
      (by rw [hpath]; simp [soleContents])
      (hseparates _ hwritten "a" (by simp [hcodes])).1
  · intro n hn
    by_cases heq : JobPaths.buildJobIterationPath ⟨"jobs", .json⟩ "a" n =
        "jobs/a/b/state-18446744073709551614.json"
    · rw [← hpath] at heq
      exact absurd (JobPaths.buildJobIterationPath_inj _ _ hone hn.1 heq).1 (by decide)
    · have := hn.2
      simp [soleContents, heq] at this

end JobManager
