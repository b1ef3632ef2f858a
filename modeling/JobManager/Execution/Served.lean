import JobManager.Execution.Reconciliation

/-!
# A pass whose requests are served

Where the provider serves every request of a cleaner, and the directories of the jobs hold what
the cleaner's own codec wrote, no call of the cleaner fails of itself: a job is found or said not
to be there, its tail is listed and deleted at the first attempt, whatever others do meanwhile.

Main results:

- Theorem {lit}`JobCleaner.deleteOutdatedIterations_served`: the cleanup of one job.
- Theorem {lit}`served_pass_clears`: the pass over the registered jobs.
-/

namespace JobManager

/-- A request the provider serves: it is not cancelled, a listing of the given keys is answered
and names every object with its version, and a deletion is done. -/
structure Incident.Served {client : DeleteClient} (keys : String → Prop)
    (incident : Incident client) : Prop where
  runs : incident.isCancelled = false
  lists : ∀ {store : ObjectStore} (request : ListingRequest),
    (∀ key, (store.contents key).isSome → keys key) →
      ∃ page, incident.lists store request = .ok page ∧
        ∀ object ∈ page.objects, object.version ≠ none
  deletes : ∀ request, client.isDone request incident.answer = true

/-- What the cleaner's own codec wrote is all there is under the prefix of state objects. -/
def KeySpace.WrittenByOwn {paths : JobPaths} {codes : List String} (keys : KeySpace paths codes) :
    Prop :=
  ∀ key, keys.Holds key → paths.pathPrefix.toList ++ ['/'] <+: key.toList →
    ∃ code, ∃ n ≤ u64Max, key = paths.buildJobIterationPath code n

namespace JobCleaner

section Calls

variable {setup : CleanerSetup} {codes : List String} {keys : KeySpace setup.paths codes}
  {after : String → String → Prop} {code : String}

/-- All requests to come are served, and listings are honest about what is stored. -/
structure AllServed (keys : KeySpace setup.paths codes) (after : String → String → Prop)
    (s : Sweep setup.client) : Prop where
  sound : Sweep.Sound setup keys after s
  served : ∀ incident ∈ s.incidents, incident.Served keys.Holds

/-- What others do leaves the requests to come served. -/
theorem stable_allServed {R : String → Prop} :
    Sweep.Stable R (AllServed keys after : Sweep setup.client → Prop) where
  arrive hs h := ⟨Sweep.stable_sound.arrive (R := R) hs h.sound,
    fun _ hmem => h.served _ (Sweep.mem_of_tail hs hmem)⟩
  remove hkeys h := ⟨Sweep.stable_sound.remove hkeys h.sound, h.served⟩

/-- A served request to list is answered honestly, with versions. -/
theorem listed_of_served {incident : Incident setup.client} {s : Sweep setup.client}
    (h : AllServed keys after s) (hserved : incident.Served keys.Holds)
    (hlists : ListsHonestly keys.Holds after setup.listingStartBound incident.lists)
    (request : ListingRequest) :
    ∃ page, (setup.backend incident s.store).listObjects request = .ok page ∧
      page.Honest after setup.listingStartBound s.store.contents request ∧
      ∀ object ∈ page.objects, object.version ≠ none := by
  obtain ⟨page, hpage, hversions⟩ := hserved.lists request h.sound.stored
  refine ⟨page, ?_, hlists.page h.sound.stored hpage, hversions⟩
  rw [CleanerSetup.backend, hserved.runs]
  exact hpage

/-- The next request is served. -/
theorem next_served :
    Triple (AllServed keys after) (Sweep.next : CleanerM setup _)
      (fun incident s => AllServed keys after s ∧ incident.Served keys.Holds ∧
        ListsHonestly keys.Holds after setup.listingStartBound incident.lists)
      (fun stop s => AllServed keys after s ∧ Waits stop s) :=
  next_triple (R := fun _ => True) stable_allServed fun _ hs incident hmem =>
    ⟨hs.served incident hmem, hs.sound.lists incident hmem⟩

/-- A job is found at an iteration, or said not to be there. -/
def IsFound (result : Except StorageError JobMeta) : Prop :=
  (∃ jobMeta, result = .ok jobMeta ∧ jobMeta.iterNum ≤ u64Max) ∨
    ∃ details, result = .error (.notFound details)

/-- A served look for the newest iteration finds it, or that there is none. -/
theorem findJobMeta_served {incident : Incident setup.client} {s : Sweep setup.client}
    (hown : keys.WrittenByOwn) (h : AllServed keys after s)
    (hserved : incident.Served keys.Holds)
    (hlists : ListsHonestly keys.Holds after setup.listingStartBound incident.lists) :
    IsFound (findJobMeta setup.paths (setup.backend incident s.store) code) := by
  obtain ⟨page, hpage, hhonest, hversions⟩ := listed_of_served h hserved hlists
    { directory := setup.paths.buildJobPrefix code, startKey := none, pageSize := 1
      cursor := none }
  rw [findJobMeta, hpage]
  simp only [bind, Except.bind]
  cases hobjects : page.objects with
  | nil => exact Or.inr ⟨_, rfl⟩
  | cons newest others =>
      have hmem : newest ∈ page.objects := hobjects ▸ List.mem_cons_self
      cases hversion : newest.version with
      | none => exact absurd hversion (hversions newest hmem)
      | some version =>
          obtain ⟨hstored, hunder⟩ := hhonest.sound newest hmem
          have hprefix : setup.paths.pathPrefix.toList ++ ['/'] <+: newest.key.toList := by
            refine List.IsPrefix.trans ⟨code.toList ++ ['/'], ?_⟩ hunder
            simp [JobPaths.toList_buildJobPrefix, JobPaths.directory]
          obtain ⟨code', n, hn, hkey⟩ := hown newest.key (h.sound.stored _ hstored) hprefix
          have hparse : setup.paths.parseIterNum newest.key = .ok n := by
            rw [hkey]
            exact setup.paths.parseIterNum_buildJobIterationPath code' hn
          simp only [hversion, hparse]
          exact Or.inl ⟨_, rfl, hn⟩

/-- And so does the call, whatever it waits for. -/
theorem findJobMetaCall_served (hown : keys.WrittenByOwn) :
    Triple (AllServed keys after) (findJobMetaCall setup code)
      (fun result s => AllServed keys after s ∧ IsFound result)
      (fun stop s => AllServed keys after s ∧ Waits stop s) := by
  refine next_served.bind fun incident => Triple.current_bind fun s₀ => Triple.pure ?_
  rintro s ⟨⟨hs, hserved, hlists⟩, rfl⟩
  exact ⟨hs, findJobMeta_served hown hs hserved hlists⟩

/-- A call that answers, or says that what it asked for is not there, is not repeated. -/
theorem retryStorageCall_served {α : Type} {A : Prop} (isPauseCancelled : Nat → Bool)
    {I : Sweep setup.client → Prop} {Q : α → Prop}
    {call : CleanerM setup (Except StorageError α)}
    (h : Triple I call
      (fun result s => I s ∧ ((∃ value, result = .ok value ∧ Q value) ∨
        ∃ details, result = .error (.notFound details) ∧ A))
      (fun stop s => I s ∧ Waits stop s)) :
    Triple I (retryStorageCall setup isPauseCancelled call) (fun value s => I s ∧ Q value)
      (fun stop s => I s ∧ (Waits stop s ∨
        ∃ details, stop = .failed (.storage (.notFound details)) ∧ A)) := by
  refine Triple.retry_once ((h.conseq (fun _ hs => hs) (fun _ _ hpost => hpost)
    fun _ _ hs => ⟨hs.1, Or.inl hs.2⟩).bind fun result => ?_)
  cases result with
  | ok value =>
      refine Triple.pure fun s hs => ⟨value, rfl, hs.1, ?_⟩
      rcases hs.2 with ⟨value', heq, hvalue⟩ | ⟨details, heq, -⟩
      · cases heq
        exact hvalue
      · cases heq
  | error e =>
      have hnot : ∀ details, ¬StorageError.isRetryable (.notFound details) = true := by
        intro details
        exact Bool.false_ne_true
      by_cases hretry : e.isRetryable = true
      · simp only [if_pos hretry]
        refine Triple.pure fun s hs => ?_
        rcases hs.2 with ⟨value, heq, -⟩ | ⟨details, heq, -⟩
        · cases heq
        · cases heq
          exact absurd hretry (hnot details)
      · simp only [if_neg hretry]
        refine Triple.refuse fun s hs => ⟨hs.1, Or.inr ?_⟩
        rcases hs.2 with ⟨value, heq, -⟩ | ⟨details, heq, habsent⟩
        · cases heq
        · cases heq
          exact ⟨details, rfl, habsent⟩

/-- Pages that are served are read to their end. -/
theorem readPages_served {boundary : Nat} (fuel : Nat) (request : ListingRequest)
    (iterNums : List Nat) :
    Triple (AllServed keys after) (readPages setup boundary fuel request iterNums)
      (fun result s => AllServed keys after s ∧ ∃ iterNums, result = .ok iterNums)
      (fun stop s => AllServed keys after s ∧ stop = .waiting) := by
  induction fuel generalizing request iterNums with
  | zero => exact Triple.refuse fun s hs => ⟨hs, rfl⟩
  | succ fuel ih =>
      refine (next_served.conseq (fun _ hs => hs) (fun _ _ hs => hs)
        fun _ _ hs => ⟨hs.1, hs.2.1⟩).bind fun incident => Triple.current_bind fun s₀ => ?_
      cases hpage : (setup.backend incident s₀.store).listObjects request with
      | error e =>
          refine Triple.pure ?_
          rintro s ⟨⟨hs, hserved, hlists⟩, rfl⟩
          obtain ⟨page, hanswered, -⟩ := listed_of_served hs hserved hlists request
          rw [hpage] at hanswered
          cases hanswered
      | ok page =>
          cases hcursor : page.nextCursor with
          | none =>
              simp only [hcursor]
              exact Triple.pure fun s hs => ⟨hs.1.1, _, rfl⟩
          | some cursor =>
              simp only [hcursor]
              exact (ih _ _).conseq (fun s hs => hs.1.1) (fun _ _ h => h) fun _ _ h => h

/-- A served listing lists. -/
theorem listOutdatedCall_served {boundary : Nat} (hboundary : boundary < u64Max) :
    Triple (AllServed keys after) (listOutdatedCall setup code boundary)
      (fun result s => AllServed keys after s ∧ ∃ iterNums, result = .ok iterNums)
      (fun stop s => AllServed keys after s ∧ Waits stop s) := by
  obtain ⟨startKey, hstart⟩ : ∃ startKey, buildListingStartKey setup.paths
      ⟨setup.listingStartBound, setup.listPageSize, fun _ => .error .cancelled⟩ code boundary =
        .ok startKey := by
    rw [buildListingStartKey]
    cases setup.listingStartBound with
    | inclusive => exact ⟨_, rfl⟩
    | exclusive => exact ⟨_, if_pos hboundary⟩
  rw [listOutdatedCall, hstart]
  refine Triple.current_bind fun s₀ => ⟨?_, ?_⟩
  · rintro s result s' ⟨hs, rfl⟩ h
    exact (readPages_served _ _ _).answers hs h
  · rintro s stop s' ⟨hs, rfl⟩ h
    obtain ⟨hs', hstop⟩ := (readPages_served _ _ _).refuses hs h
    exact ⟨hs', hstop, (readPages_waits _ _ _).refuses (Nat.le_refl _) h⟩

/-- Deletions that are served all succeed. -/
theorem sendDeletes_served (requests : List setup.client.Request) :
    Triple (AllServed keys after) (sendDeletes setup requests)
      (fun result s => AllServed keys after s ∧ result = .ok ())
      (fun stop s => AllServed keys after s ∧ Waits stop s) := by
  induction requests with
  | nil => exact Triple.pure fun s hs => ⟨hs, rfl⟩
  | cons request requests ih =>
      refine next_served.bind fun incident => ?_
      refine (Triple.assume (A := incident.Served keys.Holds) fun hserved => ?_).conseq
        (fun s hs => ⟨hs.2.1, hs.1⟩) (fun _ _ h => h) fun _ _ h => h
      have hsent : (setup.client.send incident.isCancelled request incident.answer).2 = .ok () :=
        (setup.client.send_ok _ _ _).mpr ⟨hserved.runs, hserved.deletes request⟩
      refine Triple.write_bind (I := AllServed keys after) ?_ fun s hs =>
        stable_allServed.remove (R := fun _ => True) (fun _ _ => trivial) hs
      rw [hsent]
      exact ih

/-- A served deletion deletes. -/
theorem deleteIterationsCall_served (iterNums : List Nat) :
    Triple (AllServed keys after) (deleteIterationsCall setup code iterNums)
      (fun result s => AllServed keys after s ∧ result = .ok ())
      (fun stop s => AllServed keys after s ∧ Waits stop s) := by
  rw [deleteIterationsCall]
  split
  · exact Triple.pure fun s hs => ⟨hs, rfl⟩
  · exact sendDeletes_served _

/-- The same of a call that only answers. -/
theorem retryStorageCall_answered {α : Type} (isPauseCancelled : Nat → Bool)
    {I : Sweep setup.client → Prop} {call : CleanerM setup (Except StorageError α)}
    (h : Triple I call (fun result s => I s ∧ ∃ value, result = .ok value)
      (fun stop s => I s ∧ Waits stop s)) :
    Triple I (retryStorageCall setup isPauseCancelled call) (fun _ s => I s)
      (fun stop s => I s ∧ Waits stop s) := by
  refine (retryStorageCall_served (A := False) (Q := fun _ => True) isPauseCancelled
    (h.conseq (fun _ hs => hs) ?_ fun _ _ hs => hs)).conseq (fun _ hs => hs)
      (fun _ _ hs => hs.1) ?_
  · rintro result s ⟨hs, value, rfl⟩
    exact ⟨hs, Or.inl ⟨value, rfl, trivial⟩⟩
  · rintro stop s ⟨hs, hwaits | ⟨_, _, habsent⟩⟩
    · exact ⟨hs, hwaits⟩
    · exact habsent.elim

variable {isPauseCancelled : String → CleanupCall → Nat → Bool}

/-- So deleting the tail of a job does not fail. -/
theorem deleteTail_served
    (hretention : ∀ jobDef, setup.registry.jobsByCode.get code = some jobDef →
      0 < jobDef.iterationRetention) {jobMeta : JobMeta} (hmax : jobMeta.iterNum ≤ u64Max) :
    Triple (AllServed keys after) (deleteTail setup isPauseCancelled code jobMeta)
      (fun _ s => AllServed keys after s)
      (fun stop s => AllServed keys after s ∧ Waits stop s) := by
  rw [deleteTail]
  cases hboundary : calculateRetentionBoundary setup.registry code jobMeta.iterNum with
  | none => exact Triple.pure fun s hs => hs
  | some boundary =>
      obtain ⟨jobDef, hget, heq⟩ := calculateRetentionBoundary_eq_some hboundary
      have hkept := hretention jobDef hget
      refine (retryStorageCall_answered _ (listOutdatedCall_served (by omega))).bind
        fun iterNums => ?_
      cases iterNums.isEmpty with
      | true => exact Triple.pure fun s hs => hs
      | false =>
          have hdelete : Triple (AllServed keys after) (deleteIterationsCall setup code iterNums)
              (fun result s => AllServed keys after s ∧ ∃ value, result = .ok value)
              (fun stop s => AllServed keys after s ∧ Waits stop s) :=
            (deleteIterationsCall_served iterNums).conseq (fun _ hs => hs)
              (fun _ _ hs => ⟨hs.1, (), hs.2⟩) fun _ _ hs => hs
          exact (retryStorageCall_answered _ hdelete).bind fun _ => Triple.pure fun s hs => hs

/-- The cleanup of a job whose requests are served succeeds, unless it waits for a request that
is still to come. -/
theorem deleteOutdatedIterations_served (hown : keys.WrittenByOwn)
    (hretention : ∀ jobDef, setup.registry.jobsByCode.get code = some jobDef →
      0 < jobDef.iterationRetention) :
    Triple (AllServed keys after) (deleteOutdatedIterations setup isPauseCancelled code)
      (fun _ s => AllServed keys after s)
      (fun stop s => AllServed keys after s ∧ Waits stop s) := by
  have hfind : Triple (AllServed keys after)
      (retryStorageCall setup (isPauseCancelled code .find) (findJobMetaCall setup code))
      (fun jobMeta s => AllServed keys after s ∧ jobMeta.iterNum ≤ u64Max)
      (fun stop s => AllServed keys after s ∧ (Waits stop s ∨
        ∃ details, stop = .failed (.storage (.notFound details)) ∧ True)) := by
    refine retryStorageCall_served _ ((findJobMetaCall_served hown).conseq (fun _ hs => hs)
      ?_ fun _ _ hs => hs)
    rintro result s ⟨hs, ⟨jobMeta, rfl, hmax⟩ | ⟨details, rfl⟩⟩
    · exact ⟨hs, Or.inl ⟨jobMeta, rfl, hmax⟩⟩
    · exact ⟨hs, Or.inr ⟨details, rfl, trivial⟩⟩
  have hcases : ∀ s, AllServed keys after s →
      ∀ result s', deleteOutdatedIterations setup isPauseCancelled code s = (result, s') →
        AllServed keys after s' ∧ ∀ stop, result = .error stop → Waits stop s' := by
    intro s hs result s' h
    rw [deleteOutdatedIterations] at h
    rcases hcall : retryStorageCall setup (isPauseCancelled code .find)
        (findJobMetaCall setup code) s with ⟨stop | jobMeta, s₁⟩
    · rw [hcall] at h
      obtain ⟨hs₁, ⟨rfl, hincidents⟩ | ⟨details, rfl, -⟩⟩ := hfind.refuses hs hcall
      · cases h
        exact ⟨hs₁, fun stop hstop => ⟨(Except.error.inj hstop).symm, hincidents⟩⟩
      · cases h
        exact ⟨hs₁, by simp⟩
    · rw [hcall] at h
      obtain ⟨hs₁, hmax⟩ := hfind.answers hs hcall
      have htail : Triple (AllServed keys after) (deleteTail setup isPauseCancelled code jobMeta)
          (fun _ s => AllServed keys after s)
          (fun stop s => AllServed keys after s ∧ Waits stop s) :=
        deleteTail_served hretention hmax
      cases result with
      | ok count => exact ⟨htail.answers hs₁ h, by simp⟩
      | error stop =>
          obtain ⟨hs', hwaits⟩ := htail.refuses hs₁ h
          exact ⟨hs', fun stop' hstop => Except.error.inj hstop ▸ hwaits⟩
  exact ⟨fun hs h => (hcases _ hs _ _ h).1,
    fun hs h => ⟨(hcases _ hs _ _ h).1, (hcases _ hs _ _ h).2 _ rfl⟩⟩

end Calls

section Pass

variable {setup : CleanerSetup} {codes : List String} {keys : KeySpace setup.paths codes}
  {after : String → String → Prop}

/-- A pass whose requests are served reports success for every job it comes to, and comes to all
of them while requests are to come. -/
theorem reconcileRegistryJobs_served
    (isPauseCancelled : String → CleanupCall → Nat → Bool) (hown : keys.WrittenByOwn)
    (jobCodes : List String)
    (hretention : ∀ code jobDef, setup.registry.jobsByCode.get code = some jobDef →
      0 < jobDef.iterationRetention) {s : Sweep setup.client} (hs : AllServed keys after s) :
    (∀ code report,
      (code, report) ∈ (reconcileRegistryJobs setup isPauseCancelled jobCodes s).1 →
        ∃ count, report = .ok count) ∧
      ((reconcileRegistryJobs setup isPauseCancelled jobCodes s).1.map Prod.fst = jobCodes ∨
        (reconcileRegistryJobs setup isPauseCancelled jobCodes s).2.incidents = []) := by
  induction jobCodes generalizing s with
  | nil => exact ⟨by simp [reconcileRegistryJobs], Or.inl rfl⟩
  | cons code jobCodes ih =>
      have hjob : Triple (AllServed keys after)
          (deleteOutdatedIterations setup isPauseCancelled code)
          (fun _ s => AllServed keys after s)
          (fun stop s => AllServed keys after s ∧ Waits stop s) :=
        deleteOutdatedIterations_served hown (hretention code)
      rcases hcleanup : deleteOutdatedIterations setup isPauseCancelled code s with
        ⟨stop | count, s₁⟩
      · obtain ⟨-, rfl, hincidents⟩ := hjob.refuses hs hcleanup
        simp only [reconcileRegistryJobs, hcleanup]
        exact ⟨by simp, Or.inr hincidents⟩
      · obtain ⟨hreports, hend⟩ := ih (hjob.answers hs hcleanup)
        simp only [reconcileRegistryJobs, hcleanup]
        refine ⟨?_, hend.imp_left (congrArg _)⟩
        intro code' report hmem
        rcases List.mem_cons.mp hmem with heq | hrest
        · exact ⟨count, (Prod.mk.inj heq).2⟩
        · exact hreports code' report hrest

end Pass

end JobCleaner

/-- A pass over the registered jobs whose requests are all served, whatever others create and
delete meanwhile, reports success for every job it comes to.  It comes to every registered job
while requests are to come, and then what fell out of the retention of a job below an iteration
that stays is gone, unless somebody wrote it meanwhile. -/
theorem served_pass_clears (setup : CleanerSetup)
    (isPauseCancelled : String → CleanupCall → Nat → Bool) {codes : List String}
    {keys : KeySpace setup.paths codes} {after : String → String → Prop}
    (hseparated : ∀ code ∈ setup.registry.listJobs, ∀ code' ∈ codes, ¬JobPaths.Extends code code')
    (hown : keys.WrittenByOwn)
    (hretention : ∀ code jobDef, setup.registry.jobsByCode.get code = some jobDef →
      0 < jobDef.iterationRetention)
    {s s' : Sweep setup.client} (hsound : Sweep.Sound setup keys after s)
    (hserved : ∀ incident ∈ s.incidents, incident.Served keys.Holds)
    {reports : List (String × Except InternalError Nat)}
    (hpass : JobCleaner.reconcileRegistryJobs setup isPauseCancelled setup.registry.listJobs s =
      (reports, s')) :
    (∀ code report, (code, report) ∈ reports → ∃ count, report = .ok count) ∧
      (s'.incidents = [] ∨ reports.map Prod.fst = setup.registry.listJobs ∧
        ∀ code jobDef, setup.registry.jobsByCode.get code = some jobDef → ∀ n ≤ u64Max,
          Sweep.Kept (setup.paths.buildJobIterationPath code n) s →
          ∀ i, 0 < i → i + jobDef.iterationRetention ≤ n →
            Sweep.NotWritten (setup.paths.buildJobIterationPath code i) s →
              s'.store.objects (setup.paths.buildJobIterationPath code i) = none) := by
  have hstart : JobCleaner.AllServed keys after s := ⟨hsound, hserved⟩
  obtain ⟨hok, hend⟩ := JobCleaner.reconcileRegistryJobs_served isPauseCancelled hown
    setup.registry.listJobs hretention hstart
  rw [hpass] at hok hend
  rcases hend with hall | hwaits
  · refine ⟨hok, Or.inr ⟨hall, ?_⟩⟩
    intro code jobDef hget n hn hkept i hpos hold hquiet
    have hlisted : code ∈ reports.map Prod.fst := by
      rw [hall]
      exact KeyedMap.mem_keys_iff.mpr ⟨jobDef, hget⟩
    obtain ⟨⟨code', report⟩, hmem, rfl⟩ := List.mem_map.mp hlisted
    obtain ⟨count, rfl⟩ := hok code' report hmem
    have hgone := JobCleaner.reconcileRegistryJobs_clears isPauseCancelled
      setup.registry.jobsByCode.nodup hseparated hsound hget hn hkept hpos hold hquiet (by
        rw [JobRegistry.listJobs, KeyedMap.keys] at hpass
        rw [hpass]
        exact hmem)
    rw [JobRegistry.listJobs, KeyedMap.keys] at hpass
    rw [hpass] at hgone
    exact hgone.1
  · exact ⟨hok, Or.inl hwaits⟩

/-- The same store, where every request is served. -/
def servedSweep : Sweep sweptSetup.client :=
  { sweptSweep with
    incidents := List.replicate 4
      ⟨[], false, keyLister .exclusive sweptKeys, .finished (.ok []), fun _ => true⟩ }

theorem servedSweep_incidents {incident : Incident sweptSetup.client}
    (h : incident ∈ servedSweep.incidents) :
    incident = ⟨[], false, keyLister .exclusive sweptKeys, .finished (.ok []), fun _ => true⟩ :=
  List.eq_of_mem_replicate h

theorem servedSweep_served :
    JobCleaner.AllServed sweptSpace (fun _ _ => False) servedSweep := by
  refine ⟨⟨sweptSweep_sound.stored, ?_, ?_⟩, ?_⟩
  · intro incident hincident event hevent
    rw [servedSweep_incidents hincident] at hevent
    cases hevent
  · intro incident hincident
    rw [servedSweep_incidents hincident]
    exact keyLister_honest .exclusive sweptKeys_sorted
  · intro incident hincident
    rw [servedSweep_incidents hincident]
    refine ⟨rfl, fun request _ => ⟨_, rfl, ?_⟩, ?_⟩
    · intro object hobject
      obtain ⟨key, hkey, rfl⟩ := List.mem_map.mp hobject
      exact Option.isSome_iff_ne_none.mp (of_decide_eq_true (List.mem_filter.mp hkey).2).1
    · intro request
      cases request <;> rfl

theorem servedSweep_cleared :
    ∃ reports s',
      JobCleaner.reconcileRegistryJobs sweptSetup (fun _ _ _ => false)
          sweptSetup.registry.listJobs servedSweep = (reports, s') ∧
        reports.map Prod.fst = ["a"] ∧ s'.store.objects (sweptKey 2) = none := by
  have hown : sweptSpace.WrittenByOwn := by
    intro key hkey _
    obtain ⟨n, hn, rfl⟩ := List.mem_map.mp hkey
    have hle : ∀ n ∈ [8, 7, 6, 5, 4, 3, 2, 1], n ≤ u64Max := by decide
    exact ⟨"a", n, hle n hn, rfl⟩
  have hpass := served_pass_clears sweptSetup (fun _ _ _ => false) (by decide) hown ?_
    servedSweep_served.sound servedSweep_served.served Prod.mk.eta.symm
  · have hleft : (JobCleaner.reconcileRegistryJobs sweptSetup (fun _ _ _ => false)
        sweptSetup.registry.listJobs servedSweep).2.incidents.length = 1 := by
      decide +kernel
    rcases hpass.2 with hnone | ⟨hall, hclears⟩
    · rw [hnone] at hleft
      cases hleft
    · refine ⟨_, _, Prod.mk.eta.symm, hall, ?_⟩
      refine hclears "a" _ (KeyedMap.get_insert_self _ _) 7 (by decide) ⟨sweptStore_seven, ?_⟩ 2
        (by decide) (by decide) ?_
      · intro incident hincident event hevent
        rw [servedSweep_incidents hincident] at hevent
        cases hevent
      · intro incident hincident event hevent
        rw [servedSweep_incidents hincident] at hevent
        cases hevent
  · intro code jobDef hget
    have hkept : ∀ jobDef ∈ sweptSetup.registry.jobsByCode.values,
        0 < jobDef.iterationRetention := by
      decide
    exact hkept jobDef (KeyedMap.mem_values_of_get hget)

end JobManager
