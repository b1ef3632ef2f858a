import JobManager.Execution.Retention
import JobManager.Execution.Sweep
import JobManager.Library.Triple

/-!
# The pass over the registered jobs

What a cleanup has done when it reports success, and what it never does, is read off the calls it
is made of: a listing names what is stored while its pages are read, a deletion that succeeds has
deleted what it names, and a call that is repeated leaves what its last attempt leaves.

Main results:

- Theorem {lit}`JobCleaner.readPages_answers`: an iteration nobody writes is named by the pages
  that cover it, or gone.
- Theorem {lit}`JobCleaner.deleteIteration_triple`: what acting on one report deletes.
- Theorem {lit}`JobCleaner.deleteOutdatedIterations_clears`: the cleanup of one job.
- Theorem {lit}`reconciliation_clears_tails`: what a pass has deleted where it reports success,
  and what it never deletes.
-/

namespace JobManager

/-! ## What the calls answer -/

namespace JobCleaner

section Calls

variable {setup : CleanerSetup} {codes : List String} {keys : KeySpace setup.paths codes}
  {after : String → String → Prop}
  {R : String → Prop} {I : Sweep setup.client → Prop} {code : String}

/-- The newest stored iteration of a job. -/
def Newest (setup : CleanerSetup) (code : String) (n : Nat) (s : Sweep setup.client) : Prop :=
  SavedFor setup.paths s.store.contents code n ∧
    ∀ m, SavedFor setup.paths s.store.contents code m → m ≤ n

/-- The call waits for a request that is still to come. -/
def Waits (stop : Stop) (s : Sweep setup.client) : Prop := stop = .waiting ∧ s.incidents = []

theorem next_triple (hI : Sweep.Stable R I) {P : Incident setup.client → Prop}
    (hP : ∀ s, I s → ∀ incident ∈ s.incidents, P incident) :
    Triple I (Sweep.next : CleanerM setup _) (fun incident s => I s ∧ P incident)
      (fun stop s => I s ∧ Waits stop s) := by
  refine ⟨?_, ?_⟩
  · intro s incident s' hs hnext
    cases hincidents : s.incidents with
    | nil => simp [Sweep.next, hincidents] at hnext
    | cons first rest =>
        simp only [Sweep.next, hincidents, Prod.mk.injEq, Except.ok.injEq] at hnext
        obtain ⟨rfl, rfl⟩ := hnext
        exact ⟨hI.arrive hincidents hs, hP s hs _ (Sweep.mem_of_head hincidents)⟩
  · intro s e s' hs hnext
    cases hincidents : s.incidents with
    | nil =>
        simp only [Sweep.next, hincidents, Prod.mk.injEq, Except.error.injEq] at hnext
        obtain ⟨rfl, rfl⟩ := hnext
        exact ⟨hs, rfl, hincidents⟩
    | cons first rest => simp [Sweep.next, hincidents] at hnext

/-- A key that carries no iteration is not an object that is missing. -/
theorem parseIterNum_ne_notFound {paths : JobPaths} {key details : String} :
    paths.parseIterNum key ≠ .error (.notFound details) := by
  rw [JobPaths.parseIterNum]
  simp only
  split
  · simp
  · split
    · simp
    · split <;> simp

section Find

variable {incident : Incident setup.client} {s : Sweep setup.client}

/-- What the provider lists when a request reaches it is read off what is stored. -/
theorem honest_of_backend (hsound : Sweep.Sound setup keys after s)
    (hlists : ListsHonestly keys.Holds after setup.listingStartBound incident.lists)
    {request : ListingRequest} {page : ListedPage}
    (h : (setup.backend incident s.store).listObjects request = .ok page) :
    page.Honest after setup.listingStartBound s.store.contents request := by
  rw [CleanerSetup.backend] at h
  cases hcancelled : incident.isCancelled with
  | true =>
      rw [if_pos hcancelled] at h
      cases h
  | false =>
      rw [if_neg (by simp [hcancelled])] at h
      exact hlists.page hsound.stored h

/-- A read of a job found its newest iteration. -/
theorem newest_of_findJobMeta (hsound : Sweep.Sound setup keys after s)
    (hseparated : ∀ code' ∈ codes, ¬JobPaths.Extends code code')
    (hlists : ListsHonestly keys.Holds after setup.listingStartBound incident.lists)
    {jobMeta : JobMeta}
    (h : findJobMeta setup.paths (setup.backend incident s.store) code = .ok jobMeta) :
    Newest setup code jobMeta.iterNum s := by
  obtain ⟨page, hpage, h⟩ := bind_eq_ok.mp h
  cases hobjects : page.objects with
  | nil => simp [hobjects] at h
  | cons newest others =>
      cases hversion : newest.version with
      | none => simp [hobjects, hversion] at h
      | some version =>
          simp only [hobjects, hversion] at h
          obtain ⟨n, hparse, h⟩ := bind_eq_ok.mp h
          cases h
          have hhonest := honest_of_backend hsound hlists hpage
          obtain ⟨hstored, hunder⟩ := hhonest.sound newest (by simp [hobjects])
          obtain ⟨hn, hkey⟩ := hsound.written.own hseparated hstored hunder hparse
          refine ⟨⟨hn, hkey ▸ hstored⟩, ?_⟩
          rintro m ⟨hm, hsaved⟩
          -- the page begins with the least key of the directory
          have hfirst : ¬setup.paths.buildJobIterationPath code m < newest.key := by
            have hlisted := hhonest.complete _ hsaved
              ((setup.paths.under_buildJobPrefix code m).mpr (Or.inl rfl)) (fun _ => trivial)
              (by simp)
            rcases hlisted with hmem | ⟨cursor, -, -, hlater⟩
            · have hsorted := hhonest.sorted
              rw [hobjects, List.map_cons] at hmem hsorted
              rcases List.mem_cons.mp hmem with heq | hmem
              · exact heq ▸ lt_irrefl _
              · exact not_lt.mpr ((List.pairwise_cons.mp hsorted).1 _ hmem).le
            · exact not_lt.mpr (hlater newest (by simp [hobjects])).le
          rw [hkey, setup.paths.buildJobIterationPath_lt_iff code hn hm] at hfirst
          exact Nat.le_of_not_lt hfirst

/-- A job is said not to be there only where none of its iterations is stored. -/
theorem not_saved_of_findJobMeta (hsound : Sweep.Sound setup keys after s)
    (hlists : ListsHonestly keys.Holds after setup.listingStartBound incident.lists)
    {details : String}
    (h : findJobMeta setup.paths (setup.backend incident s.store) code =
      .error (.notFound details)) (n : Nat) :
    ¬SavedFor setup.paths s.store.contents code n := by
  rintro ⟨hn, hsaved⟩
  have hunder := (setup.paths.under_buildJobPrefix code n).mpr (Or.inl rfl)
  rw [findJobMeta] at h
  cases hpage : (setup.backend incident s.store).listObjects
      { directory := setup.paths.buildJobPrefix code, startKey := none, pageSize := 1
        cursor := none } with
  | error e =>
      rw [hpage] at h
      cases h
      rw [CleanerSetup.backend] at hpage
      cases hcancelled : incident.isCancelled with
      | true =>
          rw [if_pos hcancelled] at hpage
          cases hpage
      | false =>
          rw [if_neg (by simp [hcancelled])] at hpage
          exact hlists.absent hsound.stored hpage _ hsaved hunder
  | ok page =>
      have hhonest := honest_of_backend hsound hlists hpage
      cases hobjects : page.objects with
      | nil =>
          have hlisted := hhonest.complete _ hsaved hunder (fun _ => trivial) (by simp)
          rcases hlisted with hmem | ⟨cursor, hcursor, -, -⟩
          · simp [hobjects] at hmem
          · exact hhonest.progress (by simp [hcursor]) hobjects
      | cons newest others =>
          simp only [hpage, bind, Except.bind, hobjects] at h
          cases hversion : newest.version with
          | none => simp [hversion] at h
          | some version =>
              simp only [hversion] at h
              cases hparse : setup.paths.parseIterNum newest.key with
              | error e =>
                  rw [hparse] at h
                  cases h
                  exact parseIterNum_ne_notFound hparse
              | ok n => simp [hparse, pure, Except.pure] at h

end Find

/-! ## Triples of the calls -/

theorem findJobMetaCall_triple (hI : Sweep.Stable R I)
    (hsound : ∀ s, I s → Sweep.Sound setup keys after s)
    (hseparated : ∀ code' ∈ codes, ¬JobPaths.Extends code code') :
    Triple I (findJobMetaCall setup code)
      (fun r s => I s ∧ (∀ jobMeta, r = .ok jobMeta → Newest setup code jobMeta.iterNum s) ∧
        ∀ e, r = .error e → ∀ details, e = .notFound details →
          ∀ n, ¬SavedFor setup.paths s.store.contents code n)
      (fun stop s => I s ∧ Waits stop s) := by
  refine (next_triple hI fun s hs => (hsound s hs).lists).bind fun incident => ?_
  refine Triple.current_bind fun s₀ => Triple.pure ?_
  rintro s ⟨⟨hs, hlists⟩, rfl⟩
  refine ⟨hs, ?_, ?_⟩
  · intro jobMeta h
    exact newest_of_findJobMeta (hsound s hs) hseparated hlists h
  · rintro e h details rfl
    exact not_saved_of_findJobMeta (hsound s hs) hlists h

theorem fromStorage_eq_storage {e e' : StorageError}
    (h : InternalError.fromStorage e = .storage e') : e = e' := by
  cases e <;> simp_all [InternalError.fromStorage]

/-- A retried call leaves what its last attempt leaves. -/
theorem retryStorageCall_triple {α : Type} (isPauseCancelled : Nat → Bool)
    {call : CleanerM setup (Except StorageError α)} {Q : α → Sweep setup.client → Prop}
    {F : StorageError → Sweep setup.client → Prop}
    (h : Triple I call
      (fun r s => I s ∧ (∀ value, r = .ok value → Q value s) ∧ ∀ e, r = .error e → F e s)
      (fun stop s => I s ∧ Waits stop s)) :
    Triple I (retryStorageCall setup isPauseCancelled call) (fun value s => I s ∧ Q value s)
      (fun stop s => I s ∧ (stop = .waiting → s.incidents = []) ∧
        ∀ e, stop = .failed (.storage e) → F e s) := by
  refine Triple.retry (R := fun cause => ∃ error, cause = .failed error) ?_ ?_ ?_
  · refine (h.conseq (fun _ hs => hs) (fun _ _ hpost => hpost) ?_).bind ?_
    · rintro stop s ⟨hs, rfl, hincidents⟩
      exact ⟨hs, fun _ => hincidents, by simp⟩
    · intro r
      cases r with
      | ok value => exact Triple.pure fun s hs => ⟨hs.1, hs.2.1 value rfl⟩
      | error e =>
          by_cases hretry : e.isRetryable = true
          · simp only [if_pos hretry]
            exact Triple.pure fun s hs => ⟨hs.1, _, rfl⟩
          · simp only [if_neg hretry]
            refine Triple.refuse fun s hs => ⟨hs.1, by simp, ?_⟩
            intro e' he'
            rw [← fromStorage_eq_storage (Stop.failed.inj he')]
            exact hs.2.2 e rfl
  · rintro cause s hs ⟨error, rfl⟩
    exact ⟨hs, by simp [Stop.reports], by simp [Stop.reports]⟩
  · intro s hs
    exact ⟨hs, by simp [Stop.reports], by simp [Stop.reports]⟩

section List

variable {boundary i : Nat}

/-- Reading pages deletes nothing. -/
theorem readPages_keeps (hI : Sweep.Stable R I) (fuel : Nat) (request : ListingRequest)
    (iterNums : List Nat) :
    Triple I (readPages setup boundary fuel request iterNums) (fun _ s => I s)
      (fun stop s => I s ∧ stop = .waiting) := by
  induction fuel generalizing request iterNums with
  | zero => exact Triple.refuse fun s hs => ⟨hs, rfl⟩
  | succ fuel ih =>
      have hnext := next_triple hI (P := fun _ => True) fun _ _ _ _ => trivial
      refine (hnext.conseq (fun _ hs => hs) (fun _ _ hs => hs) fun _ _ hs => ⟨hs.1, hs.2.1⟩).bind
        fun incident => Triple.current_bind fun s₀ => ?_
      cases (setup.backend incident s₀.store).listObjects request with
      | error e => exact Triple.pure fun s hs => hs.1.1
      | ok page =>
          cases hcursor : page.nextCursor with
          | none =>
              simp only [hcursor]
              exact Triple.pure fun s hs => hs.1.1
          | some cursor =>
              simp only [hcursor]
              exact (ih _ _).conseq (fun s hs => hs.1.1) (fun _ _ h => h) fun _ _ h => h

/-- Reading pages waits where no request is to come. -/
theorem readPages_waits (fuel : Nat) (request : ListingRequest) (iterNums : List Nat) :
    Triple (fun s => s.incidents.length ≤ fuel) (readPages setup boundary fuel request iterNums)
      (fun _ _ => True) (fun _ s => s.incidents = []) := by
  induction fuel generalizing request iterNums with
  | zero => exact Triple.refuse fun s hs => List.length_eq_zero_iff.mp (Nat.le_zero.mp hs)
  | succ fuel ih =>
      have hnext : Triple (fun s => s.incidents.length ≤ fuel + 1)
          (Sweep.next : CleanerM setup _) (fun _ s => s.incidents.length ≤ fuel)
          (fun _ s => s.incidents = []) := by
        refine ⟨?_, ?_⟩
        · intro s incident s' hs h
          cases hincidents : s.incidents with
          | nil => simp [Sweep.next, hincidents] at h
          | cons first rest =>
              simp only [Sweep.next, hincidents, Prod.mk.injEq] at h
              rw [hincidents, List.length_cons] at hs
              rw [← h.2]
              exact Nat.le_of_succ_le_succ hs
        · intro s stop s' _ h
          cases hincidents : s.incidents with
          | nil =>
              simp only [Sweep.next, hincidents, Prod.mk.injEq] at h
              rw [← h.2, hincidents]
          | cons first rest => simp [Sweep.next, hincidents] at h
      refine hnext.bind fun incident => Triple.current_bind fun s₀ => ?_
      cases (setup.backend incident s₀.store).listObjects request with
      | error e => exact Triple.pure fun _ _ => trivial
      | ok page =>
          cases hcursor : page.nextCursor with
          | none =>
              simp only [hcursor]
              exact Triple.pure fun _ _ => trivial
          | some cursor =>
              simp only [hcursor]
              exact (ih _ _).conseq (fun s hs => hs.1) (fun _ _ h => h) fun _ _ h => h

/-- The pages name iterations at or below the boundary only. -/
theorem readPages_le {fuel : Nat} {request : ListingRequest} {listed iterNums : List Nat}
    {s s' : Sweep setup.client}
    (h : readPages setup boundary fuel request listed s = (.ok (.ok iterNums), s')) :
    ∀ j ∈ iterNums, j ∈ listed ∨ j ≤ boundary := by
  induction fuel generalizing request listed s with
  | zero => cases h
  | succ fuel ih =>
      obtain ⟨incident, s₁, -, h⟩ := Mutation.bind_eq_ok.mp h
      rw [Mutation.current_bind_apply] at h
      have hnew : ∀ (page : ListedPage) (j : Nat),
          j ∈ listed ++ outdatedIterNums setup.paths boundary page.objects →
            j ∈ listed ∨ j ≤ boundary := by
        intro page j hj
        refine (List.mem_append.mp hj).imp_right fun hmem => ?_
        obtain ⟨object, -, -, hle⟩ := mem_outdatedIterNums.mp hmem
        exact hle
      cases hpage : (setup.backend incident s₁.store).listObjects request with
      | error e =>
          rw [hpage] at h
          cases h
      | ok page =>
          rw [hpage] at h
          cases hcursor : page.nextCursor with
          | none =>
              simp only [hcursor] at h
              cases h
              exact hnew page
          | some cursor =>
              simp only [hcursor] at h
              intro j hj
              rcases ih h j hj with hlisted | hle
              · exact hnew page j hlisted
              · exact Or.inr hle

/-- The request is still to name the key. -/
def Covers (setup : CleanerSetup) (after : String → String → Prop) (request : ListingRequest)
    (key : String) : Prop :=
  (request.cursor = none → setup.listingStartBound.Reaches key request.startKey) ∧
    ∀ cursor, request.cursor = some cursor → after cursor key

/-- An iteration nobody writes meanwhile is named by the pages that cover it, or gone. -/
theorem readPages_answers (hi : i ≤ boundary) (hmax : i ≤ u64Max) {fuel : Nat}
    {request : ListingRequest} {listed iterNums : List Nat} {s s' : Sweep setup.client}
    (hsound : Sweep.Sound setup keys after s)
    (hquiet : Sweep.NotWritten (setup.paths.buildJobIterationPath code i) s)
    (hdirectory : request.directory = setup.paths.buildJobPrefix code)
    (h : readPages setup boundary fuel request listed s = (.ok (.ok iterNums), s')) :
    (i ∈ listed → i ∈ iterNums) ∧
      (Covers setup after request (setup.paths.buildJobIterationPath code i) →
        i ∈ iterNums ∨ Sweep.Gone (setup.paths.buildJobIterationPath code i) s') := by
  induction fuel generalizing request listed s with
  | zero => cases h
  | succ fuel ih =>
      obtain ⟨incident, s₁, hnext, h⟩ := Mutation.bind_eq_ok.mp h
      rw [Mutation.current_bind_apply] at h
      obtain ⟨⟨hsound₁, hquiet₁⟩, hlists⟩ :=
        (next_triple ((Sweep.stable_sound (R := fun _ => True)).and Sweep.stable_notWritten)
          fun s hs => hs.1.lists).answers ⟨hsound, hquiet⟩ hnext
      cases hpage : (setup.backend incident s₁.store).listObjects request with
      | error e =>
          rw [hpage] at h
          cases h
      | ok page =>
          rw [hpage] at h
          have hhonest := honest_of_backend hsound₁ hlists hpage
          -- the key is listed on this page, left to a later one, or there is no such object
          have hhere : Covers setup after request (setup.paths.buildJobIterationPath code i) →
              i ∈ outdatedIterNums setup.paths boundary page.objects ∨
                (∃ cursor, page.nextCursor = some cursor ∧
                  after cursor (setup.paths.buildJobIterationPath code i)) ∨
                Sweep.Gone (setup.paths.buildJobIterationPath code i) s₁ := by
            intro hcovers
            by_cases hthere : (s₁.store.contents (setup.paths.buildJobIterationPath code i)).isSome
            · have hunder := (setup.paths.under_buildJobPrefix code i).mpr (Or.inl rfl)
              rw [← hdirectory] at hunder
              rcases hhonest.complete _ hthere hunder hcovers.1 hcovers.2 with
                hmem | ⟨cursor, hcursor, hafter, -⟩
              · obtain ⟨object, hobject, hkey⟩ := List.mem_map.mp hmem
                refine Or.inl (mem_outdatedIterNums.mpr ⟨object, hobject, ?_, hi⟩)
                rw [hkey]
                exact setup.paths.parseIterNum_buildJobIterationPath code hmax
              · exact Or.inr (Or.inl ⟨cursor, hcursor, hafter⟩)
            · rw [ObjectStore.isSome_contents, Option.not_isSome_iff_eq_none] at hthere
              exact Or.inr (Or.inr ⟨hthere, hquiet₁⟩)
          cases hcursor : page.nextCursor with
          | none =>
              simp only [hcursor] at h
              cases h
              refine ⟨fun hlisted => List.mem_append_left _ hlisted, fun hcovers => ?_⟩
              rcases hhere hcovers with hmem | ⟨cursor, hsome, -⟩ | hgone
              · exact Or.inl (List.mem_append_right _ hmem)
              · rw [hcursor] at hsome
                cases hsome
              · exact Or.inr hgone
          | some cursor =>
              simp only [hcursor] at h
              obtain ⟨hin, hrest⟩ := @ih { request with cursor := some cursor } _ _ hsound₁ hquiet₁
                hdirectory h
              refine ⟨fun hlisted => hin (List.mem_append_left _ hlisted), fun hcovers => ?_⟩
              rcases hhere hcovers with hmem | ⟨cursor', hsome, hafter⟩ | hgone
              · exact Or.inl (hin (List.mem_append_right _ hmem))
              · rw [hcursor] at hsome
                cases hsome
                refine hrest ⟨by simp, ?_⟩
                rintro _ ⟨⟩
                exact hafter
              · refine Or.inr ((readPages_keeps (R := fun _ => True) ?_ fuel _ _).answers hgone h)
                exact Sweep.stable_gone

/-- The start key of a cleanup listing comes before the iterations it is about. -/
theorem buildListingStartKey_reaches {bounds : Backend} {startKey : String}
    (hstart : buildListingStartKey setup.paths bounds code boundary = .ok startKey)
    (hi : i ≤ boundary) (hmax : boundary ≤ u64Max) :
    bounds.listingStartBound.Reaches (setup.paths.buildJobIterationPath code i)
      (some startKey) := by
  rw [buildListingStartKey] at hstart
  cases hbound : bounds.listingStartBound with
  | inclusive =>
      simp only [hbound] at hstart
      cases hstart
      rw [ListingStartBound.Reaches, ← not_lt,
        setup.paths.buildJobIterationPath_lt_iff code hmax (hi.trans hmax)]
      omega
  | exclusive =>
      simp only [hbound] at hstart
      split at hstart
      · cases hstart
        rw [ListingStartBound.Reaches,
          setup.paths.buildJobIterationPath_lt_iff code (hi.trans hmax) ‹_›]
        omega
      · cases hstart

/-- The listing of a tail names, of the iterations nobody writes meanwhile, all that are still
there at its end. -/
theorem listOutdatedCall_triple (hI : Sweep.Stable R I)
    (hsound : ∀ s, I s → Sweep.Sound setup keys after s) (hmax : boundary ≤ u64Max) :
    Triple I (listOutdatedCall setup code boundary)
      (fun r s => I s ∧ (∀ iterNums, r = .ok iterNums → (∀ j ∈ iterNums, j ≤ boundary) ∧
          ∀ i ≤ boundary,
            (∀ s, I s → Sweep.NotWritten (setup.paths.buildJobIterationPath code i) s) →
              i ∈ iterNums ∨ Sweep.Gone (setup.paths.buildJobIterationPath code i) s) ∧
        ∀ e, r = .error e → True)
      (fun stop s => I s ∧ Waits stop s) := by
  rw [listOutdatedCall]
  cases hstart : buildListingStartKey setup.paths
      ⟨setup.listingStartBound, setup.listPageSize, fun _ => .error .cancelled⟩ code boundary with
  | error e => exact Triple.pure fun s hs => ⟨hs, by simp, by simp⟩
  | ok startKey =>
      refine Triple.current_bind fun s₀ => ⟨?_, ?_⟩
      · rintro s r s' ⟨hs, rfl⟩ h
        refine ⟨(readPages_keeps hI _ _ _).answers hs h, ?_, by simp⟩
        rintro iterNums rfl
        refine ⟨fun j hj => ?_, fun i hi hquiet => ?_⟩
        · exact (readPages_le h j hj).resolve_left (by simp)
        · refine (readPages_answers hi (hi.trans hmax) (hsound s hs) (hquiet s hs) rfl h).2
            ⟨?_, by simp⟩
          intro _
          exact buildListingStartKey_reaches hstart hi hmax
      · rintro s stop s' ⟨hs, rfl⟩ h
        obtain ⟨hs', hstop⟩ := (readPages_keeps hI _ _ _).refuses hs h
        exact ⟨hs', hstop, (readPages_waits _ _ _).refuses (Nat.le_refl _) h⟩

end List

section Delete

/-- What a request deletes is named in it. -/
theorem mem_keys_of_removes {incident : Incident setup.client} {request : setup.client.Request}
    {key : String} (h : key ∈ incident.removes request) : key ∈ setup.client.keys request := by
  rw [Incident.removes] at h
  split at h
  · cases h
  · split at h
    · exact h
    · exact (List.mem_filter.mp h).1

/-- Requests delete the keys they name only. -/
theorem sendDeletes_keeps (hI : Sweep.Stable R I) {requests : List setup.client.Request}
    (hkeys : ∀ key ∈ requests.flatMap setup.client.keys, R key) :
    Triple I (sendDeletes setup requests) (fun _ s => I s)
      (fun stop s => I s ∧ Waits stop s) := by
  induction requests with
  | nil => exact Triple.pure fun s hs => hs
  | cons request requests ih =>
      have hnext := next_triple hI (P := fun _ => True) fun _ _ _ _ => trivial
      refine hnext.bind fun incident => Triple.write_bind (I := I) ?_ ?_
      · cases (setup.client.send incident.isCancelled request incident.answer).2 with
        | error e => exact Triple.pure fun s hs => hs
        | ok _ =>
            refine ih fun key hkey => hkeys key ?_
            rw [List.flatMap_cons]
            exact List.mem_append_right _ hkey
      · rintro s ⟨hs, -⟩
        refine hI.remove (fun key hkey => hkeys key ?_) hs
        rw [List.flatMap_cons]
        exact List.mem_append_left _ (mem_keys_of_removes hkey)

/-- Where all requests succeed, the objects they name are gone. -/
theorem sendDeletes_answers {requests : List setup.client.Request} {s s' : Sweep setup.client}
    {key : String} (hquiet : Sweep.NotWritten key s)
    (hkey : key ∈ requests.flatMap setup.client.keys)
    (h : sendDeletes setup requests s = (.ok (.ok ()), s')) : Sweep.Gone key s' := by
  induction requests generalizing s with
  | nil => cases hkey
  | cons request requests ih =>
      obtain ⟨incident, s₁, hnext, h⟩ := Mutation.bind_eq_ok.mp h
      have hquiet₁ := ((next_triple (Sweep.stable_notWritten (R := fun _ => True))
        (P := fun _ => True) fun _ _ _ _ => trivial).answers hquiet hnext).1
      rw [Mutation.write_bind_apply] at h
      cases hsend : (setup.client.send incident.isCancelled request incident.answer).2 with
      | error e =>
          rw [hsend] at h
          cases h
      | ok _ =>
          rw [hsend] at h
          obtain ⟨hcancelled, hdone⟩ := (setup.client.send_ok _ _ _).mp hsend
          rw [List.flatMap_cons] at hkey
          by_cases hmem : key ∈ setup.client.keys request
          · have hgone : Sweep.Gone key (s₁.remove (incident.removes request)) := by
              refine ⟨?_, hquiet₁⟩
              rw [Sweep.remove, objects_foldl_deleteObject, Incident.removes, hcancelled, hdone]
              exact if_pos hmem
            exact (sendDeletes_keeps Sweep.stable_gone (R := fun _ => True)
              fun _ _ => trivial).answers hgone h
          · exact ih (s := s₁.remove (incident.removes request)) hquiet₁
              ((List.mem_append.mp hkey).resolve_left hmem) h

/-- A deletion that succeeds has deleted what it names, unless somebody writes it. -/
theorem deleteIterationsCall_triple (hI : Sweep.Stable R I) {iterNums : List Nat}
    (hkeys : ∀ i ∈ iterNums, R (setup.paths.buildJobIterationPath code i)) :
    Triple I (deleteIterationsCall setup code iterNums)
      (fun r s => I s ∧ (∀ value, r = .ok value → ∀ i ∈ iterNums,
          (∀ s, I s → Sweep.NotWritten (setup.paths.buildJobIterationPath code i) s) →
            Sweep.Gone (setup.paths.buildJobIterationPath code i) s) ∧
        ∀ e, r = .error e → True)
      (fun stop s => I s ∧ Waits stop s) := by
  rw [deleteIterationsCall]
  split <;> rename_i hempty
  · refine Triple.pure fun s hs => ⟨hs, fun _ _ i hi => ?_, by simp⟩
    rw [List.isEmpty_iff.mp hempty] at hi
    cases hi
  · have hnamed := setup.client.keys_requests
      (iterNums.map (setup.paths.buildJobIterationPath code))
    have hown : ∀ key ∈ (setup.client.requests
        (iterNums.map (setup.paths.buildJobIterationPath code))).flatMap setup.client.keys,
          R key := by
      rw [hnamed]
      intro key hkey
      obtain ⟨i, hi, rfl⟩ := List.mem_map.mp hkey
      exact hkeys i hi
    have hkeeps := sendDeletes_keeps hI hown
    refine ⟨?_, hkeeps.refuses⟩
    intro s r s' hs h
    refine ⟨hkeeps.answers hs h, ?_, by simp⟩
    rintro value rfl i hi hquiet
    refine sendDeletes_answers (hquiet s hs) ?_ h
    rw [hnamed]
    exact List.mem_map_of_mem hi

end Delete

end Calls

/-! ## The cleanup of one job -/

section OneJob

variable {setup : CleanerSetup} {codes : List String} {keys : KeySpace setup.paths codes}
  {after : String → String → Prop}
  {I : Sweep setup.client → Prop} {code : String} {N : Nat}
  {isPauseCancelled : String → CleanupCall → Nat → Bool}

/-- The key of an iteration of the job that may be deleted while none is newer than the given
one. -/
def OutdatedAt (setup : CleanerSetup) (code : String) (N : Nat) (key : String) : Prop :=
  ∃ i jobDef, setup.registry.jobsByCode.get code = some jobDef ∧ i ≤ u64Max ∧
    i + jobDef.iterationRetention ≤ N ∧ key = setup.paths.buildJobIterationPath code i

theorem calculateRetentionBoundary_eq_none {registry : JobRegistry} {n : Nat}
    (h : calculateRetentionBoundary registry code n = none) {jobDef : JobDefinition}
    (hget : registry.jobsByCode.get code = some jobDef) : n ≤ jobDef.iterationRetention := by
  simp only [calculateRetentionBoundary, JobRegistry.getJob, hget,
    JobDefinition.calculateRetentionBoundary] at h
  split at h
  · assumption
  · cases h

/-- Every iteration up to the boundary that nobody writes is among the listed ones or gone. -/
def ListedOrGone (setup : CleanerSetup) (code : String) (boundary : Nat)
    (I : Sweep setup.client → Prop) (iterNums : List Nat) (s : Sweep setup.client) : Prop :=
  I s ∧ ∀ i ≤ boundary,
    (∀ s, I s → Sweep.NotWritten (setup.paths.buildJobIterationPath code i) s) →
      i ∈ iterNums ∨ Sweep.Gone (setup.paths.buildJobIterationPath code i) s

theorem stable_listedOrGone {R : String → Prop} (hI : Sweep.Stable R I) {boundary : Nat}
    {iterNums : List Nat} : Sweep.Stable R (ListedOrGone setup code boundary I iterNums) where
  arrive hs h := by
    refine ⟨hI.arrive hs h.1, fun i hi hquiet => (h.2 i hi hquiet).imp_right ?_⟩
    exact (Sweep.stable_gone (R := R)).arrive hs
  remove hkeys h := by
    refine ⟨hI.remove hkeys h.1, fun i hi hquiet => (h.2 i hi hquiet).imp_right ?_⟩
    exact Sweep.stable_gone.remove hkeys

/-- Deleting the tail below the newest iteration. -/
theorem deleteTail_triple (isPauseCancelled : String → CleanupCall → Nat → Bool) (code : String)
    (hI : Sweep.Stable (OutdatedAt setup code N) I)
    (hsound : ∀ s, I s → Sweep.Sound setup keys after s) {jobMeta : JobMeta}
    (hN : jobMeta.iterNum ≤ N) (hmax : jobMeta.iterNum ≤ u64Max) :
    Triple I (deleteTail setup isPauseCancelled code jobMeta)
      (fun _ s => I s ∧ ∀ i jobDef, setup.registry.jobsByCode.get code = some jobDef → 0 < i →
        i + jobDef.iterationRetention ≤ jobMeta.iterNum →
        (∀ s, I s → Sweep.NotWritten (setup.paths.buildJobIterationPath code i) s) →
          Sweep.Gone (setup.paths.buildJobIterationPath code i) s)
      (fun stop s => I s ∧ (stop = .waiting → s.incidents = [])) := by
  rw [deleteTail]
  cases hboundary : calculateRetentionBoundary setup.registry code jobMeta.iterNum with
  | none =>
      refine Triple.pure fun s hs => ⟨hs, fun i jobDef hget hpos hold _ => ?_⟩
      have := calculateRetentionBoundary_eq_none hboundary hget
      omega
  | some boundary =>
      obtain ⟨jobDef, hget, heq⟩ := calculateRetentionBoundary_eq_some hboundary
      refine ((retryStorageCall_triple _
        (listOutdatedCall_triple hI hsound (by omega))).conseq (fun _ hs => hs)
          (Q := fun iterNums s => (∀ j ∈ iterNums, j ≤ boundary) ∧
            ListedOrGone setup code boundary I iterNums s)
          (fun _ _ hs => ⟨hs.2.1, hs.1, hs.2.2⟩) fun _ _ hs => ⟨hs.1, hs.2.1⟩).bind
            fun iterNums => ?_
      refine Triple.assume fun hle => ?_
      have hold : ∀ i jobDef', setup.registry.jobsByCode.get code = some jobDef' →
          i + jobDef'.iterationRetention ≤ jobMeta.iterNum → i ≤ boundary := by
        intro i jobDef' hget' hi
        rw [hget] at hget'
        cases hget'
        omega
      cases hempty : iterNums.isEmpty with
      | true =>
          obtain rfl := List.isEmpty_iff.mp hempty
          refine Triple.pure fun s hs => ⟨hs.1, fun i jobDef' hget' _ hi hquiet => ?_⟩
          exact (hs.2 i (hold i jobDef' hget' hi) hquiet).resolve_left (by simp)
      | false =>
          have hkeys : ∀ i ∈ iterNums,
              OutdatedAt setup code N (setup.paths.buildJobIterationPath code i) := by
            intro i hi
            have hi := hle i hi
            exact ⟨i, jobDef, hget, by omega, by omega, rfl⟩
          refine ((retryStorageCall_triple _ (deleteIterationsCall_triple
            (I := ListedOrGone setup code boundary I iterNums) (stable_listedOrGone hI)
            hkeys)).conseq (fun _ hs => hs) (fun _ _ hs => hs)
              fun _ _ hs => ⟨hs.1.1, hs.2.1⟩).bind fun _ => ?_
          refine Triple.pure fun s hs => ⟨hs.1.1, fun i jobDef' hget' _ hi hquiet => ?_⟩
          rcases hs.1.2 i (hold i jobDef' hget' hi) hquiet with hmem | hgone
          · exact hs.2 i hmem fun s hs => hquiet s hs.1
          · exact hgone

/-- Acting on a report deletes nothing but the iteration it pushed past the retention, and that
one where it answers. -/
theorem deleteIteration_triple (isPauseCancelled : String → CleanupCall → Nat → Bool)
    {message : JobIterationStarted} (hmax : message.iterNum ≤ u64Max)
    (hI : Sweep.Stable (OutdatedAt setup message.jobCode message.iterNum) I) :
    Triple I (deleteIteration setup isPauseCancelled message)
      (fun _ s => I s ∧ ∀ i jobDef, setup.registry.jobsByCode.get message.jobCode = some jobDef →
        0 < i → i + jobDef.iterationRetention = message.iterNum →
        (∀ s, I s → Sweep.NotWritten (setup.paths.buildJobIterationPath message.jobCode i) s) →
          Sweep.Gone (setup.paths.buildJobIterationPath message.jobCode i) s)
      (fun stop s => I s ∧ (stop = .waiting → s.incidents = [])) := by
  rw [deleteIteration]
  cases hboundary : calculateRetentionBoundary setup.registry message.jobCode message.iterNum with
  | none =>
      refine Triple.pure fun s hs => ⟨hs, fun i jobDef hget hpos hold _ => ?_⟩
      have := calculateRetentionBoundary_eq_none hboundary hget
      omega
  | some boundary =>
      obtain ⟨jobDef, hget, heq⟩ := calculateRetentionBoundary_eq_some hboundary
      have hkeys : ∀ i ∈ [boundary], OutdatedAt setup message.jobCode message.iterNum
          (setup.paths.buildJobIterationPath message.jobCode i) := by
        intro i hi
        obtain rfl := List.mem_singleton.mp hi
        exact ⟨i, jobDef, hget, by omega, by omega, rfl⟩
      refine (retryStorageCall_triple _ (deleteIterationsCall_triple hI hkeys)).conseq
        (fun _ hs => hs) (fun _ s hs => ⟨hs.1, ?_⟩) fun _ _ hs => ⟨hs.1, hs.2.1⟩
      intro i jobDef' hget' _ hold hquiet
      rw [hget] at hget'
      cases hget'
      exact hs.2 i (List.mem_singleton.mpr (by omega)) hquiet

/-- The cleanup of a job deletes nothing but what is outdated of it. -/
theorem deleteOutdatedIterations_keeps (hI : Sweep.Stable (OutdatedAt setup code N) I)
    (hsound : ∀ s, I s → Sweep.Sound setup keys after s)
    (hseparated : ∀ code' ∈ codes, ¬JobPaths.Extends code code')
    (hbounded : ∀ s, I s → Sweep.Bounded setup code N s) {s s' : Sweep setup.client}
    {r : Except Stop Nat} (hs : I s)
    (h : deleteOutdatedIterations setup isPauseCancelled code s = (r, s')) :
    I s' ∧ (r = .error .waiting → s'.incidents = []) := by
  have hfind := retryStorageCall_triple (isPauseCancelled code .find)
    (findJobMetaCall_triple hI hsound hseparated)
  rw [deleteOutdatedIterations] at h
  rcases hcall : retryStorageCall setup (isPauseCancelled code .find) (findJobMetaCall setup code) s
    with ⟨stop | jobMeta, s₁⟩
  · obtain ⟨hs₁, hwaits, -⟩ := hfind.refuses hs hcall
    rw [hcall] at h
    rcases stop with _ | error
    · cases h
      exact ⟨hs₁, fun _ => hwaits rfl⟩
    · cases error with
      | storage e => cases e <;> cases h <;> exact ⟨hs₁, by simp⟩
      | _ =>
          cases h
          exact ⟨hs₁, by simp⟩
  · obtain ⟨hs₁, hnewest⟩ := hfind.answers hs hcall
    rw [hcall] at h
    have htail := deleteTail_triple isPauseCancelled code hI hsound
      ((hbounded s₁ hs₁).stored _ hnewest.1) hnewest.1.1
    cases r with
    | error stop =>
        obtain ⟨hs', hwaits⟩ := htail.refuses hs₁ h
        exact ⟨hs', fun hstop => hwaits (Except.error.inj hstop)⟩
    | ok count => exact ⟨(htail.answers hs₁ h).1, by simp⟩

/-- Where the cleanup of a job succeeds, what fell out of its retention is gone. -/
theorem deleteOutdatedIterations_clears {s s' : Sweep setup.client}
    (hsound : Sweep.Sound setup keys after s)
    (hseparated : ∀ code' ∈ codes, ¬JobPaths.Extends code code') {count n i : Nat}
    {jobDef : JobDefinition} (hget : setup.registry.jobsByCode.get code = some jobDef)
    (hn : n ≤ u64Max) (hkept : Sweep.Kept (setup.paths.buildJobIterationPath code n) s)
    (hpos : 0 < i) (hold : i + jobDef.iterationRetention ≤ n)
    (hquiet : Sweep.NotWritten (setup.paths.buildJobIterationPath code i) s)
    (h : deleteOutdatedIterations setup isPauseCancelled code s = (.ok count, s')) :
    Sweep.Gone (setup.paths.buildJobIterationPath code i) s' := by
  -- looking for the newest iteration deletes nothing, so the one that is kept is still there
  have hfind := retryStorageCall_triple (isPauseCancelled code .find)
    (findJobMetaCall_triple (R := fun _ => False) (I := fun s => Sweep.Sound setup keys after s ∧
      Sweep.NotWritten (setup.paths.buildJobIterationPath code i) s ∧
      Sweep.Kept (setup.paths.buildJobIterationPath code n) s)
      (Sweep.stable_sound.and (Sweep.stable_notWritten.and (Sweep.stable_kept id)))
      (fun s hs => hs.1) hseparated)
  have hsaved : ∀ s : Sweep setup.client, Sweep.Kept (setup.paths.buildJobIterationPath code n) s →
      SavedFor setup.paths s.store.contents code n := by
    intro s hs
    exact ⟨hn, by rw [ObjectStore.isSome_contents]; exact hs.1⟩
  rw [deleteOutdatedIterations] at h
  rcases hcall : retryStorageCall setup (isPauseCancelled code .find) (findJobMetaCall setup code) s
    with ⟨stop | jobMeta, s₁⟩
  · obtain ⟨⟨-, -, hkept₁⟩, -, hmissing⟩ := hfind.refuses ⟨hsound, hquiet, hkept⟩ hcall
    rw [hcall] at h
    rcases stop with _ | error
    · cases h
    · cases error with
      | storage e =>
          cases e with
          | notFound details => exact absurd (hsaved _ hkept₁) (hmissing _ rfl details rfl n)
          | _ => cases h
      | _ => cases h
  · obtain ⟨⟨hsound₁, hquiet₁, hkept₁⟩, hnewest⟩ :=
      hfind.answers ⟨hsound, hquiet, hkept⟩ hcall
    rw [hcall] at h
    have htail := deleteTail_triple isPauseCancelled code (N := jobMeta.iterNum)
      (I := fun s => Sweep.Sound setup keys after s ∧
        Sweep.NotWritten (setup.paths.buildJobIterationPath code i) s)
      (Sweep.stable_sound.and Sweep.stable_notWritten) (fun s hs => hs.1) (Nat.le_refl _)
      hnewest.1.1
    obtain ⟨-, hgone⟩ := htail.answers ⟨hsound₁, hquiet₁⟩ h
    exact hgone i jobDef hget hpos (hold.trans (hnewest.2 n (hsaved _ hkept₁))) fun s hs => hs.2

end OneJob

/-! ## The pass -/

section Pass

variable {setup : CleanerSetup} {codes : List String} {keys : KeySpace setup.paths codes}
  {after : String → String → Prop}
  (isPauseCancelled : String → CleanupCall → Nat → Bool)

/-- What the pass makes of the cleanup of its first job: it goes on, waits or is cancelled. -/
theorem reconcileRegistryJobs_cons {jobCode : String} (jobCodes : List String)
    {cleanup : Except Stop Nat} {s s₁ : Sweep setup.client}
    (h : deleteOutdatedIterations setup isPauseCancelled jobCode s = (cleanup, s₁)) :
    (∃ report,
        reconcileRegistryJobs setup isPauseCancelled (jobCode :: jobCodes) s =
          ((jobCode, report) :: (reconcileRegistryJobs setup isPauseCancelled jobCodes s₁).1,
            (reconcileRegistryJobs setup isPauseCancelled jobCodes s₁).2) ∧
        ∀ count, report = .ok count → cleanup = .ok count) ∨
      cleanup = .error .waiting ∧
        reconcileRegistryJobs setup isPauseCancelled (jobCode :: jobCodes) s = ([], s₁) ∨
      cleanup = .error (.failed .cancelled) ∧
        reconcileRegistryJobs setup isPauseCancelled (jobCode :: jobCodes) s =
          ([(jobCode, .error .cancelled)], s₁) := by
  rcases cleanup with (_ | e) | count
  · refine Or.inr (Or.inl ⟨rfl, ?_⟩)
    simp only [reconcileRegistryJobs, h]
  · by_cases hcancelled : e = .cancelled
    · subst hcancelled
      refine Or.inr (Or.inr ⟨rfl, ?_⟩)
      simp only [reconcileRegistryJobs, h, if_true]
    · refine Or.inl ⟨.error e, ?_, by simp⟩
      simp only [reconcileRegistryJobs, h, if_neg hcancelled]
  · refine Or.inl ⟨.ok count, ?_, by simp⟩
    simp only [reconcileRegistryJobs, h]

/-- The pass reports its jobs in their order, and all of them unless it waits or is cancelled. -/
theorem reconcileRegistryJobs_reports {jobCodes : List String} {s : Sweep setup.client}
    (hsound : Sweep.Sound setup keys after s)
    (hseparated : ∀ code ∈ jobCodes, ∀ code' ∈ codes, ¬JobPaths.Extends code code') :
    (reconcileRegistryJobs setup isPauseCancelled jobCodes s).1.map Prod.fst <+: jobCodes ∧
      ((reconcileRegistryJobs setup isPauseCancelled jobCodes s).1.map Prod.fst = jobCodes ∨
        (reconcileRegistryJobs setup isPauseCancelled jobCodes s).2.incidents = [] ∨
        ∃ code, (code, .error .cancelled) ∈
          (reconcileRegistryJobs setup isPauseCancelled jobCodes s).1) := by
  induction jobCodes generalizing s with
  | nil => exact ⟨List.prefix_refl _, Or.inl rfl⟩
  | cons code jobCodes ih =>
      rcases hcleanup : deleteOutdatedIterations setup isPauseCancelled code s with ⟨cleanup, s₁⟩
      obtain ⟨hsound₁, hwaits⟩ := deleteOutdatedIterations_keeps Sweep.stable_sound
        (fun _ hs => hs) (hseparated code List.mem_cons_self)
        (fun s _ => Sweep.bounded_u64Max code s) hsound hcleanup
      rcases reconcileRegistryJobs_cons isPauseCancelled jobCodes hcleanup with
        ⟨report, hpass, -⟩ | ⟨hwaiting, hpass⟩ | ⟨-, hpass⟩
      · obtain ⟨hreported, hend⟩ := ih hsound₁ fun code' hmem =>
          hseparated code' (List.mem_cons_of_mem _ hmem)
        rw [hpass]
        refine ⟨List.cons_prefix_cons.mpr ⟨rfl, hreported⟩, hend.imp ?_ (Or.imp_right ?_)⟩
        · exact fun hall => congrArg _ hall
        · rintro ⟨code', hmem⟩
          exact ⟨code', List.mem_cons_of_mem _ hmem⟩
      · rw [hpass]
        exact ⟨List.nil_prefix, Or.inr (Or.inl (hwaits hwaiting))⟩
      · rw [hpass]
        refine ⟨List.cons_prefix_cons.mpr ⟨rfl, List.nil_prefix⟩, Or.inr (Or.inr ⟨code, ?_⟩)⟩
        exact List.mem_singleton_self _

/-- The pass keeps what the cleanup of every job it is about keeps. -/
theorem reconcileRegistryJobs_keeps {I : Sweep setup.client → Prop}
    (hsound : ∀ s, I s → Sweep.Sound setup keys after s) {jobCodes : List String}
    (hseparated : ∀ code ∈ jobCodes, ∀ code' ∈ codes, ¬JobPaths.Extends code code')
    (hjobs : ∀ code ∈ jobCodes, ∃ N, (∀ s, I s → Sweep.Bounded setup code N s) ∧
      Sweep.Stable (OutdatedAt setup code N) I) {s : Sweep setup.client} (hs : I s) :
    I (reconcileRegistryJobs setup isPauseCancelled jobCodes s).2 := by
  induction jobCodes generalizing s with
  | nil => exact hs
  | cons code jobCodes ih =>
      obtain ⟨N, hbounded, hI⟩ := hjobs code List.mem_cons_self
      rcases hcleanup : deleteOutdatedIterations setup isPauseCancelled code s with ⟨cleanup, s₁⟩
      have hs₁ := (deleteOutdatedIterations_keeps hI hsound (hseparated code List.mem_cons_self)
        hbounded hs hcleanup).1
      have hrest := ih (fun code' hmem => hseparated code' (List.mem_cons_of_mem _ hmem))
        (fun code' hmem => hjobs code' (List.mem_cons_of_mem _ hmem)) hs₁
      rcases reconcileRegistryJobs_cons isPauseCancelled jobCodes hcleanup with
        ⟨report, hpass, -⟩ | ⟨-, hpass⟩ | ⟨-, hpass⟩
      · rw [hpass]
        exact hrest
      · rw [hpass]
        exact hs₁
      · rw [hpass]
        exact hs₁

/-- The cleanup of one job never touches the iterations of another. -/
theorem not_outdatedAt_of_ne {code code' : String} (hne : code' ≠ code) {N n : Nat}
    (hn : n ≤ u64Max) : ¬OutdatedAt setup code' N (setup.paths.buildJobIterationPath code n) := by
  rintro ⟨i, jobDef, -, hi, -, hkey⟩
  exact hne (setup.paths.buildJobIterationPath_inj code hi hn hkey).1.symm

/-- A pass that reports success for a job has deleted what fell out of its retention. -/
theorem reconcileRegistryJobs_clears {jobCodes : List String} (hnodup : jobCodes.Nodup)
    (hseparated : ∀ code ∈ jobCodes, ∀ code' ∈ codes, ¬JobPaths.Extends code code')
    {s : Sweep setup.client} (hsound : Sweep.Sound setup keys after s) {code : String}
    {count n i : Nat} {jobDef : JobDefinition}
    (hget : setup.registry.jobsByCode.get code = some jobDef) (hn : n ≤ u64Max)
    (hkept : Sweep.Kept (setup.paths.buildJobIterationPath code n) s) (hpos : 0 < i)
    (hold : i + jobDef.iterationRetention ≤ n)
    (hquiet : Sweep.NotWritten (setup.paths.buildJobIterationPath code i) s)
    (h : (code, .ok count) ∈ (reconcileRegistryJobs setup isPauseCancelled jobCodes s).1) :
    Sweep.Gone (setup.paths.buildJobIterationPath code i)
      (reconcileRegistryJobs setup isPauseCancelled jobCodes s).2 := by
  induction jobCodes generalizing s with
  | nil => cases h
  | cons code' jobCodes ih =>
      obtain ⟨hfresh, hnodup⟩ := List.nodup_cons.mp hnodup
      have hseparated' := fun code' hmem => hseparated code' (List.mem_cons_of_mem _ hmem)
      rcases hcleanup : deleteOutdatedIterations setup isPauseCancelled code' s with ⟨cleanup, s₁⟩
      have hsound₁ := (deleteOutdatedIterations_keeps Sweep.stable_sound (fun _ hs => hs)
        (hseparated code' List.mem_cons_self) (fun s _ => Sweep.bounded_u64Max code' s) hsound
        hcleanup).1
      rcases reconcileRegistryJobs_cons isPauseCancelled jobCodes hcleanup with
        ⟨report, hpass, hreport⟩ | ⟨-, hpass⟩ | ⟨-, hpass⟩
      · rw [hpass] at h ⊢
        by_cases hcode : code' = code
        · subst hcode
          have hcleanup' : deleteOutdatedIterations setup isPauseCancelled code' s =
              (.ok count, s₁) := by
            rcases List.mem_cons.mp h with heq | hmem
            · rw [hcleanup, hreport count (Prod.mk.inj heq).2.symm]
            · -- another report of the job would be one of a job that comes later
              exact absurd
                ((reconcileRegistryJobs_reports isPauseCancelled hsound₁ hseparated').1.subset
                  (List.mem_map_of_mem hmem)) hfresh
          have hgone := deleteOutdatedIterations_clears hsound (hseparated code' List.mem_cons_self)
            hget hn hkept hpos hold hquiet hcleanup'
          exact (reconcileRegistryJobs_keeps isPauseCancelled
            (I := fun s => Sweep.Sound setup keys after s ∧
              Sweep.Gone (setup.paths.buildJobIterationPath code' i) s)
            (fun s hs => hs.1) hseparated'
            (fun code _ => ⟨u64Max, fun s _ => Sweep.bounded_u64Max code s,
              Sweep.stable_sound.and Sweep.stable_gone⟩) ⟨hsound₁, hgone⟩).2
        · have hmem := (List.mem_cons.mp h).resolve_left (fun heq => hcode (Prod.mk.inj heq).1.symm)
          obtain ⟨⟨hsound₁, hkept₁, hquiet₁⟩, -⟩ := deleteOutdatedIterations_keeps
            (I := fun s => Sweep.Sound setup keys after s ∧
              Sweep.Kept (setup.paths.buildJobIterationPath code n) s ∧
              Sweep.NotWritten (setup.paths.buildJobIterationPath code i) s)
            (Sweep.stable_sound.and ((Sweep.stable_kept (not_outdatedAt_of_ne hcode hn)).and
              Sweep.stable_notWritten)) (fun s hs => hs.1) (hseparated code' List.mem_cons_self)
            (fun s _ => Sweep.bounded_u64Max code' s) ⟨hsound, hkept, hquiet⟩ hcleanup
          exact ih hnodup hseparated' hsound₁ hkept₁ hquiet₁ hmem
      · rw [hpass] at h
        cases h
      · rw [hpass] at h
        simp at h

/-- Whatever a pass deletes is an iteration of one of its jobs. -/
theorem removed_reconcileRegistryJobs {s : Sweep setup.client}
    (hsound : Sweep.Sound setup keys after s) {jobCodes : List String}
    (hseparated : ∀ code ∈ jobCodes, ∀ code' ∈ codes, ¬JobPaths.Extends code code') :
    ∀ key ∈ (reconcileRegistryJobs setup isPauseCancelled jobCodes s).2.removed,
      key ∈ s.removed ∨ ∃ code ∈ jobCodes, OutdatedAt setup code u64Max key := by
  refine (reconcileRegistryJobs_keeps isPauseCancelled
    (I := fun s' => Sweep.Sound setup keys after s' ∧
    ∀ key ∈ s'.removed, key ∈ s.removed ∨ ∃ code ∈ jobCodes, OutdatedAt setup code u64Max key)
    (fun _ hs => hs.1) hseparated ?_ ⟨hsound, fun _ => Or.inl⟩).2
  intro code hcode
  refine ⟨u64Max, fun s _ => Sweep.bounded_u64Max code s, Sweep.stable_sound.and ⟨?_, ?_⟩⟩
  · intro s' incident incidents _ h
    exact h
  · intro s' keys' hkeys h key hkey
    rcases List.mem_append.mp hkey with hnew | hold
    · exact Or.inr ⟨code, hcode, hkeys key hnew⟩
    · exact h key hold

end Pass

end JobCleaner

/-- In every run of a pass over the registered jobs, with any provider, whatever requests fail,
take effect in part or are cancelled, and whatever others create and delete meanwhile: where the
pass reports success for a job, an iteration that fell out of the retention below one that stays
is gone, unless somebody wrote it meanwhile; an iteration within the retention of the newest one
that is ever stored is not deleted; nothing but iterations of registered jobs is deleted; and the
pass reports the jobs in their order, all of them unless it waits for a request or is
cancelled. -/
theorem reconciliation_clears_tails (setup : CleanerSetup)
    (isPauseCancelled : String → CleanupCall → Nat → Bool) {codes : List String}
    {keys : KeySpace setup.paths codes} {after : String → String → Prop}
    (hseparated : ∀ code ∈ setup.registry.listJobs, ∀ code' ∈ codes, ¬JobPaths.Extends code code')
    {s s' : Sweep setup.client} (hsound : Sweep.Sound setup keys after s)
    {reports : List (String × Except InternalError Nat)}
    (hpass : JobCleaner.reconcileRegistryJobs setup isPauseCancelled setup.registry.listJobs s =
      (reports, s')) :
    (∀ code jobDef, setup.registry.jobsByCode.get code = some jobDef →
      (∀ count, (code, .ok count) ∈ reports → ∀ n ≤ u64Max,
        Sweep.Kept (setup.paths.buildJobIterationPath code n) s →
        ∀ i, 0 < i → i + jobDef.iterationRetention ≤ n →
          Sweep.NotWritten (setup.paths.buildJobIterationPath code i) s →
            s'.store.objects (setup.paths.buildJobIterationPath code i) = none) ∧
      ∀ N, Sweep.Bounded setup code N s → ∀ i ≤ u64Max, N < i + jobDef.iterationRetention →
        setup.paths.buildJobIterationPath code i ∉ s.removed →
          setup.paths.buildJobIterationPath code i ∉ s'.removed) ∧
      (∀ key ∈ s'.removed, key ∈ s.removed ∨ ∃ code ∈ setup.registry.listJobs, ∃ i ≤ u64Max,
        key = setup.paths.buildJobIterationPath code i) ∧
      reports.map Prod.fst <+: setup.registry.listJobs ∧
      (reports.map Prod.fst = setup.registry.listJobs ∨ s'.incidents = [] ∨
        ∃ code, (code, .error .cancelled) ∈ reports) := by
  have hreports := JobCleaner.reconcileRegistryJobs_reports isPauseCancelled
    hsound hseparated
  have hremoved := JobCleaner.removed_reconcileRegistryJobs isPauseCancelled
    hsound hseparated
  rw [hpass] at hreports hremoved
  refine ⟨fun code jobDef hget => ⟨?_, ?_⟩, ?_, hreports.1, hreports.2⟩
  · intro count hreport n hn hkept i hpos hold hquiet
    have hgone := JobCleaner.reconcileRegistryJobs_clears isPauseCancelled
      setup.registry.jobsByCode.nodup hseparated hsound hget hn hkept hpos hold hquiet (by
        rw [JobRegistry.listJobs, KeyedMap.keys] at hpass
        rw [hpass]
        exact hreport)
    rw [JobRegistry.listJobs, KeyedMap.keys] at hpass
    rw [hpass] at hgone
    exact hgone.1
  · intro N hbounded i hi hnear hspared
    have hkeeps := JobCleaner.reconcileRegistryJobs_keeps isPauseCancelled
      (I := fun s => Sweep.Sound setup keys after s ∧ Sweep.Bounded setup code N s ∧
        setup.paths.buildJobIterationPath code i ∉ s.removed)
      (fun s hs => hs.1) hseparated ?_ ⟨hsound, hbounded, hspared⟩
    · rw [hpass] at hkeeps
      exact hkeeps.2.2
    · intro code' _
      by_cases hcode : code' = code
      · subst hcode
        refine ⟨N, fun s hs => hs.2.1, Sweep.stable_sound.and
          (Sweep.stable_bounded.and (Sweep.stable_spared ?_))⟩
        rintro ⟨j, jobDef', hget', hj, hold, hkey⟩
        rw [hget] at hget'
        cases hget'
        obtain ⟨-, rfl⟩ := setup.paths.buildJobIterationPath_inj code' hj hi hkey
        omega
      · exact ⟨u64Max, fun s _ => Sweep.bounded_u64Max code' s, Sweep.stable_sound.and
          (Sweep.stable_bounded.and
            (Sweep.stable_spared (JobCleaner.not_outdatedAt_of_ne hcode hi)))⟩
  · intro key hkey
    rcases hremoved key hkey with hold | ⟨code, hcode, i, -, -, hi, -, rfl⟩
    · exact Or.inl hold
    · exact Or.inr ⟨code, hcode, i, hi, rfl⟩

/-! ## A pass whose requests fail -/

/-- Lists, in one page, what is stored of some keys. -/
def keyLister (bound : ListingStartBound) (keys : List String) (store : ObjectStore)
    (request : ListingRequest) : Except StorageError ListedPage :=
  .ok
    { objects := (keys.filter fun key => (store.contents key).isSome ∧
        request.directory.toList <+: key.toList ∧ bound.Admits key request.startKey).map
          fun key => ⟨key, store.contents key⟩
      nextCursor := none }

/-- Of sorted keys that is an honest listing. -/
theorem keyLister_honest (bound : ListingStartBound) {keys : List String}
    (hsorted : keys.Pairwise (· < ·)) :
    ListsHonestly (· ∈ keys) (fun _ _ => False) bound (keyLister bound keys) := by
  refine ⟨?_, ?_⟩
  · rintro store request page hkeys ⟨⟩
    refine ⟨?_, ?_, ?_, fun h => absurd rfl h⟩
    · intro object hobject
      obtain ⟨key, hkey, rfl⟩ := List.mem_map.mp hobject
      obtain ⟨-, hasked⟩ := List.mem_filter.mp hkey
      obtain ⟨hstored, hunder, -⟩ := of_decide_eq_true hasked
      exact ⟨hstored, hunder⟩
    · rw [List.map_map]
      exact (List.map_id _).symm ▸ hsorted.sublist List.filter_sublist
    · intro key hkey hunder hreaches hcursor
      refine Or.inl ?_
      rw [List.map_map]
      refine List.mem_map.mpr ⟨key, List.mem_filter.mpr ⟨hkeys key hkey, decide_eq_true ?_⟩, rfl⟩
      cases hrequest : request.cursor with
      | none => exact ⟨hkey, hunder, ListingStartBound.admits_iff.mpr (hreaches hrequest)⟩
      | some cursor => exact (hcursor cursor hrequest).elim
  · rintro store request details _ ⟨⟩

/-- A job that keeps five iterations, in batches of two. -/
def sweptSetup : CleanerSetup where
  paths := ⟨"jobs", .json⟩
  registry := ⟨KeyedMap.empty.insert { soloDefinition "a" with iterationRetention := 5 },
    fun _ => none, by decide⟩
  maxAttempts := 3
  provider := .s3 ⟨2, by decide⟩
  listingStartBound := .exclusive
  listPageSize := 1000

def sweptKey (n : Nat) : String := sweptSetup.paths.buildJobIterationPath "a" n

/-- The keys of its first eight iterations. -/
def sweptKeys : List String := [8, 7, 6, 5, 4, 3, 2, 1].map sweptKey

def sweptSpace : KeySpace sweptSetup.paths ["a"] where
  Holds := (· ∈ sweptKeys)
  iterations := by
    intro key hkey _
    obtain ⟨n, hn, rfl⟩ := List.mem_map.mp hkey
    refine ⟨"a", by decide, .json, n, ?_, rfl⟩
    have hle : ∀ n ∈ [8, 7, 6, 5, 4, 3, 2, 1], n ≤ u64Max := by decide
    exact hle n hn

/-- Seven iterations are stored. -/
def sweptStore : ObjectStore where
  objects := fun key =>
    if key ∈ sweptKeys.tail then some ⟨"v1", StoredJob.fromJob (ObjectStorage.loadedJob "")⟩
    else none
  issued := ["v1"]
  details := ""

/-- A listing fails and is repeated, a worker starts the next iteration, and a batch deletes one
of its two keys only before it is repeated. -/
def sweptIncidents : List (Incident sweptSetup.client) :=
  let answered : Incident sweptSetup.client :=
    ⟨[], false, keyLister .exclusive sweptKeys, .finished (.ok []), fun _ => true⟩
  [answered, { answered with lists := fun _ _ => .error .serviceUnavailable }, answered,
    { answered with
      events :=
        [.put (sweptKey 8) (StoredJob.fromJob (ObjectStorage.loadedJob "")) .createOnly "v2"]
      answer := .finished (.ok [⟨some (sweptKey 2), some "SlowDown", none⟩])
      picks := fun key => key = sweptKey 1 },
    answered]

def sweptSweep : Sweep sweptSetup.client := ⟨sweptStore, sweptIncidents, []⟩

theorem sweptKeys_sorted : sweptKeys.Pairwise (· < ·) := by decide +kernel

theorem sweptStore_seven : (sweptStore.objects (sweptKey 7)).isSome := by decide +kernel

theorem sweptSweep_events : ∀ incident ∈ sweptSweep.incidents, ∀ event ∈ incident.events,
    event =
      .put (sweptKey 8) (StoredJob.fromJob (ObjectStorage.loadedJob "")) .createOnly "v2" := by
  intro incident hincident event hevent
  simp only [sweptSweep, sweptIncidents, List.mem_cons, List.not_mem_nil, or_false] at hincident
  rcases hincident with rfl | rfl | rfl | rfl | rfl
  · cases hevent
  · cases hevent
  · cases hevent
  · exact List.mem_singleton.mp hevent
  · cases hevent

theorem sweptSweep_sound :
    Sweep.Sound sweptSetup sweptSpace (fun _ _ => False) sweptSweep := by
  have hlists := keyLister_honest .exclusive sweptKeys_sorted
  refine ⟨?_, ?_, ?_⟩
  · intro key hkey
    rw [ObjectStore.isSome_contents] at hkey
    by_contra hnot
    have hnot' : key ∉ sweptKeys.tail := fun hmem => hnot (List.mem_of_mem_tail hmem)
    simp [sweptSweep, sweptStore, hnot'] at hkey
  · intro incident hincident event hevent key hput
    rw [sweptSweep_events incident hincident event hevent] at hput
    obtain rfl := of_decide_eq_true hput
    exact List.mem_cons_self
  · intro incident hincident
    simp only [sweptSweep, sweptIncidents, List.mem_cons, List.not_mem_nil, or_false] at hincident
    rcases hincident with rfl | rfl | rfl | rfl | rfl
    · exact hlists
    · refine ⟨?_, ?_⟩
      · rintro store request page _ ⟨⟩
      · rintro store request details _ ⟨⟩
    · exact hlists
    · exact hlists
    · exact hlists

theorem le_eight_of_mem_sweptKeys {n : Nat} (hn : n ≤ u64Max) (h : sweptKey n ∈ sweptKeys) :
    n ≤ 8 := by
  obtain ⟨m, hm, hkey⟩ := List.mem_map.mp h
  have hle : ∀ m ∈ [8, 7, 6, 5, 4, 3, 2, 1], m ≤ 8 ∧ m ≤ u64Max := by decide
  obtain ⟨-, rfl⟩ := sweptSetup.paths.buildJobIterationPath_inj "a" hn (hle m hm).2 hkey
  exact (hle m hm).1

theorem sweptSweep_cleared :
    ∃ reports s',
      JobCleaner.reconcileRegistryJobs sweptSetup (fun _ _ _ => false)
          sweptSetup.registry.listJobs sweptSweep = (reports, s') ∧
        reports.map (fun report => (report.1, report.2.toOption)) = [("a", some 2)] ∧
        s'.store.objects (sweptKey 2) = none ∧ sweptKey 4 ∉ s'.removed := by
  have hreported : ((JobCleaner.reconcileRegistryJobs sweptSetup (fun _ _ _ => false)
      sweptSetup.registry.listJobs sweptSweep).1.map fun report =>
        (report.1, report.2.toOption)) = [("a", some 2)] := by
    decide +kernel
  have hpass := reconciliation_clears_tails sweptSetup (fun _ _ _ => false) (by decide)
    sweptSweep_sound rfl
  have hjob := hpass.1 "a" _ (KeyedMap.get_insert_self _ _)
  refine ⟨_, _, rfl, hreported, ?_, ?_⟩
  · obtain ⟨⟨code, report⟩, hmem, hreport⟩ : ∃ report ∈ (JobCleaner.reconcileRegistryJobs sweptSetup
        (fun _ _ _ => false) sweptSetup.registry.listJobs sweptSweep).1,
          (report.1, report.2.toOption) = ("a", some 2) :=
      List.mem_map.mp (hreported ▸ List.mem_singleton_self _)
    obtain ⟨rfl, hok⟩ := Prod.mk.inj hreport
    rw [toOption_eq_some] at hok
    subst hok
    refine hjob.1 2 hmem 7 (by decide) ⟨sweptStore_seven, ?_⟩ 2 (by decide) (by decide) ?_
    · intro incident hincident event hevent
      rw [sweptSweep_events incident hincident event hevent]
      rfl
    · intro incident hincident event hevent
      rw [sweptSweep_events incident hincident event hevent]
      decide +kernel
  · refine hjob.2 8 ⟨?_, ?_⟩ 4 (by decide) (by decide) (by simp [sweptSweep])
    · intro n hn
      exact le_eight_of_mem_sweptKeys hn.1 (sweptSweep_sound.stored _ hn.2)
    · intro incident hincident event hevent n hn hput
      exact le_eight_of_mem_sweptKeys hn (sweptSweep_sound.writes _ hincident _ hevent _ hput)

end JobManager
