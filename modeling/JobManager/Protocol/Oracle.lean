import JobManager.Protocol.Replay

/-!
# The storage of tests against the object storage

The in-memory storage stands for the object storage where it takes and refuses the same
saves and answers the same reads.  The saves always agree.  The reads agree unless an object
of another job lies in the directory of the job and sorts before its newest one: the listing
then names a version no iteration of the job has.

Main results:

- Theorem {lit}`saves_agree`: a save of a worker is taken by both or refused by both.
- Theorem {lit}`reads_agree_iff`: a read is answered alike exactly when no key in the
  directory of the job comes before the newest one of the job.
- Theorem {lit}`memory_mirrors_objects`: both in every reachable replay, and what a read
  answers that other calls overtake.
-/

namespace JobManager

variable {κ : Clocks}

/-! ## Saves and reads of both storages -/

/-- Both storages take the save, or both refuse it with a conflict and stay as they are. -/
def SavesAlike (paths : JobPaths) (r : Replay) (job : Job) (taken : Bool) : Prop :=
  ∀ token,
    if taken then
      (∃ saved, (ObjectStorage.saveJob paths token job r.objects).1 = .ok saved) ∧
        ∃ saved, (InMemoryStorage.saveJob (r.renamed job) r.memory).1 = .ok saved
    else
      (∃ message, ObjectStorage.saveJob paths token job r.objects =
        (.error (.concurrentModification message), r.objects)) ∧
        ∃ message, InMemoryStorage.saveJob (r.renamed job) r.memory =
          (.error (.concurrentModification message), r.memory)

/-- Both reads find nothing, or the same iteration with the same persisted state under the
versions that name it. -/
def SameAnswer (names : String → String) : Except StorageError Job → Except StorageError Job → Prop
  | .ok job, .ok held =>
      held.iterNum = job.iterNum ∧ StoredJob.fromJob held = StoredJob.fromJob job ∧
        held.version = names job.version
  | .error (.notFound _), .error (.notFound _) => True
  | _, _ => False

/-- No key in the directory of the job comes before the newest one of the job. -/
def OwnFirst (paths : JobPaths) (contents : Contents) (code : String) : Prop :=
  ∀ n, SavedFor paths contents code n → (∀ m, SavedFor paths contents code m → m ≤ n) →
    ∀ key, (contents key).isSome → (paths.buildJobPrefix code).toList <+: key.toList →
      paths.buildJobIterationPath code n ≤ key

section Answers

variable {registry : JobRegistry} {paths : JobPaths} {r r' : Replay} {code : String}
  {jobDef : JobDefinition} {w : Uuid} {job : Job} {purpose : Purpose} {provider : Backend}

theorem saves_agree (hdef : jobDef.WellFormed) (hinv : ReplayInv κ registry paths r)
    (hget : registry.jobsByCode.get code = some jobDef)
    (hphase : ((r.systems code).workers w).phase = .saving job purpose)
    (hn : job.iterNum ≤ u64Max) : SavesAlike paths r job ((r.histories code).accepts job) := by
  intro token
  obtain ⟨hobjects, hmemory⟩ := hinv.accepts hdef hget hphase hn
  cases htaken : (r.histories code).accepts job with
  | true =>
      rw [if_pos rfl, ObjectStorage.saveJob_eq, if_pos (hobjects.trans htaken),
        InMemoryStorage.saveJob_allowed (hmemory.trans htaken)]
      exact ⟨⟨_, rfl⟩, _, rfl⟩
  | false =>
      rw [if_neg (by simp), ObjectStorage.saveJob_eq, hobjects.trans htaken, if_neg (by simp),
        InMemoryStorage.saveJob_refused (hmemory.trans htaken)]
      exact ⟨⟨_, rfl⟩, _, rfl⟩

/-- The stored iterations of a job are those of its history. -/
theorem Mirrors.saved_iff {histories : String → History} {store : ObjectStore}
    {memory : InMemoryStorage} {names : String → String}
    (h : Mirrors paths histories store memory names) {n : Nat} :
    SavedFor paths store.contents code n ↔
      n ≤ u64Max ∧ ∃ e, (histories code).current n = some e := by
  rw [SavedFor, ObjectStore.contents]
  refine and_congr_right fun hn => ?_
  rw [h.object code n hn]
  cases (histories code).current n <;> simp

/-- The newest stored iteration of a job is that of its latest version. -/
theorem ReplayInv.newest (hdef : jobDef.WellFormed) (hinv : ReplayInv κ registry paths r)
    (hget : registry.jobsByCode.get code = some jobDef) {c : Entry} {rest : History}
    (hlatest : r.histories code = c :: rest) :
    SavedFor paths r.objects.contents code c.iterNum ∧
      (∀ m, SavedFor paths r.objects.contents code m → m ≤ c.iterNum) ∧
      r.objects.objects (paths.buildJobIterationPath code c.iterNum) =
        some ⟨c.version, c.state⟩ := by
  have hlinear := reachable_linear hdef (hinv.runs hget)
  rw [show (r.systems code).history = c :: rest from hlatest] at hlinear
  have hn := hinv.mirrors.numbers code c (by rw [hlatest]; exact List.mem_cons_self)
  have hcurrent : (r.histories code).current c.iterNum = some c := by
    rw [hlatest, current_cons, if_pos rfl]
  refine ⟨hinv.mirrors.saved_iff.mpr ⟨hn, c, hcurrent⟩, ?_, ?_⟩
  · intro m hm
    obtain ⟨-, hstored⟩ := hinv.mirrors.saved_iff.mp hm
    rw [hlatest] at hstored
    exact (((hlinear.newest_head hdef).1 m).mp hstored).2
  · rw [hinv.mirrors.object code _ hn, hcurrent]
    rfl

/-- The key a read of a stored job starts from is that of some iteration of some job. -/
theorem ReplayInv.keyOf (hinv : ReplayInv κ registry paths r) {key version : String}
    (hkey : r.objects.contents key = some version) :
    ∃ code' n e, n ≤ u64Max ∧ key = paths.buildJobIterationPath code' n ∧
      (r.histories code').current n = some e ∧ e.version = version := by
  rw [ObjectStore.contents, Option.map_eq_some_iff] at hkey
  obtain ⟨object, hobject, hversion⟩ := hkey
  obtain ⟨code', n, hn, rfl⟩ := hinv.mirrors.keys key (by simp [hobject])
  rw [hinv.mirrors.object code' n hn, Option.map_eq_some_iff] at hobject
  obtain ⟨e, he, rfl⟩ := hobject
  exact ⟨code', n, e, hn, rfl, he, hversion⟩

/-- What the listing of a job names: nothing at all, the latest version of the job, or a
version of another job whose key comes before those of this one. -/
theorem ReplayInv.listing (hdef : jobDef.WellFormed) (hinv : ReplayInv κ registry paths r)
    (hget : registry.jobsByCode.get code = some jobDef)
    (hlists : provider.Lists r.objects.contents) :
    (r.histories code = [] ∧ findJobMeta paths provider code =
        .error (.notFound "No job state objects found for requested job")) ∨
      (∃ c rest, r.histories code = c :: rest ∧ OwnFirst paths r.objects.contents code ∧
        findJobMeta paths provider code = .ok ⟨code, c.iterNum, c.version⟩) ∨
      ∃ code' n e, code' ≠ code ∧ n ≤ u64Max ∧ (r.histories code').current n = some e ∧
        findJobMeta paths provider code = .ok ⟨code, n, e.version⟩ ∧
        (r.histories code ≠ [] → ¬OwnFirst paths r.objects.contents code) := by
  have hown : ∀ n, (paths.buildJobPrefix code).toList <+:
      (paths.buildJobIterationPath code n).toList :=
    fun n => (paths.under_buildJobPrefix code n).mpr (Or.inl rfl)
  rcases findJobMeta_first hlists with
    ⟨hfind, hnothing⟩ | ⟨key, version, hkey, hunder, hleast, hfind⟩
  · left
    refine ⟨?_, hfind⟩
    cases hlatest : r.histories code with
    | nil => rfl
    | cons c rest =>
        exact absurd (hown _) (hnothing _ (hinv.newest hdef hget hlatest).1.2)
  · obtain ⟨code', n, e, hn, rfl, he, rfl⟩ := hinv.keyOf hkey
    rw [paths.parseIterNum_buildJobIterationPath code' hn] at hfind
    by_cases hcode : code' = code
    · -- the least key of the directory is one of the job, so it is the newest
      subst hcode
      right; left
      cases hlatest : r.histories code' with
      | nil =>
          rw [hlatest] at he
          cases he
      | cons c rest =>
          obtain ⟨hsaved, hmost, -⟩ := hinv.newest hdef hget hlatest
          have hle := hmost n (hinv.mirrors.saved_iff.mpr ⟨hn, e, he⟩)
          have hn' : n = c.iterNum := by
            by_contra hne
            have hlt := (paths.buildJobIterationPath_lt_iff code' hn hsaved.1).mpr (by omega)
            exact absurd (hleast _ hsaved.2 (hown _)) (not_le.mpr hlt)
          subst hn'
          rw [hlatest, current_cons, if_pos rfl] at he
          rw [← Option.some.inj he] at hfind
          refine ⟨c, rest, rfl, ?_, hfind⟩
          intro m hm hmost' key' hkey' hunder'
          have hm' : m = c.iterNum := Nat.le_antisymm (hmost m hm) (hmost' _ hsaved)
          rw [hm']
          exact hleast key' hkey' hunder'
    · right; right
      refine ⟨code', n, e, hcode, hn, he, hfind, ?_⟩
      intro hstored hfirst
      cases hlatest : r.histories code with
      | nil => exact hstored hlatest
      | cons c rest =>
          obtain ⟨hsaved, hmost, -⟩ := hinv.newest hdef hget hlatest
          have hle := hfirst _ hsaved hmost _ (by simp [hkey]) hunder
          have heq := le_antisymm hle (hleast _ hsaved.2 (hown _))
          exact hcode (paths.buildJobIterationPath_inj code hn hsaved.1 heq).1.symm

/-- A read of the version a listing named: that version, or a conflict once it is
replaced. -/
theorem ReplayInv.attempt_own (hdef : jobDef.WellFormed) (hinv : ReplayInv κ registry paths r)
    (hget : registry.jobsByCode.get code = some jobDef) {c : Entry} (hc : c ∈ r.histories code)
    (hfind : findJobMeta paths provider code = .ok ⟨code, c.iterNum, c.version⟩) :
    ObjectStorage.attemptGetJob paths registry provider r.objects code =
        .ok (.done (c.load jobDef)) ∨
      (∃ message, ObjectStorage.attemptGetJob paths registry provider r.objects code =
        .ok (.retry (.concurrentModification message))) ∧
        (r.histories code).current c.iterNum ≠ some c := by
  obtain ⟨e, he⟩ := current_of_mem hc
  obtain ⟨hmem, hiter⟩ := current_mem he
  have hobject : r.objects.objects (paths.buildJobIterationPath code c.iterNum) =
      some ⟨e.version, e.state⟩ := by
    rw [hinv.mirrors.object code _ (hinv.mirrors.numbers code c hc), he]
    rfl
  rw [ObjectStorage.attemptGetJob, hfind]
  by_cases hversion : e.version = c.version
  · left
    obtain ⟨g, hsystem⟩ := reachable_inv hdef (hinv.runs hget)
    have hstate := hsystem.versions e hmem c hc hiter hversion
    have hcode : e.state.code = code :=
      ((reachable_ofCode hdef (hinv.runs hget)).entries e hmem).trans (KeyedMap.key_of_get hget)
    have hread : ObjectStorage.getJobByMeta paths registry r.objects ⟨code, c.iterNum, c.version⟩ =
        .ok (c.load jobDef) :=
      ObjectStorage.getJobByMeta_eq_ok.mpr ⟨_, jobDef, hobject, hversion, by rw [hcode, hget], by
        rw [hstate]
        rfl⟩
    simp only [hread]
  · right
    refine ⟨⟨r.objects.details, ?_⟩, ?_⟩
    · simp [ObjectStorage.getJobByMeta, ObjectStore.getObject, hobject, hversion, bind, Except.bind,
        StorageError.isConflict]
    · intro hsame
      rw [he] at hsame
      cases hsame
      exact hversion rfl

/-- A read of a version of another job finds no iteration of this job under it. -/
theorem ReplayInv.attempt_foreign (hinv : ReplayInv κ registry paths r) {code' : String}
    (hcode : code' ≠ code) {n : Nat} (hn : n ≤ u64Max) {e : Entry} (he : e ∈ r.histories code')
    (hfind : findJobMeta paths provider code = .ok ⟨code, n, e.version⟩) :
    (∃ message, ObjectStorage.attemptGetJob paths registry provider r.objects code =
        .error (.notFound message)) ∨
      (∃ message, ObjectStorage.attemptGetJob paths registry provider r.objects code =
        .ok (.retry (.concurrentModification message))) ∧ r.histories code ≠ [] := by
  have hobject := hinv.mirrors.object code n hn
  rw [ObjectStorage.attemptGetJob, hfind]
  cases hcurrent : (r.histories code).current n with
  | none =>
      left
      rw [hcurrent] at hobject
      refine ⟨r.objects.details, ?_⟩
      simp [ObjectStorage.getJobByMeta, ObjectStore.getObject, hobject, bind, Except.bind,
        StorageError.isRetryable, StorageError.isConflict]
  | some c =>
      right
      rw [hcurrent] at hobject
      have hmem := (current_mem hcurrent).1
      have hversion : c.version ≠ e.version :=
        fun heq => hcode (hinv.mirrors.tokens code code' c hmem e he heq).symm
      refine ⟨⟨r.objects.details, ?_⟩, List.ne_nil_of_mem hmem⟩
      simp [ObjectStorage.getJobByMeta, ObjectStore.getObject, hobject, hversion, bind, Except.bind,
        StorageError.isConflict]

/-- The in-memory storage answers with the latest version of the job. -/
theorem ReplayInv.sameAnswer_latest (hinv : ReplayInv κ registry paths r) {c : Entry}
    {rest : History} (hlatest : r.histories code = c :: rest) (jobDef : JobDefinition) :
    SameAnswer r.names (.ok (c.load jobDef)) (r.memory.getJob code) := by
  obtain ⟨maxIterations, iterationInterval, taskLimits, hheld⟩ :=
    hinv.mirrors.held code c rest hlatest
  rw [InMemoryStorage.getJob, hheld]
  exact ⟨rfl, rfl, rfl⟩

theorem ReplayInv.getJob_absent (hinv : ReplayInv κ registry paths r)
    (hempty : r.histories code = []) :
    r.memory.getJob code = .error (.notFound "Job is absent in in-memory storage") := by
  rw [InMemoryStorage.getJob, hinv.mirrors.absent code hempty]

/-- A stored job is never answered as absent by the in-memory storage. -/
theorem ReplayInv.not_sameAnswer_error (hinv : ReplayInv κ registry paths r)
    (hstored : r.histories code ≠ []) (e : StorageError) :
    ¬SameAnswer r.names (.error e) (r.memory.getJob code) := by
  obtain ⟨c, rest, hlatest⟩ := List.exists_cons_of_ne_nil hstored
  obtain ⟨maxIterations, iterationInterval, taskLimits, hheld⟩ :=
    hinv.mirrors.held code c rest hlatest
  rw [InMemoryStorage.getJob, hheld]
  cases e <;> simp [SameAnswer]

/-- A read is answered alike exactly when no key in the directory of the job comes before the
newest one of the job. -/
theorem reads_agree_iff (hdef : jobDef.WellFormed) (hinv : ReplayInv κ registry paths r)
    (hget : registry.jobsByCode.get code = some jobDef)
    (hlists : provider.Lists r.objects.contents) (maxAttempts : Nat) :
    SameAnswer r.names
        (ObjectStorage.getJob paths registry maxAttempts (fun _ => provider) (fun _ => r.objects)
          code) (r.memory.getJob code) ↔
      OwnFirst paths r.objects.contents code := by
  have hvacuous : r.histories code = [] → OwnFirst paths r.objects.contents code := by
    intro hempty n hn
    obtain ⟨-, e, he⟩ := hinv.mirrors.saved_iff.mp hn
    rw [hempty] at he
    cases he
  have hattempt : ∀ {e}, ObjectStorage.attemptGetJob paths registry provider r.objects code =
      .error e → ObjectStorage.getJob paths registry maxAttempts (fun _ => provider)
        (fun _ => r.objects) code = .error e :=
    fun h => Retrier.retry_of_error h
  rcases hinv.listing hdef hget hlists with ⟨hempty, hfind⟩ | ⟨c, rest, hlatest, hfirst, hfind⟩ |
    ⟨code', n, e, hcode, hn, he, hfind, hnot⟩
  · refine iff_of_true ?_ (hvacuous hempty)
    rw [hattempt (by rw [ObjectStorage.attemptGetJob, hfind]; rfl), hinv.getJob_absent hempty]
    trivial
  · refine iff_of_true ?_ hfirst
    have hc : c ∈ r.histories code := by
      rw [hlatest]
      exact List.mem_cons_self
    rcases hinv.attempt_own hdef hget hc hfind with hdone | ⟨-, hreplaced⟩
    · rw [ObjectStorage.getJob, Retrier.retry_of_done hdone]
      exact hinv.sameAnswer_latest hlatest jobDef
    · rw [hlatest, current_cons, if_pos rfl] at hreplaced
      exact absurd rfl hreplaced
  · rcases hinv.attempt_foreign hcode hn (current_mem he).1 hfind with ⟨message, hmissing⟩ |
      ⟨⟨message, hconflict⟩, hstored⟩
    · rw [hattempt hmissing]
      by_cases hempty : r.histories code = []
      · refine iff_of_true ?_ (hvacuous hempty)
        rw [hinv.getJob_absent hempty]
        trivial
      · exact iff_of_false (hinv.not_sameAnswer_error hempty _) (hnot hempty)
    · rw [ObjectStorage.getJob, Retrier.retry_of_retry fun _ => hconflict]
      exact iff_of_false (hinv.not_sameAnswer_error hstored _) (hnot hstored)

/-- Where no registered code extends that of the job, its directory holds its own keys
only. -/
theorem ReplayInv.ownFirst (hinv : ReplayInv κ registry paths r)
    (hseparated : ∀ code' ∈ registry.listJobs, ¬JobPaths.Extends code code') :
    OwnFirst paths r.objects.contents code := by
  intro n hn hmost key hkey hunder
  obtain ⟨version, hversion⟩ := Option.isSome_iff_exists.mp hkey
  obtain ⟨code', m, e, hm, rfl, he, -⟩ := hinv.keyOf hversion
  rcases (paths.under_buildJobPrefix code m).mp hunder with rfl | hextends
  · have hle := hmost m (hinv.mirrors.saved_iff.mpr ⟨hm, e, he⟩)
    by_contra hlt
    have := (paths.buildJobIterationPath_lt_iff code hn.1 hm).mp (not_le.mp hlt)
    omega
  · cases hget' : registry.jobsByCode.get code' with
    | none =>
        rw [hinv.idle hget'] at he
        cases he
    | some jobDef' =>
        exact absurd hextends (hseparated code' (KeyedMap.mem_keys_iff.mpr ⟨jobDef', hget'⟩))

/-- A replay that goes on loses no version. -/
theorem Replay.histories_grow (h : Reachable (Replay.step κ registry paths) r r') :
    ∀ code, ∀ e ∈ r.histories code, e ∈ r'.histories code := by
  refine h.invariant (P := fun r' => ∀ code, ∀ e ∈ r.histories code, e ∈ r'.histories code)
    (fun _ _ he => he) ?_
  rintro r₁ ⟨code, action⟩ r₂ hgrows - hstep code' e he
  have hin := hgrows code' e he
  obtain ⟨jobDef, s, -, -, hends⟩ := Replay.step_cases hstep
  have hsystems : r₂.systems = Function.update r₁.systems code s := by
    rcases hends with ⟨-, rfl⟩ | ⟨w, token, delivered, job, purpose, -, -, -, -, -, -, -, rfl⟩
    · rfl
    · rfl
  have hkeeps : ∀ e ∈ r₁.histories code, e ∈ s.history := by
    rcases hends with ⟨hsame, -⟩ | ⟨w, token, delivered, job, purpose, -, -, -, -, hs, -, -, -⟩
    · rw [hsame]
      exact fun _ he => he
    · rw [hs, System.history_commit]
      exact fun _ he => List.mem_cons_of_mem _ he
  rw [Replay.histories, hsystems]
  by_cases hcode : code' = code
  · subst hcode
    rw [Function.update_self]
    exact hkeeps e hin
  · rw [Function.update_of_ne hcode]
    exact hin

/-- A read whose object is fetched later than it was listed answers what the in-memory storage
held at the listing, or finds that the job was saved in between and begins again. -/
theorem read_across_saves (hdef : jobDef.WellFormed) (hinv : ReplayInv κ registry paths r)
    (hinv' : ReplayInv κ registry paths r')
    (hgrows : ∀ code, ∀ e ∈ r.histories code, e ∈ r'.histories code)
    (hget : registry.jobsByCode.get code = some jobDef)
    (hlists : provider.Lists r.objects.contents) (hfirst : OwnFirst paths r.objects.contents code) :
    (∃ job, ObjectStorage.attemptGetJob paths registry provider r'.objects code =
        .ok (.done job) ∧ SameAnswer r.names (.ok job) (r.memory.getJob code)) ∨
      (∃ e, ObjectStorage.attemptGetJob paths registry provider r'.objects code = .error e ∧
        SameAnswer r.names (.error e) (r.memory.getJob code)) ∨
      (∃ message, ObjectStorage.attemptGetJob paths registry provider r'.objects code =
        .ok (.retry (.concurrentModification message))) ∧ r'.histories code ≠ r.histories code := by
  rcases hinv.listing hdef hget hlists with ⟨hempty, hfind⟩ | ⟨c, rest, hlatest, -, hfind⟩ |
    ⟨code', n, e, hcode, hn, he, hfind, hnot⟩
  · right; left
    refine ⟨_, by rw [ObjectStorage.attemptGetJob, hfind]; rfl, ?_⟩
    rw [hinv.getJob_absent hempty]
    trivial
  · have hc : c ∈ r.histories code := by
      rw [hlatest]
      exact List.mem_cons_self
    rcases hinv'.attempt_own hdef hget (hgrows code c hc) hfind with hdone | ⟨hconflict, hreplaced⟩
    · exact Or.inl ⟨_, hdone, hinv.sameAnswer_latest hlatest jobDef⟩
    · right; right
      refine ⟨hconflict, fun hsame => hreplaced ?_⟩
      rw [hsame, hlatest, current_cons, if_pos rfl]
  · have hempty : r.histories code = [] := by
      by_contra hstored
      exact hnot hstored hfirst
    rcases hinv'.attempt_foreign hcode hn (hgrows code' e (current_mem he).1) hfind with
      ⟨message, hmissing⟩ | ⟨hconflict, hstored⟩
    · right; left
      refine ⟨_, hmissing, ?_⟩
      rw [hinv.getJob_absent hempty]
      trivial
    · right; right
      refine ⟨hconflict, fun hsame => hstored (hsame.trans hempty)⟩

end Answers

/-- In every run of the workers of a registry: a save is taken by both storages or refused by
both with a conflict; a read is answered alike exactly when no key in the directory of the job
comes before the newest one of the job, as none does where no registered code extends that of
the job by a slash; and then a read that other calls overtake between its listing and its fetch
answers what the in-memory storage held at the listing, or begins again because the job was
saved in between. -/
theorem memory_mirrors_objects {jobs : List JobDefinition} {registry : JobRegistry}
    (haccepted : ∀ jobDef ∈ jobs, jobDef.Accepted) (hregistry : JobRegistry.new jobs = .ok registry)
    {paths : JobPaths} {details : String} {r : Replay}
    (h : Reachable (Replay.step κ registry paths) (.init details) r) {code : String}
    (hcode : code ∈ registry.listJobs) :
    (∀ w job purpose, ((r.systems code).workers w).phase = .saving job purpose →
        job.iterNum ≤ u64Max → SavesAlike paths r job ((r.histories code).accepts job)) ∧
      ((∀ code' ∈ registry.listJobs, ¬JobPaths.Extends code code') →
        OwnFirst paths r.objects.contents code) ∧
      ∀ provider : Backend, provider.Lists r.objects.contents →
        (∀ maxAttempts, SameAnswer r.names
            (ObjectStorage.getJob paths registry maxAttempts (fun _ => provider)
              (fun _ => r.objects) code) (r.memory.getJob code) ↔
          OwnFirst paths r.objects.contents code) ∧
        (OwnFirst paths r.objects.contents code →
          ∀ r', Reachable (Replay.step κ registry paths) r r' →
            (∃ job, ObjectStorage.attemptGetJob paths registry provider r'.objects code =
                .ok (.done job) ∧ SameAnswer r.names (.ok job) (r.memory.getJob code)) ∨
              (∃ e, ObjectStorage.attemptGetJob paths registry provider r'.objects code =
                .error e ∧ SameAnswer r.names (.error e) (r.memory.getJob code)) ∨
              (∃ message, ObjectStorage.attemptGetJob paths registry provider r'.objects code =
                .ok (.retry (.concurrentModification message))) ∧
                r'.histories code ≠ r.histories code) := by
  have hwellFormed : ∀ code jobDef, registry.jobsByCode.get code = some jobDef →
      jobDef.WellFormed :=
    fun _ jobDef hget => (haccepted jobDef (JobRegistry.mem_of_get_new hregistry hget)).wellFormed
  obtain ⟨jobDef, hget⟩ := KeyedMap.mem_keys_iff.mp hcode
  have hdef := hwellFormed code jobDef hget
  have hinv := reachable_mirrors hwellFormed h
  refine ⟨fun w job purpose hphase hn => saves_agree hdef hinv hget hphase hn, hinv.ownFirst, ?_⟩
  intro provider hlists
  refine ⟨reads_agree_iff hdef hinv hget hlists, ?_⟩
  intro hfirst r' hrun
  have hinv' : ReplayInv κ registry paths r' :=
    hrun.invariant hinv fun _ _ _ hinv _ hstep => hinv.step hwellFormed hstep
  exact read_across_saves hdef hinv hinv' (Replay.histories_grow hrun) hget hlists hfirst

/-! ## Two jobs -/

/-- One worker creates the first iteration of each of two jobs. -/
def twoCreations (code code' : String) : List (String × Action) :=
  [(code, .move 101 .readNothing), (code, .move 101 (.create 0 900 [1])),
    (code, .put 101 "v1" true), (code', .move 101 .readNothing),
    (code', .move 101 (.create 0 901 [2])), (code', .put 101 "v2" true)]

/-- The registry of two jobs and the replay their creation ends in. -/
def runTwoCreations (code code' : String) : Option (JobRegistry × Replay) := do
  let registry ← (JobRegistry.new [soloDefinition code, soloDefinition code']).toOption
  let r ← runActions (Replay.step .shared registry ⟨"jobs", .json⟩) (.init "refused")
    (twoCreations code code')
  return (registry, r)

theorem exists_of_runTwoCreations {code code' : String} {registry : JobRegistry} {r : Replay}
    (h : runTwoCreations code code' = some (registry, r)) :
    JobRegistry.new [soloDefinition code, soloDefinition code'] = .ok registry ∧
      Reachable (Replay.step .shared registry ⟨"jobs", .json⟩) (.init "refused") r := by
  simp only [runTwoCreations, Option.bind_eq_bind, Option.bind_eq_some_iff, Option.pure_def,
    Option.some.injEq, Prod.mk.injEq] at h
  obtain ⟨registry', hregistry, r', hrun, rfl, rfl⟩ := h
  exact ⟨toOption_eq_some.mp hregistry, reachable_of_runActions .init hrun⟩

theorem soloDefinitions_accepted (code code' : String) :
    ∀ jobDef ∈ [soloDefinition code, soloDefinition code'], jobDef.Accepted := by
  intro jobDef hmem
  rcases List.mem_cons.mp hmem with rfl | hmem
  · exact soloDefinition_accepted code
  · rw [List.mem_singleton.mp hmem]
    exact soloDefinition_accepted code'

/-- Both jobs hold their first iteration, under the versions their creations were answered
with. -/
def holdsBoth (code code' : String) (r : Replay) : Bool :=
  (r.histories code).map (fun e => (e.iterNum, e.version)) = [(1, "v1")] &&
    (r.histories code').map (fun e => (e.iterNum, e.version)) = [(1, "v2")]

/-- A provider of a store with the first iterations of both jobs. -/
def twoCreationsProvider (code code' : String) : Backend :=
  onePageProvider
    [⟨JobPaths.buildJobIterationPath ⟨"jobs", .json⟩ code 1, some "v1"⟩,
      ⟨JobPaths.buildJobIterationPath ⟨"jobs", .json⟩ code' 1, some "v2"⟩]

theorem twoCreationsProvider_lists {code code' : String} {registry : JobRegistry} {r : Replay}
    (h : runTwoCreations code code' = some (registry, r)) (hholds : holdsBoth code code' r = true)
    (hlt : JobPaths.buildJobIterationPath ⟨"jobs", .json⟩ code 1 <
      JobPaths.buildJobIterationPath ⟨"jobs", .json⟩ code' 1) :
    (twoCreationsProvider code code').Lists r.objects.contents := by
  obtain ⟨hregistry, hreach⟩ := exists_of_runTwoCreations h
  have hinv := reachable_mirrors (fun _ jobDef hget => (soloDefinitions_accepted code code' jobDef
    (JobRegistry.mem_of_get_new hregistry hget)).wellFormed) hreach
  simp only [holdsBoth, Bool.and_eq_true, decide_eq_true_eq] at hholds
  have hone : 1 ≤ u64Max := by decide
  -- what the store holds for a job whose history is one first version
  have hcontents : ∀ {code version}, (r.histories code).map (fun e => (e.iterNum, e.version)) =
      [(1, version)] →
      ∀ n e, (r.histories code).current n = some e → n = 1 ∧ e.version = version := by
    intro code version hhistory n e he
    obtain ⟨hmem, hiter⟩ := current_mem he
    have hin := List.mem_map_of_mem (f := fun e : Entry => (e.iterNum, e.version)) hmem
    rw [hhistory, List.mem_singleton, Prod.mk.injEq] at hin
    exact ⟨hiter.symm.trans hin.1, hin.2⟩
  have hstored : ∀ {code version}, (r.histories code).map (fun e => (e.iterNum, e.version)) =
      [(1, version)] → r.objects.contents
        (JobPaths.buildJobIterationPath ⟨"jobs", .json⟩ code 1) = some version := by
    intro code version hhistory
    obtain ⟨e, he, hpair⟩ :=
      List.exists_of_mem_map (hhistory ▸ List.mem_singleton_self (1, version))
    obtain ⟨c, hc⟩ := current_of_mem he
    rw [(Prod.mk.inj hpair).1] at hc
    rw [ObjectStore.contents, hinv.mirrors.object code 1 hone, hc]
    exact congrArg some (hcontents hhistory 1 c hc).2
  apply onePageProvider_lists
  · simpa using hlt
  · simp
  · intro key version
    constructor
    · intro hkey
      obtain ⟨code₁, n, e, -, rfl, he, rfl⟩ := hinv.keyOf hkey
      cases hget : registry.jobsByCode.get code₁ with
      | none =>
          rw [hinv.idle hget] at he
          cases he
      | some jobDef =>
          have hmem := JobRegistry.mem_of_get_new hregistry hget
          have hcode := KeyedMap.key_of_get hget
          rcases List.mem_cons.mp hmem with rfl | hmem
          · change code = code₁ at hcode
            subst hcode
            obtain ⟨rfl, hversion⟩ := hcontents hholds.1 n e he
            rw [hversion]
            exact List.mem_cons_self
          · obtain rfl := List.mem_singleton.mp hmem
            change code' = code₁ at hcode
            subst hcode
            obtain ⟨rfl, hversion⟩ := hcontents hholds.2 n e he
            rw [hversion]
            exact List.mem_cons_of_mem _ List.mem_cons_self
    · intro hlisted
      rcases List.mem_cons.mp hlisted with heq | hlisted
      · cases heq
        exact hstored hholds.1
      · cases List.mem_singleton.mp hlisted
        exact hstored hholds.2

/-- Both storages answer alike for two jobs whose codes do not extend each other. -/
theorem twoCreations_agree :
    ∃ registry r, runTwoCreations "a" "b" = some (registry, r) ∧
      (twoCreationsProvider "a" "b").Lists r.objects.contents ∧
      ∀ maxAttempts, SameAnswer r.names
        (ObjectStorage.getJob ⟨"jobs", .json⟩ registry maxAttempts
          (fun _ => twoCreationsProvider "a" "b") (fun _ => r.objects) "a")
        (r.memory.getJob "a") := by
  have hruns : (runTwoCreations "a" "b").any (fun (registry, r) => holdsBoth "a" "b" r &&
      registry.listJobs = ["a", "b"]) = true := by
    decide +kernel
  obtain ⟨⟨registry, r⟩, hrun, hcheck⟩ := (Option.any_eq_true _ _).mp hruns
  simp only [Bool.and_eq_true, decide_eq_true_eq] at hcheck
  obtain ⟨hholds, hjobs⟩ := hcheck
  obtain ⟨hregistry, hreach⟩ := exists_of_runTwoCreations hrun
  have hlists := twoCreationsProvider_lists hrun hholds (by decide +kernel)
  obtain ⟨-, hfirst, hreads⟩ := memory_mirrors_objects (soloDefinitions_accepted "a" "b") hregistry
    hreach (show "a" ∈ registry.listJobs by simp [hjobs])
  refine ⟨registry, r, hrun, hlists, fun maxAttempts => ?_⟩
  refine ((hreads _ hlists).1 maxAttempts).mpr (hfirst ?_)
  intro code' hcode'
  rw [hjobs] at hcode'
  rcases List.mem_cons.mp hcode' with rfl | hcode'
  · decide +kernel
  · rw [List.mem_singleton.mp hcode']
    decide +kernel

/-- Both jobs are held, the in-memory storage answers a read of the second with its first
iteration, and an attempt of the object storage to read it is to be repeated. -/
def readsDiffer (code code' : String) : JobRegistry × Replay → Bool
  | (registry, r) => holdsBoth code code' r &&
      (match r.memory.getJob code' with
        | .ok held => held.iterNum = 1
        | .error _ => false) &&
      (match ObjectStorage.attemptGetJob ⟨"jobs", .json⟩ registry (twoCreationsProvider code code')
          r.objects code' with
        | .ok (.retry cause) => cause = .concurrentModification "refused"
        | _ => false)

/-- With a job `a/b` beside the job `a`, the object storage never answers a read of `a`, which
the in-memory storage answers. -/
theorem nested_codes_disagree :
    ∃ registry r, runTwoCreations "a/b" "a" = some (registry, r) ∧
      Reachable (Replay.step .shared registry ⟨"jobs", .json⟩) (.init "refused") r ∧
      (twoCreationsProvider "a/b" "a").Lists r.objects.contents ∧
      (∃ held, r.memory.getJob "a" = .ok held ∧ held.iterNum = 1) ∧
      ∀ maxAttempts, ObjectStorage.getJob ⟨"jobs", .json⟩ registry maxAttempts
        (fun _ => twoCreationsProvider "a/b" "a") (fun _ => r.objects) "a" =
          .error (.attemptsSpent (.concurrentModification "refused")) := by
  have hruns : (runTwoCreations "a/b" "a").any (readsDiffer "a/b" "a") = true := by
    decide +kernel
  obtain ⟨⟨registry, r⟩, hrun, hcheck⟩ := (Option.any_eq_true _ _).mp hruns
  simp only [readsDiffer, Bool.and_eq_true] at hcheck
  obtain ⟨⟨hholds, hheld⟩, hattempt⟩ := hcheck
  refine ⟨registry, r, hrun, (exists_of_runTwoCreations hrun).2,
    twoCreationsProvider_lists hrun hholds (by decide +kernel), ?_, ?_⟩
  · split at hheld
    · exact ⟨_, ‹_›, of_decide_eq_true hheld⟩
    · cases hheld
  · intro maxAttempts
    split at hattempt
    · rename_i cause hcause
      rw [of_decide_eq_true hattempt] at hcause
      exact Retrier.retry_of_retry fun _ => hcause
    · cases hattempt

end JobManager
