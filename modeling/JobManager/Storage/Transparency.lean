import JobManager.Storage.Cached

/-!
# The cache is transparent

Whatever a cache serves was named by the store during the call.  An entry only ever holds a
state the store once held under the same version; a read serves it only after a request of its
own answered with that version, and a version names one content.

Main results:

- Theorem {lit}`CacheInv.step`: what caches and calls hold survives every action.
- Theorem {lit}`cached_reads_transparent`: an open iteration a read answers with was the
  current state at a moment of the call, a closed one is final, and an absence was one.
-/

namespace JobManager

/-! ## What caches and calls hold -/

/-- The job as a version of its iteration. -/
def Job.asVersion (job : Job) : Version StoredJob :=
  ⟨job.iterNum, job.version, StoredJob.fromJob job⟩

/-- The store once held the job as it is, under the version it carries. -/
def WasStored (logs : JobLogs) (code : String) (job : Job) : Prop :=
  job.code = code ∧ job.asVersion ∈ logs code

/-- At some moment between two, the newest iteration was the one the meta names. -/
def WasNamed (since till : JobLog) (jobMeta : JobMeta) : Prop :=
  ∃ (log : JobLog) (content : StoredJob), since <:+ log ∧ log <:+ till ∧
    log.IsNewest jobMeta.iterNum jobMeta.version content

/-- At some moment between two, the job was the current state. -/
def WasCurrent (since till : JobLog) (job : Job) : Prop :=
  ∃ log : JobLog, since <:+ log ∧ log <:+ till ∧
    log.IsNewest job.iterNum job.version (StoredJob.fromJob job)

/-- What may be said of an answer to a read made between two moments. -/
def Answers (logs : JobLogs) (code : String) (since till : JobLog) :
    Except StorageError Job → Prop
  | .ok job => WasStored logs code job ∧ (job.isProcessed = false → WasCurrent since till job)
  | .error (.notFound _) => since = []
  | .error _ => True

/-- What holds of a call, by where it stands. -/
def PhaseHolds (logs : JobLogs) (code : String) (since : JobLog) : CachePhase → Prop
  | .checking cached => WasStored logs code cached
  | .writingBack _ job => Answers logs code since (logs code) (.ok job)
  | .discovered jobMeta => jobMeta.code = code ∧ WasNamed since (logs code) jobMeta
  | .fetching jobMeta _ => jobMeta.code = code ∧ WasNamed since (logs code) jobMeta
  | .returned answer ended =>
      since <:+ ended ∧ ended <:+ logs code ∧ Answers logs code since ended answer
  | .getJobByMeta jobMeta => jobMeta.code = code
  | .fetchingByMeta jobMeta => jobMeta.code = code
  | .saveJob job => job.code = code
  | .saving job => job.code = code
  | _ => True

/-- The invariant of the caches. -/
structure CacheInv (s : CacheSystem) : Prop where
  orderly : ∀ code, VersionLog.Orderly StoredJob.isClosed (s.logs code)
  persisted : ∀ code, ∀ v ∈ s.logs code, ∃ job : Job, job.code = code ∧ v.number = job.iterNum ∧
    v.content = StoredJob.fromJob job
  entries : ∀ cache code job, (s.entries cache code).job = some job → WasStored s.logs code job
  calls : ∀ id call, s.calls id = some call →
    call.since <:+ s.logs call.code ∧ PhaseHolds s.logs call.code call.since call.phase

theorem cacheInv_init : CacheInv .init where
  orderly := fun _ => .empty
  persisted := by simp [CacheSystem.init]
  entries := by simp [CacheSystem.init, CachedJob.empty]
  calls := by simp [CacheSystem.init]

/-! ## As the store goes on -/

section Later

variable {logs logs' : JobLogs} {code : String} {since till till' : JobLog} {job : Job}
  {jobMeta : JobMeta}

theorem WasNamed.later (h : WasNamed since till jobMeta) (hlater : till <:+ till') :
    WasNamed since till' jobMeta := by
  obtain ⟨log, content, hfrom, hto, hnewest⟩ := h
  exact ⟨log, content, hfrom, hto.trans hlater, hnewest⟩

theorem WasCurrent.later (h : WasCurrent since till job) (hlater : till <:+ till') :
    WasCurrent since till' job := by
  obtain ⟨log, hfrom, hto, hnewest⟩ := h
  exact ⟨log, hfrom, hto.trans hlater, hnewest⟩

theorem WasStored.later (h : WasStored logs code job) (hlater : ∀ code, logs code <:+ logs' code) :
    WasStored logs' code job :=
  ⟨h.1, (hlater code).subset h.2⟩

theorem Answers.later {answer : Except StorageError Job} (h : Answers logs code since till answer)
    (hlater : ∀ code, logs code <:+ logs' code) (hend : till <:+ till') :
    Answers logs' code since till' answer := by
  cases answer with
  | ok job => exact ⟨h.1.later hlater, fun hopen => (h.2 hopen).later hend⟩
  | error e => cases e <;> exact h

theorem PhaseHolds.later {phase : CachePhase} (h : PhaseHolds logs code since phase)
    (hlater : ∀ code, logs code <:+ logs' code) : PhaseHolds logs' code since phase := by
  cases phase with
  | checking cached => exact WasStored.later h hlater
  | writingBack jobMeta job =>
      have hanswer : Answers logs code since (logs code) (.ok job) := h
      exact hanswer.later hlater (hlater code)
  | discovered jobMeta => exact ⟨h.1, h.2.later (hlater code)⟩
  | fetching jobMeta left => exact ⟨h.1, h.2.later (hlater code)⟩
  | returned answer ended =>
      obtain ⟨hfrom, hto, hanswer⟩ := h
      exact ⟨hfrom, hto.trans (hlater code), hanswer.later hlater (List.suffix_refl _)⟩
  | _ => exact h

end Later

/-! ## What a request answers -/

section Requests

variable {registry : JobRegistry} {details : String} {s : CacheSystem} {code : String}
  {since : JobLog} {job : Job} {jobMeta : JobMeta} {v : Version StoredJob}

/-- The job a stored version is read as is that version. -/
theorem CacheInv.deserialized (hinv : CacheInv s) (hv : v ∈ s.logs code)
    (h : ObjectStorage.deserializeJob registry v.content v.token = .ok job) :
    job.code = code ∧ job.asVersion = v := by
  obtain ⟨stored, hcode, hnumber, hcontent⟩ := hinv.persisted code v hv
  rw [ObjectStorage.deserializeJob] at h
  split at h
  · cases h
  · cases h
    refine ⟨?_, ?_⟩
    · rw [hcontent]
      exact hcode
    · rw [Job.asVersion, hcontent, fromJob_intoJob_fromJob]
      cases v
      cases hcontent
      cases hnumber
      rfl

/-- Two versions of an iteration under one token hold the same state. -/
theorem CacheInv.eq_of_token (hinv : CacheInv s) {u : Version StoredJob} (hu : u ∈ s.logs code)
    (hv : v ∈ s.logs code) (hnumber : u.number = v.number) (htoken : u.token = v.token) :
    u = v := by
  have hcontent := (hinv.orderly code).same_content hu hv hnumber htoken
  cases u
  cases v
  cases hnumber
  cases htoken
  cases hcontent
  rfl

theorem StoredJob.isClosed_fromJob (job : Job) :
    (StoredJob.fromJob job).isClosed = job.isProcessed := by
  unfold StoredJob.isClosed StoredJob.fromJob Job.isProcessed Job.iterationVerdict
  cases job.status <;> rfl

/-- An open state the store holds is its current one. -/
theorem CacheInv.wasCurrent_now (hinv : CacheInv s) (hsince : since <:+ s.logs code)
    (hcurrent : (s.logs code).current job.iterNum = some job.asVersion)
    (hopen : job.isProcessed = false) : WasCurrent since (s.logs code) job := by
  have hnewest := (hinv.orderly code).newest_of_open hcurrent
    ((StoredJob.isClosed_fromJob job).trans hopen)
  exact ⟨s.logs code, hsince, List.suffix_refl _, hnewest⟩

/-- A state the store once held under the version it named newest was its current one then. -/
theorem CacheInv.answers_named (hinv : CacheInv s) (hnamed : WasNamed since (s.logs code) jobMeta)
    (hstored : WasStored s.logs code job) (hiter : job.iterNum = jobMeta.iterNum)
    (hversion : job.version = jobMeta.version) :
    Answers s.logs code since (s.logs code) (.ok job) := by
  refine ⟨hstored, fun _ => ?_⟩
  obtain ⟨log, content, hfrom, hto, hnewest⟩ := hnamed
  have hmem := hto.subset (VersionLog.current_eq_some hnewest.1).1
  have heq := hinv.eq_of_token hmem hstored.2 hiter.symm hversion.symm
  have hcontent : content = StoredJob.fromJob job := congrArg Version.content heq
  rw [← hiter, ← hversion, hcontent] at hnewest
  exact ⟨log, hfrom, hto, hnewest⟩

/-- A request for the newest iteration names it, or finds nothing stored. -/
theorem CacheInv.findJobMeta (hsince : since <:+ s.logs code) :
    (∃ jobMeta, s.logs.findJobMeta code = .ok jobMeta ∧ jobMeta.code = code ∧
        WasNamed since (s.logs code) jobMeta) ∨
      ∃ message, s.logs.findJobMeta code = .error (.notFound message) ∧ since = [] := by
  rw [JobLogs.findJobMeta]
  cases hnewest : (s.logs code).newest with
  | none =>
      right
      rw [VersionLog.newest_eq_none hnewest] at hsince
      exact ⟨_, rfl, List.suffix_nil.mp hsince⟩
  | some v =>
      left
      exact ⟨_, rfl, rfl, s.logs code, v.content, hsince, List.suffix_refl _,
        VersionLog.newest_eq_some hnewest⟩

/-- A request for a named version answers with it. -/
theorem CacheInv.getJobByMeta_ok (hinv : CacheInv s) (hcode : jobMeta.code = code)
    (h : s.logs.getJobByMeta registry details jobMeta = .ok job) :
    WasStored s.logs code job ∧ job.iterNum = jobMeta.iterNum ∧ job.version = jobMeta.version := by
  rw [JobLogs.getJobByMeta, hcode] at h
  split at h
  · cases h
  rename_i v hcurrent
  split at h <;> rename_i htoken
  · obtain ⟨hmem, hnumber⟩ := VersionLog.current_eq_some hcurrent
    rw [← htoken] at h
    obtain ⟨hjob, hsame⟩ := hinv.deserialized hmem h
    subst hsame
    exact ⟨⟨hjob, hmem⟩, hnumber, htoken⟩
  · cases h

/-- A version the store named is still stored. -/
theorem CacheInv.getJobByMeta_found (hcode : jobMeta.code = code)
    (hnamed : WasNamed since (s.logs code) jobMeta) (message : String) :
    s.logs.getJobByMeta registry details jobMeta ≠ .error (.notFound message) := by
  obtain ⟨log, content, -, hto, hnewest⟩ := hnamed
  have hmem := hto.subset (VersionLog.current_eq_some hnewest.1).1
  obtain ⟨v, hv⟩ := VersionLog.current_of_mem hmem
  intro h
  rw [JobLogs.getJobByMeta, hcode, hv] at h
  dsimp only at h
  split at h
  · rw [ObjectStorage.deserializeJob] at h
    split at h <;> cases h
  · cases h

/-- A conditional read of an open state that is still current, or the state that replaced
it. -/
theorem CacheInv.getChangedJob (hinv : CacheInv s) (registry : JobRegistry) (details : String)
    (hsince : since <:+ s.logs code) (hstored : WasStored s.logs code job) :
    (s.logs.getChangedJob registry details ⟨job.code, job.iterNum, job.version⟩ = .ok none →
      Answers s.logs code since (s.logs code) (.ok job)) ∧
      ∀ changed, s.logs.getChangedJob registry details ⟨job.code, job.iterNum, job.version⟩ =
        .ok (some changed) → Answers s.logs code since (s.logs code) (.ok changed) := by
  obtain ⟨hcode, hmem⟩ := hstored
  obtain ⟨v, hv⟩ := VersionLog.current_of_mem hmem
  obtain ⟨hvmem, hnumber⟩ := VersionLog.current_eq_some hv
  have hv' : (s.logs job.code).current job.iterNum = some v := by
    rw [hcode]
    exact hv
  rw [JobLogs.getChangedJob, hv']
  dsimp only
  split <;> rename_i htoken
  · refine ⟨fun _ => ⟨⟨hcode, hmem⟩, fun hopen => ?_⟩, fun changed h => by cases h⟩
    have heq := hinv.eq_of_token hvmem hmem hnumber htoken
    exact hinv.wasCurrent_now hsince (heq ▸ hv) hopen
  · constructor
    · intro h
      cases hread : ObjectStorage.deserializeJob registry v.content v.token <;> rw [hread] at h <;>
        cases h
    · intro changed h
      cases hread : ObjectStorage.deserializeJob registry v.content v.token with
      | error e =>
          rw [hread] at h
          cases h
      | ok read =>
          rw [hread] at h
          cases h
          obtain ⟨hcode', hsame⟩ := hinv.deserialized hvmem hread
          subst hsame
          have hiter : changed.iterNum = job.iterNum := hnumber
          have hcurrent : (s.logs code).current changed.iterNum = some changed.asVersion := by
            rw [hiter]
            exact hv
          exact ⟨⟨hcode', hvmem⟩, fun hopen => hinv.wasCurrent_now hsince hcurrent hopen⟩

end Requests

/-! ## Every action -/

section Actions

variable {registry : JobRegistry} {details : String} {s s' : CacheSystem} {id : Nat}
  {code : String} {since : JobLog} {cached cached' : CachedJob} {phase phase' : CachePhase}

/-- The entry holds what the store once held. -/
def EntryHolds (logs : JobLogs) (code : String) (cached : CachedJob) : Prop :=
  ∀ job, cached.job = some job → WasStored logs code job

theorem entryHolds_replaceJob {logs : JobLogs} {job : Job} (h : WasStored logs code job)
    (cached : CachedJob) : EntryHolds logs code (cached.replaceJob job) := by
  intro job' hjob'
  cases hjob'
  exact h

theorem entryHolds_forgetJob (logs : JobLogs) (code : String) (cached : CachedJob) :
    EntryHolds logs code cached.forgetJob := by
  intro job hjob
  cases hjob

/-- A read that looks at the entry again. -/
theorem CacheInv.reconsider (hinv : CacheInv s) (id : Nat) (hentry : EntryHolds s.logs code cached)
    (hsince : since <:+ s.logs code) {jobMeta : JobMeta} (hcode : jobMeta.code = code)
    (hnamed : WasNamed since (s.logs code) jobMeta) :
    EntryHolds s.logs code (CacheCall.reconsider id s.logs code cached jobMeta).1 ∧
      PhaseHolds s.logs code since (CacheCall.reconsider id s.logs code cached jobMeta).2 := by
  rw [CacheCall.reconsider]
  split
  · rename_i job hjob
    split <;> rename_i hsame
    · exact ⟨hentry, hsince, List.suffix_refl _,
        hinv.answers_named hnamed (hentry job hjob) hsame.1 hsame.2⟩
    · exact ⟨hentry, hcode, hnamed⟩
  · exact ⟨hentry, hcode, hnamed⟩

/-- A read that returns now. -/
theorem phaseHolds_returned {logs : JobLogs} {answer : Except StorageError Job}
    (hsince : since <:+ logs code) (hanswer : Answers logs code since (logs code) answer) :
    PhaseHolds logs code since (.returned answer (logs code)) :=
  ⟨hsince, List.suffix_refl _, hanswer⟩

/-- A read that asks whether the open iteration it saw has changed. -/
theorem CacheInv.checking (hinv : CacheInv s) (hentry : EntryHolds s.logs code cached)
    (hsince : since <:+ s.logs code) {job : Job} (hstored : WasStored s.logs code job)
    (h : CacheCall.advance registry details id s.logs code cached (.checking job) =
      some (cached', phase')) :
    EntryHolds s.logs code cached' ∧ PhaseHolds s.logs code since phase' := by
  obtain ⟨hsame, hchanged⟩ := hinv.getChangedJob registry details hsince hstored
  simp only [CacheCall.advance] at h
  split at h
  · rename_i hread
    cases h
    exact ⟨hentry, phaseHolds_returned hsince (hsame hread)⟩
  · rename_i changed hread
    cases h
    exact ⟨hentry, hchanged changed hread⟩
  · cases h
    exact ⟨hentry, trivial⟩
  · rename_i e hnot _
    cases h
    refine ⟨hentry, phaseHolds_returned hsince ?_⟩
    cases e with
    | notFound message => exact absurd rfl (hnot message)
    | _ => trivial

/-- A read that fetches the iteration the store named newest. -/
theorem CacheInv.fetching (hinv : CacheInv s) (hentry : EntryHolds s.logs code cached)
    (hsince : since <:+ s.logs code) {jobMeta : JobMeta} {left : Nat} (hcode : jobMeta.code = code)
    (hnamed : WasNamed since (s.logs code) jobMeta)
    (h : CacheCall.advance registry details id s.logs code cached (.fetching jobMeta left) =
      some (cached', phase')) :
    EntryHolds s.logs code cached' ∧ PhaseHolds s.logs code since phase' := by
  rw [CacheCall.advance] at h
  split at h
  · rename_i job hread
    cases h
    obtain ⟨hstored, hiter, hversion⟩ := hinv.getJobByMeta_ok hcode hread
    exact ⟨entryHolds_replaceJob hstored cached,
      phaseHolds_returned hsince (hinv.answers_named hnamed hstored hiter hversion)⟩
  · rename_i e hread
    split at h
    · cases h
      exact ⟨hentry, trivial⟩
    · cases h
      refine ⟨hentry, phaseHolds_returned hsince ?_⟩
      cases e with
      | notFound message => exact absurd hread (CacheInv.getJobByMeta_found hcode hnamed message)
      | _ => trivial

/-- A read that asks for the newest iteration again. -/
theorem CacheInv.rediscovering (hentry : EntryHolds s.logs code cached)
    (hsince : since <:+ s.logs code) {left : Nat}
    (h : CacheCall.advance registry details id s.logs code cached (.rediscovering left) =
      some (cached', phase')) :
    EntryHolds s.logs code cached' ∧ PhaseHolds s.logs code since phase' := by
  rcases CacheInv.findJobMeta hsince with ⟨jobMeta, hfind, hcode, hnamed⟩ |
    ⟨message, hfind, hempty⟩
  · cases left with
    | zero =>
        simp only [CacheCall.advance, hfind] at h
        cases h
        exact ⟨hentry, phaseHolds_returned hsince trivial⟩
    | succ left =>
        simp only [CacheCall.advance, hfind] at h
        cases h
        exact ⟨hentry, hcode, hnamed⟩
  · simp only [CacheCall.advance, hfind] at h
    cases h
    exact ⟨hentry, phaseHolds_returned hsince hempty⟩

/-- A read of a named version. -/
theorem CacheInv.fetchingByMeta (hinv : CacheInv s) (hentry : EntryHolds s.logs code cached)
    {jobMeta : JobMeta} (hcode : jobMeta.code = code)
    (h : CacheCall.advance registry details id s.logs code cached (.fetchingByMeta jobMeta) =
      some (cached', phase')) :
    EntryHolds s.logs code cached' ∧ PhaseHolds s.logs code since phase' := by
  rw [CacheCall.advance] at h
  split at h
  · rename_i job hread
    cases h
    have hstored := (hinv.getJobByMeta_ok hcode hread).1
    refine ⟨?_, trivial⟩
    rw [CachedJob.updateCacheIfNewer]
    split
    · split
      · exact entryHolds_replaceJob hstored cached
      · exact hentry
    · exact entryHolds_replaceJob hstored cached
  · split at h <;> cases h
    · exact ⟨entryHolds_forgetJob s.logs code cached, trivial⟩
    · exact ⟨hentry, trivial⟩

/-- Whatever a call does next, it leaves a state the store once held and what holds of it. -/
theorem CacheInv.advance (hinv : CacheInv s) (hentry : EntryHolds s.logs code cached)
    (hsince : since <:+ s.logs code) (hphase : PhaseHolds s.logs code since phase)
    (h : CacheCall.advance registry details id s.logs code cached phase = some (cached', phase')) :
    EntryHolds s.logs code cached' ∧ PhaseHolds s.logs code since phase' := by
  cases phase with
  | getJob =>
      rw [CacheCall.advance] at h
      split at h
      · split at h
        · rename_i job hjob
          cases h
          exact ⟨hentry, hentry job (Option.filter_eq_some_iff.mp hjob).1⟩
        · cases h
          exact ⟨hentry, trivial⟩
      · cases h
  | checking job => exact hinv.checking hentry hsince hphase h
  | writingBack jobMeta job =>
      rw [CacheCall.advance] at h
      split at h
      · cases h
        refine ⟨?_, phaseHolds_returned hsince hphase⟩
        split
        · exact entryHolds_replaceJob hphase.1 cached
        · exact hentry
      · cases h
  | discovering =>
      rw [CacheCall.advance] at h
      rcases CacheInv.findJobMeta hsince with ⟨jobMeta, hfind, hcode, hnamed⟩ |
        ⟨message, hfind, hempty⟩
      · rw [hfind] at h
        cases h
        exact ⟨hentry, hcode, hnamed⟩
      · rw [hfind] at h
        cases h
        exact ⟨hentry, phaseHolds_returned hsince hempty⟩
  | discovered jobMeta =>
      rw [CacheCall.advance] at h
      split at h
      · have hpair := Option.some.inj h
        obtain ⟨hcode, hnamed⟩ := hphase
        have hholds := hinv.reconsider id hentry hsince hcode hnamed
        rw [hpair] at hholds
        exact hholds
      · cases h
  | fetching jobMeta left => exact hinv.fetching hentry hsince hphase.1 hphase.2 h
  | rediscovering left => exact CacheInv.rediscovering hentry hsince h
  | returned answer ended => cases h
  | getJobByMeta jobMeta =>
      rw [CacheCall.advance] at h
      split at h
      · split at h <;> cases h
        · exact ⟨hentry, trivial⟩
        · exact ⟨hentry, hphase⟩
      · cases h
  | fetchingByMeta jobMeta => exact hinv.fetchingByMeta hentry hphase h
  | saveJob job =>
      rw [CacheCall.advance] at h
      split at h <;> cases h
      exact ⟨hentry, hphase⟩
  | saving job =>
      rw [CacheCall.advance] at h
      split at h <;> cases h
      exact ⟨entryHolds_forgetJob s.logs code cached, trivial⟩
  | finished => cases h

/-- A call that ends before its request was answered. -/
theorem PhaseHolds.failed {logs : JobLogs} {e : StorageError} (hsince : since <:+ logs code)
    (hfound : ∀ message, e ≠ .notFound message)
    (h : CacheCall.failed logs code e phase = some phase') :
    PhaseHolds logs code since phase' := by
  have hanswer : PhaseHolds logs code since (.returned (.error e) (logs code)) := by
    refine ⟨hsince, List.suffix_refl _, ?_⟩
    cases e with
    | notFound message => exact absurd rfl (hfound message)
    | _ => trivial
  cases phase <;> cases h <;> trivial

/-- A call goes on. -/
theorem CacheInv.leave (hinv : CacheInv s) {call : CacheCall} (hcall : s.calls id = some call)
    (hentry : EntryHolds s.logs call.code cached)
    (hphase : PhaseHolds s.logs call.code call.since phase) :
    CacheInv (s.leave id call cached phase) where
  orderly := hinv.orderly
  persisted := hinv.persisted
  entries := by
    intro cache code job hjob
    by_cases hcache : cache = call.cache
    · subst hcache
      by_cases hcode : code = call.code
      · subst hcode
        simp only [CacheSystem.leave, Function.update_self] at hjob
        exact hentry job hjob
      · simp only [CacheSystem.leave, Function.update_self, Function.update_of_ne hcode] at hjob
        exact hinv.entries call.cache code job hjob
    · simp only [CacheSystem.leave, Function.update_of_ne hcache] at hjob
      exact hinv.entries cache code job hjob
  calls := by
    intro id' call' hcall'
    by_cases hid : id' = id
    · subst hid
      simp only [CacheSystem.leave, Function.update_self] at hcall'
      cases hcall'
      exact ⟨(hinv.calls id' call hcall).1, hphase⟩
    · simp only [CacheSystem.leave, Function.update_of_ne hid] at hcall'
      exact hinv.calls id' call' hcall'

/-- A call is made. -/
theorem CacheInv.make (hinv : CacheInv s) {cache : Nat}
    (h : s.make id cache code phase = some s')
    (hphase : PhaseHolds s.logs code (s.logs code) phase) : CacheInv s' := by
  rw [CacheSystem.make] at h
  split at h
  · cases h
  · cases h
    refine ⟨hinv.orderly, hinv.persisted, hinv.entries, ?_⟩
    intro id' call' hcall'
    by_cases hid : id' = id
    · subst hid
      simp only [Function.update_self] at hcall'
      cases hcall'
      exact ⟨List.suffix_refl _, hphase⟩
    · simp only [Function.update_of_ne hid] at hcall'
      exact hinv.calls id' call' hcall'

/-- A write goes on top of one log and leaves the others as they are. -/
theorem logs_suffix_write (logs : JobLogs) (job : Job) (token : String) (code : String) :
    logs code <:+
      Function.update logs job.code (JobLogs.written job token :: logs job.code) code := by
  by_cases hcode : code = job.code
  · subst hcode
    rw [Function.update_self]
    exact List.suffix_cons _ _
  · rw [Function.update_of_ne hcode]

/-- A write takes effect. -/
theorem CacheInv.write (hinv : CacheInv s) (job : Job) (token : String)
    (hallows : (s.logs job.code).allows StoredJob.isClosed (JobLogs.written job token) = true) :
    CacheInv { s with
      logs := Function.update s.logs job.code (JobLogs.written job token :: s.logs job.code) } := by
  have hlater := logs_suffix_write s.logs job token
  refine ⟨?_, ?_, ?_, ?_⟩
  · intro code
    by_cases hcode : code = job.code
    · subst hcode
      simp only [Function.update_self]
      exact .write (hinv.orderly job.code) hallows
    · simp only [Function.update_of_ne hcode]
      exact hinv.orderly code
  · intro code v hv
    by_cases hcode : code = job.code
    · subst hcode
      simp only [Function.update_self] at hv
      rcases List.mem_cons.mp hv with rfl | hv
      · exact ⟨job, rfl, rfl, rfl⟩
      · exact hinv.persisted job.code v hv
    · simp only [Function.update_of_ne hcode] at hv
      exact hinv.persisted code v hv
  · intro cache code cached hcached
    exact (hinv.entries cache code cached hcached).later hlater
  · intro id call hcall
    obtain ⟨hsince, hphase⟩ := hinv.calls id call hcall
    exact ⟨hsince.trans (hlater call.code), hphase.later hlater⟩

/-- What a cache keeps of its own write is what was written. -/
theorem wasStored_written (logs : JobLogs) (job : Job) (token : String) :
    WasStored (Function.update logs job.code (JobLogs.written job token :: logs job.code)) job.code
      (job.updateVersion token) := by
  refine ⟨rfl, ?_⟩
  rw [Function.update_self]
  exact List.mem_cons_self

/-- What caches and calls hold survives every action. -/
theorem CacheInv.step (hinv : CacheInv s) {a : CacheAction} (hadmits : s.admits a = true)
    (h : CacheSystem.step registry details s a = some s') : CacheInv s' := by
  cases a with
  | getJob id cache jobCode => exact hinv.make h trivial
  | getJobByMeta id cache jobMeta => exact hinv.make h rfl
  | saveJob id cache job => exact hinv.make h rfl
  | advance id =>
      rw [CacheSystem.step] at h
      split at h
      · cases h
      rename_i call hcall
      obtain ⟨⟨cached, phase⟩, hnext, rfl⟩ := Option.map_eq_some_iff.mp h
      obtain ⟨hsince, hphase⟩ := hinv.calls id call hcall
      obtain ⟨hentry, hphase⟩ :=
        hinv.advance (hinv.entries call.cache call.code) hsince hphase hnext
      exact hinv.leave hcall hentry hphase
  | put id token reply =>
      simp only [CacheSystem.step] at h
      split at h
      · cases h
      rename_i call hcall
      split at h
      case h_2 => cases h
      rename_i job hsaving
      split at h
      case isFalse => cases h
      have hcode : job.code = call.code := by
        have hphase := (hinv.calls id call hcall).2
        rw [hsaving] at hphase
        exact hphase
      have hwritten := hinv.write job token (by
        cases call
        cases hsaving
        rw [CacheSystem.admits, hcall] at hadmits
        exact hadmits)
      cases reply with
      | delivered =>
          cases h
          refine hwritten.leave hcall ?_ trivial
          rw [← hcode]
          exact entryHolds_replaceJob (wasStored_written s.logs job token)
            (s.entries call.cache call.code)
      | lost =>
          cases h
          exact hwritten.leave hcall (hwritten.entries call.cache call.code) trivial
      | repeated =>
          cases h
          exact hwritten
  | fail id e =>
      simp only [CacheSystem.step] at h
      split at h
      case h_1 => cases h
      case h_2 => cases h
      case h_3 => cases h
      rename_i e call hcall hfound hmodified
      obtain ⟨phase, hnext, rfl⟩ := Option.map_eq_some_iff.mp h
      obtain ⟨hsince, hphase⟩ := hinv.calls id call hcall
      refine hinv.leave hcall ?_ (PhaseHolds.failed hsince hfound hnext)
      rw [CacheSystem.releasedBy]
      split
      · exact hinv.entries call.cache call.code
      · exact hinv.entries call.cache call.code

end Actions

/-! ## Every run -/

section Runs

variable {registry : JobRegistry} {details : String} {s s' : CacheSystem}

theorem reachable_cacheInv
    (h : ReachableUnder (CacheSystem.step registry details) (fun s a => s.admits a = true)
      .init s) : CacheInv s :=
  h.invariant cacheInv_init fun _ _ _ hinv hadmits hstep => hinv.step hadmits hstep

/-- No action takes back a version the store held. -/
theorem logs_suffix_step {a : CacheAction} (h : CacheSystem.step registry details s a = some s')
    (code : String) : s.logs code <:+ s'.logs code := by
  have hmake : ∀ {id cache code' phase}, s.make id cache code' phase = some s' →
      s.logs code <:+ s'.logs code := by
    intro id cache code' phase h
    rw [CacheSystem.make] at h
    split at h <;> cases h
    exact List.suffix_refl _
  cases a with
  | getJob id cache jobCode => exact hmake h
  | getJobByMeta id cache jobMeta => exact hmake h
  | saveJob id cache job => exact hmake h
  | advance id =>
      rw [CacheSystem.step] at h
      split at h
      · cases h
      obtain ⟨next, -, rfl⟩ := Option.map_eq_some_iff.mp h
      exact List.suffix_refl _
  | put id token reply =>
      simp only [CacheSystem.step] at h
      split at h
      · cases h
      split at h
      case h_2 => cases h
      rename_i job _
      split at h
      case isFalse => cases h
      have hlater := logs_suffix_write s.logs job token code
      cases reply <;> cases h <;> exact hlater
  | fail id e =>
      simp only [CacheSystem.step] at h
      split at h
      case h_4 =>
        obtain ⟨phase, -, rfl⟩ := Option.map_eq_some_iff.mp h
        exact List.suffix_refl _
      all_goals cases h

/-- A closed state the store once held stays the state of its iteration. -/
theorem current_of_closed (hinv : CacheInv s) {code : String} {job : Job}
    (hstored : WasStored s.logs code job) (hclosed : job.isProcessed = true)
    (h : ReachableUnder (CacheSystem.step registry details) (fun s a => s.admits a = true) s s') :
    (s'.logs code).current job.iterNum = some job.asVersion := by
  have hlater : CacheInv s' ∧ WasStored s'.logs code job := by
    refine h.invariant (P := fun s => CacheInv s ∧ WasStored s.logs code job) ⟨hinv, hstored⟩ ?_
    rintro s a s' ⟨hinv, hstored⟩ hadmits hstep
    exact ⟨hinv.step hadmits hstep, hstored.later (logs_suffix_step hstep)⟩
  exact (hlater.1.orderly code).current_of_closed hlater.2.2
    ((StoredJob.isClosed_fromJob job).trans hclosed)

/-- What a read through a cache answers with, against the versions the store held between the
call and its return. -/
theorem cached_reads_transparent
    (h : ReachableUnder (CacheSystem.step registry details) (fun s a => s.admits a = true) .init s)
    {id : Nat} {call : CacheCall} (hcall : s.calls id = some call)
    {answer : Except StorageError Job} {ended : JobLog}
    (hreturned : call.phase = .returned answer ended) :
    call.since <:+ ended ∧ ended <:+ s.logs call.code ∧
      (∀ job, answer = .ok job → job.code = call.code ∧
        (job.isProcessed = false → WasCurrent call.since ended job) ∧
        (job.isProcessed = true → ∀ s',
          ReachableUnder (CacheSystem.step registry details) (fun s a => s.admits a = true) s s' →
            (s'.logs call.code).current job.iterNum = some job.asVersion)) ∧
      ∀ message, answer = .error (.notFound message) →
        ∃ log : JobLog, call.since <:+ log ∧ log <:+ ended ∧ log = [] := by
  have hinv := reachable_cacheInv h
  obtain ⟨-, hphase⟩ := hinv.calls id call hcall
  rw [hreturned] at hphase
  obtain ⟨hsince, hended, hanswer⟩ := hphase
  refine ⟨hsince, hended, ?_, ?_⟩
  · rintro job rfl
    obtain ⟨hstored, hopen⟩ := hanswer
    exact ⟨hstored.1, hopen, fun hclosed s' hs' => current_of_closed hinv hstored hclosed hs'⟩
  · rintro message rfl
    have hempty : call.since = [] := hanswer
    exact ⟨[], by rw [hempty], List.nil_suffix, rfl⟩

end Runs

/-! ## A job watched through another cache -/

/-- The job a read was answered with. -/
def CacheSystem.answered (s : CacheSystem) (id : Nat) : Option Job :=
  (s.calls id).bind fun call =>
    match call.phase with
    | .returned (.ok job) _ => some job
    | _ => none

theorem exists_of_answered {s : CacheSystem} {id : Nat} {job : Job}
    (h : s.answered id = some job) :
    ∃ call ended, s.calls id = some call ∧ call.phase = .returned (.ok job) ended := by
  obtain ⟨call, hcall, hphase⟩ := Option.bind_eq_some_iff.mp h
  split at hphase <;> cases hphase
  exact ⟨call, _, hcall, ‹_›⟩

/-- One cache creates an iteration and closes it.  The other reads it between the two, and looks
at what it kept of that before the second write, which it learns of only after. -/
def watchedActions (job : Job) : List CacheAction :=
  [.saveJob 0 0 job, .advance 0, .put 0 "v1" .delivered,
    .getJob 1 1 job.code, .advance 1, .advance 1, .advance 1, .advance 1,
    .getJob 2 1 job.code, .advance 2,
    .saveJob 3 0 { job with status := .completed, version := "v1" }, .advance 3,
    .put 3 "v2" .delivered, .advance 2, .advance 2]

/-- The registry of the job and the caches its reads and writes leave. -/
def runWatched : Option (JobRegistry × CacheSystem) := do
  let registry ← (JobRegistry.new [soloDefinition "a"]).toOption
  let job ← (Job.new (soloDefinition "a") [] 101 900 [1] 0).toOption
  let s ← runAdmitted (CacheSystem.step registry "refused") CacheSystem.admits .init
    (watchedActions job)
  return (registry, s)

theorem reachable_of_runWatched {registry : JobRegistry} {s : CacheSystem}
    (h : runWatched = some (registry, s)) :
    ReachableUnder (CacheSystem.step registry "refused") (fun s a => s.admits a = true)
      .init s := by
  simp only [runWatched, Option.bind_eq_bind, Option.bind_eq_some_iff] at h
  obtain ⟨registry', -, job, -, s', hrun, hpair⟩ := h
  cases hpair
  exact reachableUnder_of_runAdmitted .init hrun

/-- The first read was answered with the open iteration while it was current, and the second
with its final state. -/
theorem watched_reads_transparent :
    ∃ registry s opened closed, runWatched = some (registry, s) ∧
      s.answered 1 = some opened ∧ opened.isProcessed = false ∧
      (∃ since ended, WasCurrent since ended opened) ∧
      s.answered 2 = some closed ∧ closed.isProcessed = true ∧
      (s.logs "a").current closed.iterNum = some closed.asVersion := by
  have hruns : runWatched.any (fun (_, s) =>
      (s.answered 1).any (fun opened => !opened.isProcessed) &&
        (s.answered 2).any (fun closed => closed.isProcessed && closed.code = "a")) = true := by
    decide +kernel
  obtain ⟨⟨registry, s⟩, hrun, hcheck⟩ := (Option.any_eq_true _ _).mp hruns
  rw [Bool.and_eq_true, Option.any_eq_true, Option.any_eq_true] at hcheck
  obtain ⟨⟨opened, hopened, hopen⟩, closed, hanswered, hclosed⟩ := hcheck
  simp only [Bool.not_eq_true', Bool.and_eq_true, decide_eq_true_eq] at hopen hclosed
  have hreach := reachable_of_runWatched hrun
  refine ⟨registry, s, opened, closed, hrun, hopened, hopen, ?_, hanswered, hclosed.1, ?_⟩
  · obtain ⟨call, ended, hcall, hreturned⟩ := exists_of_answered hopened
    obtain ⟨-, -, hok, -⟩ := cached_reads_transparent hreach hcall hreturned
    exact ⟨call.since, ended, (hok opened rfl).2.1 hopen⟩
  · obtain ⟨call, ended, hcall, hreturned⟩ := exists_of_answered hanswered
    obtain ⟨-, -, hok, -⟩ := cached_reads_transparent hreach hcall hreturned
    obtain ⟨hcode, -, hfinal⟩ := hok closed rfl
    rw [← hclosed.2, hcode]
    exact hfinal hclosed.1 s .init

end JobManager
