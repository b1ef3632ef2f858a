import JobManager.Storage.Cached

/-!
# The object storage answers from the logs

The store the caches work over is told of by the versions it ever held.  The objects of an
object storage are the current ones of these versions, under the keys of their iterations: a
request of the object storage answers what the logs answer, and a save it takes goes on top of
a log.

Main results:

- Theorem {lit}`HoldsLogs.getJobByMeta`, {lit}`HoldsLogs.getChangedJob`,
  {lit}`HoldsLogs.findJobMeta`: every read answers from the logs.
- Theorem {lit}`HoldsLogs.saveJob`: a save is taken where the logs accept it, and is written on
  top of the log of its job.
-/

namespace JobManager

/-- The objects of the store are the current versions of the logs. -/
structure HoldsLogs (paths : JobPaths) (logs : JobLogs) (store : ObjectStore) : Prop where
  numbers : ∀ code, ∀ v ∈ logs code, v.number ≤ u64Max
  object : ∀ code, ∀ n ≤ u64Max, store.objects (paths.buildJobIterationPath code n) =
    ((logs code).current n).map fun v => ⟨v.token, v.content⟩
  keys : ∀ key, (store.objects key).isSome →
    ∃ code, ∃ v ∈ logs code, key = paths.buildJobIterationPath code v.number

namespace HoldsLogs

variable {paths : JobPaths} {logs : JobLogs} {store : ObjectStore} {registry : JobRegistry}
  {jobMeta : JobMeta} {job : Job} {code : String}

/-- A read of a named version. -/
theorem getJobByMeta (h : HoldsLogs paths logs store) (hn : jobMeta.iterNum ≤ u64Max) :
    ObjectStorage.getJobByMeta paths registry store jobMeta =
      logs.getJobByMeta registry store.details jobMeta := by
  rw [ObjectStorage.getJobByMeta, JobLogs.getJobByMeta, ObjectStore.getObject,
    h.object jobMeta.code jobMeta.iterNum hn]
  cases (logs jobMeta.code).current jobMeta.iterNum with
  | none => rfl
  | some v =>
      simp only [Option.map_some]
      split <;> rfl

/-- A read of what replaced a version. -/
theorem getChangedJob (h : HoldsLogs paths logs store) (hn : jobMeta.iterNum ≤ u64Max) :
    ObjectStorage.getChangedJob paths registry store jobMeta =
      logs.getChangedJob registry store.details jobMeta := by
  rw [ObjectStorage.getChangedJob, JobLogs.getChangedJob, ObjectStore.getChangedObject,
    h.object jobMeta.code jobMeta.iterNum hn]
  cases (logs jobMeta.code).current jobMeta.iterNum with
  | none => rfl
  | some v =>
      simp only [Option.map_some]
      split
      · rfl
      · simp only [bind, Except.bind]
        cases ObjectStorage.deserializeJob registry v.content v.token <;> rfl

/-- Whether a save meets the condition it is made under. -/
theorem isMetBy (h : HoldsLogs paths logs store) (hn : job.iterNum ≤ u64Max) :
    (ObjectStorage.putCondition job).isMetBy
      (store.objects (paths.buildJobIterationPath job.code job.iterNum)) = logs.accepts job := by
  rw [h.object job.code job.iterNum hn, JobLogs.accepts, ObjectStorage.putCondition]
  cases (logs job.code).current job.iterNum with
  | none => by_cases hversion : job.version = "" <;> simp [hversion, PutCondition.isMetBy]
  | some v => by_cases hversion : job.version = "" <;> simp [hversion, PutCondition.isMetBy]

/-- A save on top of the log of its job. -/
theorem saved (h : HoldsLogs paths logs store) (hn : job.iterNum ≤ u64Max) (token : String) :
    HoldsLogs paths
      (Function.update logs job.code (JobLogs.written job token :: logs job.code))
      (ObjectStorage.saved paths store token job) where
  numbers := by
    intro code v hv
    by_cases hcode : code = job.code
    · subst hcode
      rw [Function.update_self] at hv
      rcases List.mem_cons.mp hv with rfl | hv
      · exact hn
      · exact h.numbers job.code v hv
    · rw [Function.update_of_ne hcode] at hv
      exact h.numbers code v hv
  object := by
    intro code n hle
    by_cases hkey : paths.buildJobIterationPath code n =
        paths.buildJobIterationPath job.code job.iterNum
    · obtain ⟨rfl, rfl⟩ := paths.buildJobIterationPath_inj code hn hle hkey
      rw [ObjectStorage.objects_saved_self, Function.update_self, VersionLog.current_cons]
      simp [JobLogs.written]
    · rw [ObjectStorage.objects_saved_of_ne token hkey, h.object code n hle]
      by_cases hcode : code = job.code
      · subst hcode
        rw [Function.update_self, VersionLog.current_cons, if_neg]
        exact fun heq => hkey (heq ▸ rfl)
      · rw [Function.update_of_ne hcode]
  keys := by
    intro key hkey
    by_cases hsame : key = paths.buildJobIterationPath job.code job.iterNum
    · refine ⟨job.code, JobLogs.written job token, ?_, hsame⟩
      rw [Function.update_self]
      exact List.mem_cons_self
    · rw [ObjectStorage.objects_saved_of_ne token hsame] at hkey
      obtain ⟨code, v, hv, hpath⟩ := h.keys key hkey
      refine ⟨code, v, ?_, hpath⟩
      by_cases hcode : code = job.code
      · subst hcode
        rw [Function.update_self]
        exact List.mem_cons_of_mem _ hv
      · rw [Function.update_of_ne hcode]
        exact hv

/-- A save is taken where the logs accept it, and is written on top of the log of its job. -/
theorem saveJob (h : HoldsLogs paths logs store) (hn : job.iterNum ≤ u64Max) (token : String) :
    (logs.accepts job = true ∧
      (ObjectStorage.saveJob paths token job store).1.toOption = some (job.updateVersion token) ∧
      HoldsLogs paths
        (Function.update logs job.code (JobLogs.written job token :: logs job.code))
        (ObjectStorage.saveJob paths token job store).2) ∨
      (logs.accepts job = false ∧
        ObjectStorage.saveJob paths token job store =
          (.error (.concurrentModification store.details), store)) := by
  rw [ObjectStorage.saveJob_eq, h.isMetBy hn]
  cases haccepts : logs.accepts job with
  | true => exact Or.inl ⟨rfl, rfl, h.saved hn token⟩
  | false => exact Or.inr ⟨rfl, rfl⟩

/-- The newest iteration is the one the logs name, where no stored code extends that of the
job. -/
theorem findJobMeta (h : HoldsLogs paths logs store)
    (hseparated : ∀ code', logs code' ≠ [] → ¬JobPaths.Extends code code') {provider : Backend}
    (hlists : provider.Lists store.contents) :
    JobManager.findJobMeta paths provider code = logs.findJobMeta code := by
  have hown : ∀ key, (store.objects key).isSome →
      (paths.buildJobPrefix code).toList <+: key.toList →
        ∃ v ∈ logs code, key = paths.buildJobIterationPath code v.number := by
    intro key hkey hunder
    obtain ⟨code', v, hv, rfl⟩ := h.keys key hkey
    rcases (paths.under_buildJobPrefix code v.number).mp hunder with rfl | hextends
    · exact ⟨v, hv, rfl⟩
    · exact absurd hextends (hseparated code' (List.ne_nil_of_mem hv))
  have hunder : ∀ n, (paths.buildJobPrefix code).toList <+:
      (paths.buildJobIterationPath code n).toList :=
    fun n => (paths.under_buildJobPrefix code n).mpr (Or.inl rfl)
  have hstored : ∀ v ∈ logs code,
      (store.objects (paths.buildJobIterationPath code v.number)).isSome := by
    intro v hv
    obtain ⟨u, hu⟩ := VersionLog.current_of_mem hv
    rw [h.object code v.number (h.numbers code v hv), hu]
    rfl
  have hcontents : ∀ key, (store.contents key).isSome ↔ (store.objects key).isSome := by
    simp [ObjectStore.contents]
  rw [JobLogs.findJobMeta]
  cases hnewest : (logs code).newest with
  | none =>
      have hempty := VersionLog.newest_eq_none hnewest
      rcases findJobMeta_first hlists with ⟨hfind, -⟩ | ⟨key, version, hkey, hbelow, -, -⟩
      · exact hfind
      · obtain ⟨v, hv, -⟩ := hown key ((hcontents key).mp (by simp [hkey])) hbelow
        rw [hempty] at hv
        cases hv
  | some v =>
      obtain ⟨hcurrent, hlatest⟩ := VersionLog.newest_eq_some hnewest
      have hv := (VersionLog.current_eq_some hcurrent).1
      have hbound := h.numbers code v hv
      rcases findJobMeta_first hlists with ⟨-, hnothing⟩ |
        ⟨key, version, hkey, hbelow, hleast, hfind⟩
      · exact absurd (hunder v.number) (hnothing _ ((hcontents _).mpr (hstored v hv)))
      · -- the first key of the directory is the least one, so its number is the greatest
        obtain ⟨u, hu, rfl⟩ := hown key ((hcontents key).mp (by simp [hkey])) hbelow
        have hsame : u.number = v.number := by
          refine Nat.le_antisymm (hlatest u hu) ?_
          by_contra hlater
          have hlt := (paths.buildJobIterationPath_lt_iff code (h.numbers code u hu) hbound).mpr
            (Nat.lt_of_not_le hlater)
          exact absurd (hleast _ ((hcontents _).mpr (hstored v hv)) (hunder v.number))
            (not_le.mpr hlt)
        rw [hsame] at hkey hfind
        rw [ObjectStore.contents, h.object code v.number hbound, hcurrent] at hkey
        cases hkey
        rw [hfind, paths.parseIterNum_buildJobIterationPath code hbound]
        rfl

end HoldsLogs

end JobManager
