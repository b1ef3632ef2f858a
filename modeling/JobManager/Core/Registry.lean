import JobManager.Core.Definition
import JobManager.Library.KeyedMap

/-!
# The job registry

The definitions one instance works on, indexed by job code, with their executors
flattened into one table under the job code and the task code.  A registry can only be
built of definitions with distinct codes, none of them empty.

Main results:

- Theorem {lit}`JobRegistry.listJobs_new`: an accepted registry lists exactly the codes of
  the definitions it was built of.
- Theorem {lit}`JobRegistry.mem_of_get_new`: it holds no other definition.
- Theorem {lit}`JobRegistry.lookup_exact_iff`: when every lookup of an executor answers with
  the one the job's own definition binds.
-/

namespace JobManager

/-- Immutable collection of job definitions and task executors. -/
structure JobRegistry where
  jobsByCode : KeyedMap JobDefinition.code
  taskExecutorsByKey : String → Option Uuid
  code_nonempty : ∀ jobDef ∈ jobsByCode.values, jobDef.code ≠ ""

namespace JobRegistry

def empty : JobRegistry where
  jobsByCode := .empty
  taskExecutorsByKey := fun _ => none
  code_nonempty := by simp [KeyedMap.empty]

def taskExecutorKey (jobCode taskCode : String) : String := jobCode ++ ":" ++ taskCode

/-- Index one definition, unless its code is empty or taken. -/
def register (registry : JobRegistry) (jobDef : JobDefinition) : Except Error JobRegistry :=
  if hempty : jobDef.code = "" then
    .error (.other "job code cannot be empty")
  else if (registry.jobsByCode.get jobDef.code).isSome then
    .error (.other s!"job {jobDef.code} has duplicate")
  else
    .ok
      { jobsByCode := registry.jobsByCode.insert jobDef
        taskExecutorsByKey := jobDef.taskExecutors.foldl
          (fun executors (taskCode, executor) =>
            Function.update executors (taskExecutorKey jobDef.code taskCode) (some executor))
          registry.taskExecutorsByKey
        code_nonempty := by
          intro d hd
          rcases List.mem_append.mp hd with hold | hnew
          · exact registry.code_nonempty d (List.mem_filter.mp hold).1
          · rw [List.mem_singleton.mp hnew]
            exact hempty }

/-- Index the given definitions by job code. -/
def new (jobs : List JobDefinition) : Except Error JobRegistry :=
  if jobs.isEmpty then .error (.other "jobs cannot be empty")
  else jobs.foldlM register empty

/-- The codes of the registered jobs. -/
def listJobs (registry : JobRegistry) : List String := registry.jobsByCode.keys

/-- The executor of a task of a job. -/
def getTaskExecutor (registry : JobRegistry) (jobCode taskCode : String) : Except Error Uuid :=
  match registry.taskExecutorsByKey (taskExecutorKey jobCode taskCode) with
  | some executor => .ok executor
  | none => .error (.other s!"executor for task {taskCode} and job {jobCode} not exist")

/-! ## What a registry lists -/

/-- Registering a definition lists its code. -/
theorem mem_listJobs_register {registry registry' : JobRegistry} {jobDef : JobDefinition}
    (h : registry.register jobDef = .ok registry') (code : String) :
    code ∈ registry'.listJobs ↔ code = jobDef.code ∨ code ∈ registry.listJobs := by
  rw [register] at h
  split at h
  · cases h
  split at h
  · cases h
  · cases h
    simp only [listJobs, KeyedMap.mem_keys_iff, KeyedMap.get_insert]
    by_cases hcode : code = jobDef.code
    · simp [hcode]
    · simp [hcode, Ne.symm hcode]

/-- And registering several lists theirs. -/
theorem mem_listJobs_foldlM {jobs : List JobDefinition} {registry registry' : JobRegistry}
    (h : jobs.foldlM register registry = .ok registry') (code : String) :
    code ∈ registry'.listJobs ↔ code ∈ jobs.map JobDefinition.code ∨ code ∈ registry.listJobs := by
  induction jobs generalizing registry with
  | nil =>
      cases h
      simp
  | cons jobDef jobs ih =>
      rw [List.foldlM_cons, bind_eq_ok] at h
      obtain ⟨registry₁, hregister, hrest⟩ := h
      rw [ih hrest, mem_listJobs_register hregister, List.map_cons, List.mem_cons]
      tauto

/-- An accepted registry lists exactly the codes of the definitions it was built of. -/
theorem listJobs_new {jobs : List JobDefinition} {registry : JobRegistry}
    (h : new jobs = .ok registry) (code : String) :
    code ∈ registry.listJobs ↔ code ∈ jobs.map JobDefinition.code := by
  rw [new] at h
  split at h
  · cases h
  · rw [mem_listJobs_foldlM h code]
    simp [listJobs, empty, KeyedMap.keys, KeyedMap.empty]

/-- An accepted registry holds only definitions it was built of. -/
theorem mem_of_get_new {jobs : List JobDefinition} {registry : JobRegistry}
    (h : new jobs = .ok registry) {code : String} {jobDef : JobDefinition}
    (hget : registry.jobsByCode.get code = some jobDef) : jobDef ∈ jobs := by
  have hfold : ∀ (jobs : List JobDefinition) {registry₀ registry : JobRegistry},
      jobs.foldlM register registry₀ = .ok registry →
      registry.jobsByCode.get code = some jobDef →
      jobDef ∈ jobs ∨ registry₀.jobsByCode.get code = some jobDef := by
    intro jobs
    induction jobs with
    | nil =>
        intro registry₀ registry hfold hget
        cases hfold
        exact Or.inr hget
    | cons first jobs ih =>
        intro registry₀ registry hfold hget
        rw [List.foldlM_cons, bind_eq_ok] at hfold
        obtain ⟨registry₁, hregister, hrest⟩ := hfold
        rcases ih hrest hget with hmem | hold
        · exact Or.inl (List.mem_cons_of_mem _ hmem)
        · rw [register] at hregister
          split at hregister
          · cases hregister
          split at hregister
          · cases hregister
          · cases hregister
            rw [KeyedMap.get_insert] at hold
            split at hold
            · cases hold
              exact Or.inl List.mem_cons_self
            · exact Or.inr hold
  rw [new] at h
  split at h
  · cases h
  · rcases hfold jobs h hget with hmem | hempty
    · exact hmem
    · cases hempty

/-! ## Which executor a lookup answers with -/

/-- What an accepted registration required and the registry it leaves. -/
theorem register_eq_ok {registry registry' : JobRegistry} {jobDef : JobDefinition}
    (h : registry.register jobDef = .ok registry') :
    jobDef.code ∉ registry.listJobs ∧
      registry'.taskExecutorsByKey = jobDef.taskExecutors.foldl
        (fun executors (taskCode, executor) =>
          Function.update executors (taskExecutorKey jobDef.code taskCode) (some executor))
        registry.taskExecutorsByKey := by
  rw [register] at h
  split at h
  · cases h
  split at h <;> rename_i htaken
  · cases h
  · cases h
    refine ⟨?_, rfl⟩
    intro hmem
    obtain ⟨d, hd⟩ := KeyedMap.mem_keys_iff.mp hmem
    simp [hd] at htaken

/-- The definition of a job binds the task code to the executor. -/
def Binds (jobs : List JobDefinition) (jobCode taskCode : String) (executor : Uuid) : Prop :=
  ∃ jobDef ∈ jobs, jobDef.code = jobCode ∧ (taskCode, executor) ∈ jobDef.taskExecutors

/-- Some binding of the definitions has the given key in the flat table. -/
def BindsKey (jobs : List JobDefinition) (key : String) (executor : Uuid) : Prop :=
  ∃ jobCode taskCode, Binds jobs jobCode taskCode executor ∧ taskExecutorKey jobCode taskCode = key

section Table

variable {table : String → Option Uuid} {jobCode : String} {bindings : List (String × Uuid)}

/-- What flattening the bindings of one job leaves in the table: an entry comes from one of
them or was there before. -/
theorem foldl_update_sound {key : String} {executor : Uuid}
    (h : bindings.foldl (fun executors (taskCode, executor) =>
      Function.update executors (taskExecutorKey jobCode taskCode) (some executor)) table key =
        some executor) :
    (∃ taskCode, (taskCode, executor) ∈ bindings ∧ taskExecutorKey jobCode taskCode = key) ∨
      table key = some executor := by
  induction bindings generalizing table with
  | nil => exact Or.inr h
  | cons binding bindings ih =>
      obtain ⟨boundCode, bound⟩ := binding
      rcases ih h with ⟨taskCode, hmem, hkey⟩ | hold
      · exact Or.inl ⟨taskCode, List.mem_cons_of_mem _ hmem, hkey⟩
      · dsimp only at hold
        by_cases hkey : key = taskExecutorKey jobCode boundCode
        · subst hkey
          rw [Function.update_self, Option.some.injEq] at hold
          exact Or.inl ⟨boundCode, by simp [hold], rfl⟩
        · rw [Function.update_of_ne hkey] at hold
          exact Or.inr hold

theorem foldl_update_isSome {key : String}
    (h : (∃ taskCode executor, (taskCode, executor) ∈ bindings ∧
      taskExecutorKey jobCode taskCode = key) ∨ (table key).isSome) :
    (bindings.foldl (fun executors (taskCode, executor) =>
      Function.update executors (taskExecutorKey jobCode taskCode) (some executor)) table
        key).isSome := by
  induction bindings generalizing table with
  | nil =>
      rcases h with ⟨taskCode, executor, hmem, -⟩ | hold
      · cases hmem
      · exact hold
  | cons binding bindings ih =>
      obtain ⟨boundCode, bound⟩ := binding
      rw [List.foldl_cons]
      refine ih ?_
      dsimp only
      by_cases hkey : key = taskExecutorKey jobCode boundCode
      · right
        rw [hkey, Function.update_self]
        rfl
      · rw [Function.update_of_ne hkey]
        rcases h with ⟨taskCode, executor, hmem, hcode⟩ | hold
        · rcases List.mem_cons.mp hmem with heq | hmem
          · cases heq
            exact absurd hcode.symm hkey
          · exact Or.inl ⟨taskCode, executor, hmem, hcode⟩
        · exact Or.inr hold

end Table

/-- The table of a registry, filled definition by definition: every entry comes from a
binding, every binding has an entry, and no two definitions share a code. -/
theorem foldlM_register_table {jobs : List JobDefinition} {registry registry' : JobRegistry}
    (h : jobs.foldlM register registry = .ok registry') :
    (∀ key executor, registry'.taskExecutorsByKey key = some executor →
        BindsKey jobs key executor ∨ registry.taskExecutorsByKey key = some executor) ∧
      (∀ key, (∃ executor, BindsKey jobs key executor) ∨
        (registry.taskExecutorsByKey key).isSome → (registry'.taskExecutorsByKey key).isSome) ∧
      (jobs.map JobDefinition.code).Nodup ∧
      ∀ code ∈ jobs.map JobDefinition.code, code ∉ registry.listJobs := by
  induction jobs generalizing registry with
  | nil =>
      cases h
      refine ⟨fun _ _ h => Or.inr h, ?_, List.nodup_nil, by simp⟩
      rintro key (⟨executor, jobCode, taskCode, ⟨d, hd, -⟩, -⟩ | hold)
      · cases hd
      · exact hold
  | cons first jobs ih =>
      rw [List.foldlM_cons, bind_eq_ok] at h
      obtain ⟨registry₁, hregister, hrest⟩ := h
      obtain ⟨hsound, hcomplete, hnodup, hfresh⟩ := ih hrest
      obtain ⟨hcode, htable⟩ := register_eq_ok hregister
      have hlisted := mem_listJobs_register hregister
      refine ⟨?_, ?_, ?_, ?_⟩
      · intro key executor hget
        rcases hsound key executor hget with ⟨jobCode, taskCode, ⟨d, hd, hbinds⟩, hkey⟩ | hget₁
        · exact Or.inl ⟨jobCode, taskCode, ⟨d, List.mem_cons_of_mem _ hd, hbinds⟩, hkey⟩
        · rw [htable] at hget₁
          rcases foldl_update_sound hget₁ with ⟨taskCode, hmem, hkey⟩ | hold
          · exact Or.inl ⟨first.code, taskCode, ⟨first, List.mem_cons_self, rfl, hmem⟩, hkey⟩
          · exact Or.inr hold
      · intro key hkey
        refine hcomplete key ?_
        rw [htable]
        rcases hkey with ⟨executor, jobCode, taskCode, ⟨d, hd, rfl, hmem⟩, hkey⟩ | hold
        · rcases List.mem_cons.mp hd with rfl | hd
          · exact Or.inr (foldl_update_isSome (Or.inl ⟨taskCode, executor, hmem, hkey⟩))
          · exact Or.inl ⟨executor, d.code, taskCode, ⟨d, hd, rfl, hmem⟩, hkey⟩
        · exact Or.inr (foldl_update_isSome (Or.inr hold))
      · rw [List.map_cons, List.nodup_cons]
        refine ⟨?_, hnodup⟩
        intro hmem
        exact hfresh first.code hmem ((hlisted first.code).mpr (Or.inl rfl))
      · intro code hmem
        rw [List.map_cons, List.mem_cons] at hmem
        rcases hmem with rfl | hmem
        · exact hcode
        · intro hold
          exact hfresh code hmem ((hlisted code).mpr (Or.inr hold))

/-- Every way to cut the joined key of a binding into a job code and a task code gives a
pair bound to the same executor. -/
def KeysCutAlike (jobs : List JobDefinition) : Prop :=
  ∀ jobCode taskCode executor, Binds jobs jobCode taskCode executor →
    ∀ jobCode' taskCode', jobCode' ++ ":" ++ taskCode' = jobCode ++ ":" ++ taskCode →
      Binds jobs jobCode' taskCode' executor

theorem getTaskExecutor_eq_ok {registry : JobRegistry} {jobCode taskCode : String}
    {executor : Uuid} :
    registry.getTaskExecutor jobCode taskCode = .ok executor ↔
      registry.taskExecutorsByKey (taskExecutorKey jobCode taskCode) = some executor := by
  unfold getTaskExecutor
  split <;> rename_i h <;> simp [h]

/-- Two definitions of an accepted registry do not bind one task of a job differently. -/
theorem Binds.unique {jobs : List JobDefinition} (hnodup : (jobs.map JobDefinition.code).Nodup)
    (haccepted : ∀ jobDef ∈ jobs, jobDef.Accepted) {jobCode taskCode : String}
    {executor executor' : Uuid} (h : Binds jobs jobCode taskCode executor)
    (h' : Binds jobs jobCode taskCode executor') : executor = executor' := by
  obtain ⟨d, hd, hcode, hmem⟩ := h
  obtain ⟨d', hd', hcode', hmem'⟩ := h'
  obtain rfl := List.inj_on_of_nodup_map hnodup hd hd' (hcode.trans hcode'.symm)
  have hbinding := List.inj_on_of_nodup_map (haccepted d hd).nodup_executors hmem hmem' rfl
  exact congrArg Prod.snd hbinding

/-- Over the definitions of an accepted registry, every lookup answers with exactly the
executor the job's own definition binds, and fails where there is none, if and only if the
keys of their bindings cut alike. -/
theorem lookup_exact_iff (jobs : List JobDefinition) (registry : JobRegistry)
    (haccepted : ∀ jobDef ∈ jobs, jobDef.Accepted) (hnew : new jobs = .ok registry) :
    (∀ jobCode taskCode,
      (∀ executor, registry.getTaskExecutor jobCode taskCode = .ok executor ↔
        Binds jobs jobCode taskCode executor) ∧
      ((∃ e, registry.getTaskExecutor jobCode taskCode = .error e) ↔
        jobCode ∉ jobs.map JobDefinition.code ∨
          ∀ executor, ¬ Binds jobs jobCode taskCode executor)) ↔
      KeysCutAlike jobs := by
  have hfold : jobs.foldlM register empty = .ok registry := by
    rw [new] at hnew
    split at hnew
    · cases hnew
    · exact hnew
  obtain ⟨hsound, hcomplete, hnodup, -⟩ := foldlM_register_table hfold
  constructor
  · intro hexact jobCode taskCode executor hbinds jobCode' taskCode' hkey
    have hget := ((hexact jobCode taskCode).1 executor).mpr hbinds
    rw [getTaskExecutor_eq_ok] at hget
    refine ((hexact jobCode' taskCode').1 executor).mp (getTaskExecutor_eq_ok.mpr ?_)
    rw [← hget]
    exact congrArg _ hkey
  · intro hcut jobCode taskCode
    have hok : ∀ executor, registry.getTaskExecutor jobCode taskCode = .ok executor ↔
        Binds jobs jobCode taskCode executor := by
      intro executor
      have hfound : ∀ executor, registry.taskExecutorsByKey (taskExecutorKey jobCode taskCode) =
          some executor → Binds jobs jobCode taskCode executor := by
        intro executor hget
        rcases hsound _ executor hget with ⟨jobCode', taskCode', hbinds, hkey⟩ | hempty
        · exact hcut jobCode' taskCode' executor hbinds jobCode taskCode hkey.symm
        · cases hempty
      rw [getTaskExecutor_eq_ok]
      constructor
      · exact hfound executor
      · intro hbinds
        have hsome := hcomplete (taskExecutorKey jobCode taskCode)
          (Or.inl ⟨executor, jobCode, taskCode, hbinds, rfl⟩)
        obtain ⟨executor', hget⟩ := Option.isSome_iff_exists.mp hsome
        rw [hget, (hfound executor' hget).unique hnodup haccepted hbinds]
    refine ⟨hok, ?_⟩
    constructor
    · rintro ⟨e, he⟩
      right
      intro executor hbinds
      rw [(hok executor).mpr hbinds] at he
      cases he
    · intro hmissing
      cases hget : registry.getTaskExecutor jobCode taskCode with
      | error e => exact ⟨e, rfl⟩
      | ok executor =>
          obtain ⟨d, hd, hcode, hmem⟩ := (hok executor).mp hget
          rcases hmissing with hunregistered | hunbound
          · exact absurd (List.mem_map.mpr ⟨d, hd, hcode⟩) hunregistered
          · exact absurd ⟨d, hd, hcode, hmem⟩ (hunbound executor)

end JobRegistry

/-- A job of one task. -/
def soloDefinition (code : String) : JobDefinition where
  code := code
  initialTasks := [.new "t" (milliseconds 100000)]
  taskExecutors := [("t", 1)]
  maxIterations := none
  iterationInterval := none
  taskLimits := .default
  iterationRetention := defaultIterationRetention

theorem soloDefinition_accepted (code : String) : (soloDefinition code).Accepted :=
  .new (show JobDefinition.new 7 code [(.new "t" (milliseconds 100000), 1)] [] [] .default =
    .ok (soloDefinition code) from rfl)

namespace JobRegistry

/-- A text has one place to be cut at a separator that neither part contains. -/
theorem cut_unique {jobCode taskCode jobCode' taskCode' : String}
    (hjob : ':' ∉ jobCode.toList) (htask : ':' ∉ taskCode.toList)
    (h : jobCode' ++ ":" ++ taskCode' = jobCode ++ ":" ++ taskCode) :
    jobCode' = jobCode ∧ taskCode' = taskCode := by
  have hcut : ∀ (l l' r r' : List Char), ':' ∉ l → ':' ∉ r → l' ++ ':' :: r' = l ++ ':' :: r →
      l' = l ∧ r' = r := by
    intro l
    induction l with
    | nil =>
        intro l' r r' _ hr heq
        cases l' with
        | nil => simpa using heq
        | cons c l' =>
            simp only [List.cons_append, List.nil_append, List.cons.injEq] at heq
            exact absurd (heq.2 ▸ by simp) hr
    | cons c l ih =>
        intro l' r r' hl hr heq
        cases l' with
        | nil =>
            simp only [List.cons_append, List.nil_append, List.cons.injEq] at heq
            exact absurd (List.mem_cons.mpr (Or.inl heq.1)) hl
        | cons c' l' =>
            simp only [List.cons_append, List.cons.injEq] at heq
            obtain ⟨rfl, rfl⟩ := ih l' r r' (fun hmem => hl (List.mem_cons_of_mem _ hmem)) hr heq.2
            exact ⟨by rw [heq.1], rfl⟩
  have hlists := congrArg String.toList h
  simp only [String.toList_append] at hlists
  obtain ⟨hleft, hright⟩ := hcut jobCode.toList jobCode'.toList taskCode.toList taskCode'.toList
    hjob htask (by simpa using hlists)
  exact ⟨String.toList_injective hleft, String.toList_injective hright⟩

/-- Keys cut alike where no bound code contains the separator. -/
theorem keysCutAlike_of_no_colon {jobs : List JobDefinition}
    (h : ∀ jobCode taskCode executor, Binds jobs jobCode taskCode executor →
      ':' ∉ jobCode.toList ∧ ':' ∉ taskCode.toList) : KeysCutAlike jobs := by
  intro jobCode taskCode executor hbinds jobCode' taskCode' hkey
  obtain ⟨hjob, htask⟩ := h jobCode taskCode executor hbinds
  obtain ⟨rfl, rfl⟩ := cut_unique hjob htask hkey
  exact hbinds

/-- A registry of one job of one task answers for that task alone. -/
theorem solo_lookup_exact :
    ∃ registry, new [soloDefinition "job"] = .ok registry ∧
      ∀ jobCode taskCode executor, registry.getTaskExecutor jobCode taskCode = .ok executor ↔
        Binds [soloDefinition "job"] jobCode taskCode executor := by
  have hcut : KeysCutAlike [soloDefinition "job"] := by
    refine keysCutAlike_of_no_colon ?_
    rintro jobCode taskCode executor ⟨d, hd, rfl, hmem⟩
    obtain rfl := List.mem_singleton.mp hd
    obtain ⟨rfl, -⟩ : taskCode = "t" ∧ executor = 1 := by simpa [soloDefinition] using hmem
    decide
  have haccepted : ∀ d ∈ [soloDefinition "job"], d.Accepted := by
    intro d hd
    rw [List.mem_singleton.mp hd]
    exact soloDefinition_accepted "job"
  refine ⟨_, rfl, fun jobCode taskCode executor => ?_⟩
  exact ((lookup_exact_iff [soloDefinition "job"] _ haccepted rfl).mpr hcut jobCode taskCode).1
    executor

/-- A job of one task with the given code and executor. -/
def boundDefinition (code taskCode : String) (executor : Uuid) : JobDefinition :=
  { soloDefinition code with
    initialTasks := [.new taskCode (milliseconds 100000)]
    taskExecutors := [(taskCode, executor)] }

theorem boundDefinition_accepted (code taskCode : String) (executor : Uuid) :
    (boundDefinition code taskCode executor).Accepted :=
  .new (show JobDefinition.new 7 code [(.new taskCode (milliseconds 100000), executor)] [] []
    .default = .ok (boundDefinition code taskCode executor) from rfl)

/-- Task {lit}`b:c` of job {lit}`a` and task {lit}`c` of job {lit}`a:b` share a key, so the
first is answered with the executor of the second. -/
theorem colliding_keys :
    (boundDefinition "a" "b:c" 1).Accepted ∧ (boundDefinition "a:b" "c" 2).Accepted ∧
      ∃ registry, new [boundDefinition "a" "b:c" 1, boundDefinition "a:b" "c" 2] = .ok registry ∧
        Binds [boundDefinition "a" "b:c" 1, boundDefinition "a:b" "c" 2] "a" "b:c" 1 ∧
        ¬ Binds [boundDefinition "a" "b:c" 1, boundDefinition "a:b" "c" 2] "a" "b:c" 2 ∧
        registry.getTaskExecutor "a" "b:c" = .ok 2 := by
  refine ⟨boundDefinition_accepted _ _ _, boundDefinition_accepted _ _ _, _, rfl, ?_, ?_, rfl⟩
  · exact ⟨boundDefinition "a" "b:c" 1, by simp, rfl, by simp [boundDefinition]⟩
  · rintro ⟨d, hd, hcode, hmem⟩
    simp only [List.mem_cons, List.not_mem_nil, or_false] at hd
    rcases hd with rfl | rfl
    · simp [boundDefinition] at hmem
    · simp [boundDefinition, soloDefinition] at hcode

end JobRegistry

end JobManager
