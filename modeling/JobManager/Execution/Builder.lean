import JobManager.Core.Acceptance
import JobManager.Execution.Waiting
import JobManager.Pool.Workers
import JobManager.Storage.ObjectStorage

/-!
# Building a pool

A pool is described by calls of two builders: of one for its storage, its jobs and its settings,
and of one for every job.  Nothing is checked before the pool is built.  A setting named twice
is the one named last; tasks, executors and dependencies add up.

Main results:

- Theorem {lit}`exists_buildDefinition_iff`: the descriptions of a job that are
  accepted.
- Theorem {lit}`manager_built_exact`: the descriptions of a pool that are accepted.
- Theorem {lit}`built_manager_described`: what a manager runs is what was described.
-/

namespace JobManager

/-! ## The description of a job -/

/-- Describes one job: its schedule, its initial tasks and every executor it may run. -/
structure JobBuilder where
  id : Uuid
  code : String
  iterationInterval : Option Nat
  maxIterations : Option Nat
  iterationRetention : Option Nat
  taskLimits : Option TaskLimits
  initialTasks : List (TaskDefinition × Uuid)
  runtimeExecutors : List (String × Uuid)
  dependencies : List (TaskRef × List TaskRef)

/-- What is called to describe a job. -/
inductive JobBuilderCall where
  | every (interval : Nat)
  | maxIterations (count : Nat)
  | keepIterations (count : Nat)
  | taskLimits (limits : TaskLimits)
  | addTask (definition : TaskDefinition) (executor : Uuid)
  | addTaskExecutor (code : String) (executor : Uuid)
  | dependsOn (task : TaskRef) (dependencies : List TaskRef)
  | chain (tasks : List TaskRef)

/-- Apply a setter where its setting was named. -/
def whereNamed {α β : Type} (named : Option β) (set : α → β → Except Error α) (a : α) :
    Except Error α :=
  match named with
  | some b => set a b
  | none => .ok a

namespace JobBuilder

def new (id : Uuid) (code : String) : JobBuilder where
  id := id
  code := code
  iterationInterval := none
  maxIterations := none
  iterationRetention := none
  taskLimits := none
  initialTasks := []
  runtimeExecutors := []
  dependencies := []

/-- Declare an initial task with its executor; the reference answered names it. -/
def addTask (builder : JobBuilder) (definition : TaskDefinition) (executor : Uuid) :
    TaskRef × JobBuilder :=
  (.initial builder.id builder.initialTasks.length,
    { builder with initialTasks := builder.initialTasks ++ [(definition, executor)] })

def dependsOn (builder : JobBuilder) (task : TaskRef) (dependencies : List TaskRef) :
    JobBuilder :=
  { builder with dependencies := builder.dependencies ++ [(task, dependencies)] }

/-- Link the tasks into a sequence: each one waits for the previous. -/
def chain (builder : JobBuilder) (tasks : List TaskRef) : JobBuilder :=
  (tasks.zip tasks.tail).foldl (fun builder pair => builder.dependsOn pair.2 [pair.1]) builder

def apply (builder : JobBuilder) : JobBuilderCall → JobBuilder
  | .every interval => { builder with iterationInterval := some interval }
  | .maxIterations count => { builder with maxIterations := some count }
  | .keepIterations count => { builder with iterationRetention := some count }
  | .taskLimits limits => { builder with taskLimits := some limits }
  | .addTask definition executor => (builder.addTask definition executor).2
  | .addTaskExecutor code executor =>
      { builder with runtimeExecutors := builder.runtimeExecutors ++ [(code, executor)] }
  | .dependsOn task dependencies => builder.dependsOn task dependencies
  | .chain tasks => builder.chain tasks

def buildDefinition (builder : JobBuilder) : Except Error JobDefinition := do
  let jobDef ← JobDefinition.new builder.id builder.code builder.initialTasks
    builder.runtimeExecutors builder.dependencies (builder.taskLimits.getD .default)
  let jobDef ← whereNamed builder.maxIterations JobDefinition.withMaxIterations jobDef
  let jobDef ← whereNamed builder.iterationRetention JobDefinition.withIterationRetention jobDef
  whereNamed builder.iterationInterval JobDefinition.withIterationInterval jobDef

end JobBuilder

/-- The job that the calls of a closure describe. -/
def describeJob (id : Uuid) (code : String) (calls : List JobBuilderCall) : JobBuilder :=
  calls.foldl JobBuilder.apply (.new id code)

/-! ### What a call says -/

namespace JobBuilderCall

def interval? : JobBuilderCall → Option Nat
  | .every interval => some interval
  | _ => none

def maxIterations? : JobBuilderCall → Option Nat
  | .maxIterations count => some count
  | _ => none

def retention? : JobBuilderCall → Option Nat
  | .keepIterations count => some count
  | _ => none

def limits? : JobBuilderCall → Option TaskLimits
  | .taskLimits limits => some limits
  | _ => none

def task? : JobBuilderCall → Option (TaskDefinition × Uuid)
  | .addTask definition executor => some (definition, executor)
  | _ => none

def executor? : JobBuilderCall → Option (String × Uuid)
  | .addTaskExecutor code executor => some (code, executor)
  | _ => none

def declares : JobBuilderCall → List (TaskRef × List TaskRef)
  | .dependsOn task dependencies => [(task, dependencies)]
  | .chain tasks => (tasks.zip tasks.tail).map fun pair => (pair.2, [pair.1])
  | _ => []

end JobBuilderCall

/-- The setting that was named last. -/
def lastNamed {κ α : Type} (named : κ → Option α) (calls : List κ) : Option α :=
  (calls.filterMap named).getLast?

/-- A later call overrides an earlier one. -/
theorem lastNamed_cons {κ α : Type} (named : κ → Option α) (call : κ) (calls : List κ) :
    lastNamed named (call :: calls) = (lastNamed named calls).or (named call) := by
  unfold lastNamed
  cases hnamed : named call with
  | none => rw [List.filterMap_cons_none hnamed, Option.or_none]
  | some a =>
      rw [List.filterMap_cons_some hnamed, List.getLast?_cons]
      cases (calls.filterMap named).getLast? <;> rfl

open JobBuilderCall

/-- A chain declares that each of its tasks waits for the previous. -/
theorem JobBuilder.chain_eq (builder : JobBuilder) (tasks : List TaskRef) :
    builder.chain tasks =
      { builder with dependencies := builder.dependencies ++ declares (.chain tasks) } := by
  have hpairs : ∀ (pairs : List (TaskRef × TaskRef)) (builder : JobBuilder),
      pairs.foldl (fun builder pair => builder.dependsOn pair.2 [pair.1]) builder =
        { builder with
          dependencies := builder.dependencies ++ pairs.map fun pair => (pair.2, [pair.1]) } := by
    intro pairs
    induction pairs with
    | nil => simp
    | cons pair pairs ih =>
        intro builder
        rw [List.foldl_cons, ih]
        simp [JobBuilder.dependsOn]
  exact hpairs _ builder

/-- What a builder holds after some calls. -/
theorem JobBuilder.foldl_apply (calls : List JobBuilderCall) (builder : JobBuilder) :
    calls.foldl JobBuilder.apply builder =
      { id := builder.id
        code := builder.code
        iterationInterval := (lastNamed interval? calls).or builder.iterationInterval
        maxIterations := (lastNamed maxIterations? calls).or builder.maxIterations
        iterationRetention := (lastNamed retention? calls).or builder.iterationRetention
        taskLimits := (lastNamed limits? calls).or builder.taskLimits
        initialTasks := builder.initialTasks ++ calls.filterMap task?
        runtimeExecutors := builder.runtimeExecutors ++ calls.filterMap executor?
        dependencies := builder.dependencies ++ calls.flatMap declares } := by
  induction calls generalizing builder with
  | nil => simp [lastNamed]
  | cons call calls ih =>
      rw [List.foldl_cons, ih]
      cases call <;>
        simp [lastNamed_cons, List.filterMap_cons, apply, addTask, dependsOn, chain_eq, interval?,
          maxIterations?, retention?, limits?, task?, executor?, declares]

/-- What the calls describe: the settings named last, and whatever was added, in its order. -/
theorem describeJob_eq (id : Uuid) (code : String) (calls : List JobBuilderCall) :
    describeJob id code calls =
      { id := id
        code := code
        iterationInterval := lastNamed interval? calls
        maxIterations := lastNamed maxIterations? calls
        iterationRetention := lastNamed retention? calls
        taskLimits := lastNamed limits? calls
        initialTasks := calls.filterMap task?
        runtimeExecutors := calls.filterMap executor?
        dependencies := calls.flatMap declares } := by
  rw [describeJob, JobBuilder.foldl_apply]
  simp [JobBuilder.new]

/-! ### Accepted descriptions of a job -/

namespace JobDefinition

/-- Binding an executor keeps what was bound and binds the one given. -/
theorem registerExecutor_mem {executors executors' : List (String × Uuid)}
    {jobCode taskCode : String} {executor : Uuid}
    (h : registerExecutor executors jobCode taskCode executor = .ok executors')
    (b : String × Uuid) : b ∈ executors' ↔ b ∈ executors ∨ b = (taskCode, executor) := by
  unfold registerExecutor at h
  split at h
  · rename_i registered hlookup
    split at h
    · rename_i hsame
      cases h
      obtain ⟨before, after, hsplit, -⟩ := List.lookup_eq_some_iff.mp hlookup
      constructor
      · exact Or.inl
      · rintro (hb | rfl)
        · exact hb
        · rw [hsplit, ← hsame]
          simp
    · cases h
  · cases h
    rw [List.mem_cons, or_comm]

/-- Registering the initial tasks binds each to its executor, and nothing else. -/
theorem registerInitialTasks_mem {code : String} {limits : TaskLimits} {position : Nat}
    {tasks : List (TaskDefinition × Uuid)} {executors executors' : List (String × Uuid)}
    (h : registerInitialTasks code limits position tasks executors = .ok executors')
    (b : String × Uuid) :
    b ∈ executors' ↔ b ∈ executors ∨ b ∈ tasks.map fun task => (task.1.code, task.2) := by
  induction tasks generalizing position executors with
  | nil =>
      cases h
      simp
  | cons task tasks ih =>
      rw [registerInitialTasks] at h
      split at h
      · dsimp only at h
        rw [bind_eq_ok] at h
        obtain ⟨executors₁, hregister, h⟩ := h
        rw [ih h, registerExecutor_mem hregister, List.map_cons, List.mem_cons, or_assoc]
      · cases h

/-- And so does registering the executors of later tasks. -/
theorem registerRuntimeExecutors_mem {code : String}
    {bindings executors executors' : List (String × Uuid)}
    (h : registerRuntimeExecutors code bindings executors = .ok executors') (b : String × Uuid) :
    b ∈ executors' ↔ b ∈ executors ∨ b ∈ bindings := by
  induction bindings generalizing executors with
  | nil =>
      cases h
      simp
  | cons binding bindings ih =>
      rw [registerRuntimeExecutors, bind_eq_ok] at h
      obtain ⟨executors₁, hregister, h⟩ := h
      rw [ih h, registerExecutor_mem hregister, List.mem_cons, or_assoc]

section New

variable {id : Uuid} {code : String} {initialTasks : List (TaskDefinition × Uuid)}
  {runtimeExecutors : List (String × Uuid)} {declared : List (TaskRef × List TaskRef)}
  {limits : TaskLimits} {d : JobDefinition}

/-- An accepted description binds the executors it was given, and no other. -/
theorem mem_taskExecutors_of_new
    (h : new id code initialTasks runtimeExecutors declared limits = .ok d)
    (b : String × Uuid) : b ∈ d.taskExecutors ↔ b ∈ bindings initialTasks runtimeExecutors := by
  obtain ⟨-, executors, executors', _, hinitial, hruntime, -, -, rfl⟩ := new_eq_ok.mp h
  rw [registerRuntimeExecutors_mem hruntime, registerInitialTasks_mem hinitial, bindings,
    List.mem_append]
  simp

/-- A definition that was made binds no code to two executors. -/
theorem consistent_of_new
    (h : new id code initialTasks runtimeExecutors declared limits = .ok d) :
    Consistent (bindings initialTasks runtimeExecutors) := by
  intro a ha b hb hcode
  rw [← mem_taskExecutors_of_new h] at ha hb
  obtain ⟨-, executors, executors', _, hinitial, hruntime, -, -, rfl⟩ := new_eq_ok.mp h
  have hnodup := registerRuntimeExecutors_nodup
    (registerInitialTasks_nodup (by simp) hinitial) hruntime
  rw [List.inj_on_of_nodup_map hnodup ha hb hcode]

end New

/-- An interval is taken where it is positive and within range. -/
theorem withIterationInterval_eq_ok_iff {d d' : JobDefinition} {n : Nat} :
    d.withIterationInterval n = .ok d' ↔
      (n ≠ 0 ∧ (durationFromStd n).isSome = true) ∧
        { d with iterationInterval := some n } = d' := by
  unfold withIterationInterval
  split_ifs with hzero hlarge
  · simp [hzero]
  · rw [Option.isNone_iff_eq_none] at hlarge
    simp [hlarge]
  · rw [Option.isNone_iff_eq_none, ← ne_eq, Option.ne_none_iff_isSome] at hlarge
    simp [hzero, hlarge]

end JobDefinition

open JobDefinition

section Settings

variable {named : Option Nat} {d d' : JobDefinition}

/-- The budget named last is taken where it is positive. -/
theorem whereNamed_maxIterations :
    whereNamed named JobDefinition.withMaxIterations d = .ok d' ↔
      (∀ n, named = some n → n ≠ 0) ∧
        { d with maxIterations := named.or d.maxIterations } = d' := by
  cases named with
  | none => simp [whereNamed]
  | some n => simp [whereNamed, withMaxIterations_eq_ok]

/-- The retention named last is taken where it is long enough. -/
theorem whereNamed_iterationRetention :
    whereNamed named JobDefinition.withIterationRetention d = .ok d' ↔
      (∀ n, named = some n → minIterationRetention ≤ n) ∧
        { d with iterationRetention := named.getD d.iterationRetention } = d' := by
  cases named with
  | none => simp [whereNamed]
  | some n => simp [whereNamed, withIterationRetention_eq_ok]

/-- The interval named last is taken where it is positive and within range. -/
theorem whereNamed_iterationInterval :
    whereNamed named JobDefinition.withIterationInterval d = .ok d' ↔
      (∀ n, named = some n → n ≠ 0 ∧ (durationFromStd n).isSome = true) ∧
        { d with iterationInterval := named.or d.iterationInterval } = d' := by
  cases named with
  | none => simp [whereNamed]
  | some n => simp [whereNamed, withIterationInterval_eq_ok_iff]

end Settings

/-- What the calls that describe a job have to agree on. -/
structure AcceptableJob (id : Uuid) (calls : List JobBuilderCall) : Prop where
  nonempty : calls.filterMap task? ≠ []
  valid : ∀ task ∈ calls.filterMap task?,
    task.1.validate ((lastNamed limits? calls).getD .default) = .ok ()
  consistent : Consistent (bindings (calls.filterMap task?) (calls.filterMap executor?))
  coherent : Coherent id ((calls.filterMap task?).map Prod.fst) (calls.flatMap declares)
  maxIterations : ∀ count, lastNamed maxIterations? calls = some count → count ≠ 0
  retention : ∀ count, lastNamed retention? calls = some count → minIterationRetention ≤ count
  interval : ∀ interval, lastNamed interval? calls = some interval →
    interval ≠ 0 ∧ (durationFromStd interval).isSome = true

section Definitions

variable {id : Uuid} {code : String} {calls : List JobBuilderCall} {d : JobDefinition}

/-- What a description is built to, once it was accepted with no setting named. -/
def settled (calls : List JobBuilderCall) (base : JobDefinition) : JobDefinition :=
  { base with
    maxIterations := (lastNamed maxIterations? calls).or base.maxIterations
    iterationRetention := (lastNamed retention? calls).getD base.iterationRetention
    iterationInterval := (lastNamed interval? calls).or base.iterationInterval }

/-- What building a definition asks for and gives. -/
theorem buildDefinition_eq_ok :
    (describeJob id code calls).buildDefinition = .ok d ↔
      (∃ base, JobDefinition.new id code (calls.filterMap task?) (calls.filterMap executor?)
          (calls.flatMap declares) ((lastNamed limits? calls).getD .default) = .ok base ∧
        d = settled calls base) ∧
      (∀ count, lastNamed maxIterations? calls = some count → count ≠ 0) ∧
      (∀ count, lastNamed retention? calls = some count → minIterationRetention ≤ count) ∧
      ∀ interval, lastNamed interval? calls = some interval →
        interval ≠ 0 ∧ (durationFromStd interval).isSome = true := by
  rw [describeJob_eq, JobBuilder.buildDefinition]
  simp only [bind_eq_ok, whereNamed_maxIterations, whereNamed_iterationRetention,
    whereNamed_iterationInterval]
  constructor
  · rintro ⟨base, hnew, _, ⟨hmax, rfl⟩, _, ⟨hretention, rfl⟩, hinterval, rfl⟩
    exact ⟨⟨base, hnew, rfl⟩, hmax, hretention, hinterval⟩
  · rintro ⟨⟨base, hnew, rfl⟩, hmax, hretention, hinterval⟩
    exact ⟨base, hnew, _, ⟨hmax, rfl⟩, _, ⟨hretention, rfl⟩, hinterval, rfl⟩

/-- The descriptions of a job that are accepted. -/
theorem exists_buildDefinition_iff :
    (∃ d, (describeJob id code calls).buildDefinition = .ok d) ↔ AcceptableJob id calls := by
  simp only [buildDefinition_eq_ok]
  constructor
  · rintro ⟨d, ⟨base, hnew, -⟩, hmax, hretention, hinterval⟩
    obtain ⟨hne, _, _, _, hinitial, -, -, -, -⟩ := new_eq_ok.mp hnew
    exact ⟨hne, registerInitialTasks_validate hinitial, consistent_of_new hnew,
      (coherent_of_new hnew).1, hmax, hretention, hinterval⟩
  · intro h
    have haccepted : ∃ base, JobDefinition.new id code (calls.filterMap task?)
        (calls.filterMap executor?) (calls.flatMap declares)
        ((lastNamed limits? calls).getD .default) = .ok base :=
      (exists_new_eq_ok_iff h.nonempty h.valid h.consistent).mpr h.coherent
    obtain ⟨base, hnew⟩ := haccepted
    exact ⟨_, ⟨base, hnew, rfl⟩, h.maxIterations, h.retention, h.interval⟩

/-- In a list, the pairs of neighbours are the sublists of two. -/
theorem mem_zip_tail_iff {α : Type} {a b : α} {l : List α} :
    (a, b) ∈ l.zip l.tail ↔ [a, b] <:+: l := by
  induction l with
  | nil => simp
  | cons x l ih =>
      cases l with
      | nil => simp [List.infix_cons_iff]
      | cons y l =>
          rw [List.infix_cons_iff, ← ih, List.tail_cons, List.zip_cons_cons, List.mem_cons]
          simp

/-- What a definition has of the calls that describe it.  Every reference handed out names the
task it was handed out for, and a task waits for another where its own definition says so, a
declaration does, or a chain has the other directly before it. -/
structure Described (id : Uuid) (code : String) (calls : List JobBuilderCall)
    (d : JobDefinition) : Prop where
  accepted : d.Accepted
  named : d.code = code
  count : d.initialTasks.length = (calls.filterMap task?).length
  references : ∀ before definition executor after,
    calls = before ++ .addTask definition executor :: after →
      ∃ p task, ((describeJob id code before).addTask definition executor).1 = .initial id p ∧
        d.initialTasks[p]? = some task ∧
        { task with dependsOn := definition.dependsOn } = definition
  waits : ∀ p q task, d.initialTasks[p]? = some task →
    (.initial id q ∈ task.dependsOn ↔
      (∃ own, (calls.filterMap task?)[p]? = some own ∧ .initial id q ∈ own.1.dependsOn) ∨
      (∃ dependencies, .dependsOn (.initial id p) dependencies ∈ calls ∧
        .initial id q ∈ dependencies) ∨
      ∃ tasks, .chain tasks ∈ calls ∧ [.initial id q, .initial id p] <:+: tasks)
  executors : ∀ b, b ∈ d.taskExecutors ↔
    b ∈ bindings (calls.filterMap task?) (calls.filterMap executor?)
  maxIterations : d.maxIterations = lastNamed maxIterations? calls
  iterationRetention :
    d.iterationRetention = (lastNamed retention? calls).getD defaultIterationRetention
  iterationInterval : d.iterationInterval = lastNamed interval? calls
  taskLimits : d.taskLimits = (lastNamed limits? calls).getD .default

/-- What is declared for a task, by declarations and by chains. -/
theorem mem_declared_iff {task dependency : TaskRef} :
    (∃ entry ∈ calls.flatMap declares, entry.1 = task ∧ dependency ∈ entry.2) ↔
      (∃ dependencies, .dependsOn task dependencies ∈ calls ∧ dependency ∈ dependencies) ∨
      ∃ tasks, .chain tasks ∈ calls ∧ [dependency, task] <:+: tasks := by
  simp only [List.mem_flatMap]
  constructor
  · rintro ⟨entry, ⟨call, hcall, hentry⟩, rfl, hdependency⟩
    cases call with
    | dependsOn task dependencies =>
        obtain rfl := List.mem_singleton.mp hentry
        exact Or.inl ⟨dependencies, hcall, hdependency⟩
    | chain tasks =>
        obtain ⟨pair, hpair, rfl⟩ := List.mem_map.mp hentry
        obtain rfl := List.mem_singleton.mp hdependency
        exact Or.inr ⟨tasks, hcall, mem_zip_tail_iff.mp hpair⟩
    | _ => cases hentry
  · rintro (⟨dependencies, hcall, hdependency⟩ | ⟨tasks, hcall, hchain⟩)
    · exact ⟨(task, dependencies), ⟨_, hcall, List.mem_singleton.mpr rfl⟩, rfl, hdependency⟩
    · exact ⟨(task, [dependency]),
        ⟨_, hcall, List.mem_map.mpr ⟨(dependency, task), mem_zip_tail_iff.mpr hchain, rfl⟩⟩, rfl,
        List.mem_singleton.mpr rfl⟩

/-- Naming settings within their bounds keeps a definition accepted. -/
theorem accepted_settled {base : JobDefinition} (hbase : base.Accepted)
    (hmax : ∀ count, lastNamed maxIterations? calls = some count → count ≠ 0)
    (hretention : ∀ count, lastNamed retention? calls = some count →
      minIterationRetention ≤ count)
    (hinterval : ∀ interval, lastNamed interval? calls = some interval →
      interval ≠ 0 ∧ (durationFromStd interval).isSome = true) :
    (settled calls base).Accepted := by
  have hmaxed : { base with
      maxIterations := (lastNamed maxIterations? calls).or base.maxIterations }.Accepted := by
    cases hnamed : lastNamed maxIterations? calls with
    | none => exact hbase
    | some count => exact .maxIterations hbase (withMaxIterations_eq_ok.mpr ⟨hmax _ hnamed, rfl⟩)
  have hretained : { base with
      maxIterations := (lastNamed maxIterations? calls).or base.maxIterations
      iterationRetention :=
        (lastNamed retention? calls).getD base.iterationRetention }.Accepted := by
    cases hnamed : lastNamed retention? calls with
    | none => exact hmaxed
    | some count =>
        exact .retention hmaxed (withIterationRetention_eq_ok.mpr ⟨hretention _ hnamed, rfl⟩)
  unfold settled
  cases hnamed : lastNamed interval? calls with
  | none => exact hretained
  | some interval =>
      exact .interval hretained (withIterationInterval_eq_ok_iff.mpr ⟨hinterval _ hnamed, rfl⟩)

/-- A description that is accepted is built to what was described. -/
theorem buildDefinition_described
    (h : (describeJob id code calls).buildDefinition = .ok d) : Described id code calls d := by
  obtain ⟨⟨base, hnew, rfl⟩, hmax, hretention, hinterval⟩ := buildDefinition_eq_ok.mp h
  have hexecutors := mem_taskExecutors_of_new hnew
  have hcoherent := coherent_of_new hnew
  have hat : ∀ p, base.initialTasks[p]? =
      ((calls.filterMap task?)[p]?).map fun (own : TaskDefinition × Uuid) =>
        { own.1 with
          dependsOn := own.1.dependsOn ++ declaredFor id (calls.flatMap declares) p } := by
    intro p
    rw [hcoherent.2, getElem?_merged, List.getElem?_map, Option.map_map]
    rfl
  obtain ⟨hcode, hmaxIterations, hkept, hevery, hlimits⟩ : base.code = code ∧
      base.maxIterations = none ∧ base.iterationRetention = defaultIterationRetention ∧
      base.iterationInterval = none ∧
      base.taskLimits = (lastNamed limits? calls).getD .default := by
    obtain ⟨-, _, _, _, -, -, -, -, rfl⟩ := new_eq_ok.mp hnew
    exact ⟨rfl, rfl, rfl, rfl, rfl⟩
  refine
    { accepted := accepted_settled (.new hnew) hmax hretention hinterval
      named := hcode
      count := ?_
      references := ?_
      waits := ?_
      executors := hexecutors
      maxIterations := ?_
      iterationRetention := ?_
      iterationInterval := ?_
      taskLimits := hlimits }
  · rw [settled, hcoherent.2, length_merged, List.length_map]
  · intro before definition executor after hcalls
    have hfound : (calls.filterMap task?)[(before.filterMap task?).length]? =
        some (definition, executor) := by
      rw [hcalls, List.filterMap_append, List.getElem?_append_right (Nat.le_refl _)]
      simp [task?]
    have htask := hat (before.filterMap task?).length
    rw [hfound, Option.map_some] at htask
    refine ⟨(before.filterMap task?).length, _, ?_, htask, rfl⟩
    rw [describeJob_eq]
    rfl
  · intro p q task htask
    obtain ⟨own, hown, rfl⟩ := Option.map_eq_some_iff.mp ((hat p).symm.trans htask)
    rw [List.mem_append, mem_declaredFor, mem_declared_iff]
    simp [hown]
  · rw [settled, hmaxIterations, Option.or_none]
  · rw [settled, hkept]
  · rw [settled, hevery, Option.or_none]

end Definitions

/-! ## The description of a pool -/

/-- Retry policy of an operation. -/
structure RetrierConfig where
  maxAttempts : Nat
  randDelay : Nat
  delays : List Nat
deriving DecidableEq

def RetrierConfig.default : RetrierConfig where
  maxAttempts := 20
  randDelay := milliseconds 50
  delays := [50, 50, 50, 100, 300, 500, 1000, 5000, 10000, 60000].map milliseconds

structure JobCleanerConfig where
  enabled : Bool
  retrierConfig : RetrierConfig
deriving DecidableEq

/-- A cleanup gives up far sooner than a worker. -/
def JobCleanerConfig.default : JobCleanerConfig where
  enabled := true
  retrierConfig :=
    { maxAttempts := 3
      randDelay := milliseconds 50
      delays := [50, 300, 2000].map milliseconds }

inductive ObjectProvider where
  | s3
  | azure
  | gcs
deriving DecidableEq

/-- Which backend the pool persists job state to. -/
inductive StorageChoice where
  | unset
  | object (provider : ObjectProvider)
  | inMemory
deriving DecidableEq

/-- Collects jobs and pool settings. -/
structure JobsManagerBuilder where
  storage : StorageChoice
  cacheStorage : Bool
  jobs : List JobBuilder
  workerCount : Nat
  pollInterval : Option Nat
  pollJitter : Option Nat
  maxPollInterval : Option Nat
  retrierConfig : Option RetrierConfig
  cleanerConfig : JobCleanerConfig

/-- What is called to describe a pool. -/
inductive JobsManagerBuilderCall where
  | object (provider : ObjectProvider)
  | inMemory
  | noCache
  | workers (count : Nat)
  | pollInterval (interval : Nat)
  | pollJitter (jitter : Nat)
  | maxPollInterval (interval : Nat)
  | retrier (config : RetrierConfig)
  | cleaner (config : JobCleanerConfig)
  | noCleanup
  | job (id : Uuid) (code : String) (calls : List JobBuilderCall)

/-- The storage of a manager: one object backend, behind the read cache or not, or the one in
memory, which is never cached. -/
inductive ManagerStorage where
  | object (provider : ObjectProvider) (isCached : Bool)
  | inMemory
deriving DecidableEq

structure JobsManagerConfig where
  workerCount : Nat
  schedulerConfig : PollSchedulerConfig
  retrierConfig : RetrierConfig
  cleanerConfig : JobCleanerConfig

/-- Orchestrates a pool of workers that poll storage for jobs and execute their tasks. -/
structure JobsManager where
  jobRegistry : JobRegistry
  storage : ManagerStorage
  config : JobsManagerConfig

def JobsManager.new (storage : ManagerStorage) (config : JobsManagerConfig)
    (jobRegistry : JobRegistry) : Except Error JobsManager :=
  if config.workerCount = 0 then .error (.other "worker count must be at least 1")
  else .ok ⟨jobRegistry, storage, config⟩

namespace JobsManagerBuilder

def new : JobsManagerBuilder where
  storage := .unset
  cacheStorage := true
  jobs := []
  workerCount := 1
  pollInterval := none
  pollJitter := none
  maxPollInterval := none
  retrierConfig := none
  cleanerConfig := .default

def apply (builder : JobsManagerBuilder) : JobsManagerBuilderCall → JobsManagerBuilder
  | .object provider => { builder with storage := .object provider }
  | .inMemory => { builder with storage := .inMemory }
  | .noCache => { builder with cacheStorage := false }
  | .workers count => { builder with workerCount := count }
  | .pollInterval interval => { builder with pollInterval := some interval }
  | .pollJitter jitter => { builder with pollJitter := some jitter }
  | .maxPollInterval interval => { builder with maxPollInterval := some interval }
  | .retrier config => { builder with retrierConfig := some config }
  | .cleaner config => { builder with cleanerConfig := config }
  | .noCleanup =>
      { builder with cleanerConfig := { builder.cleanerConfig with enabled := false } }
  | .job id code calls => { builder with jobs := builder.jobs ++ [describeJob id code calls] }

/-- The polling settings a caller named; one nobody named keeps its default. -/
def buildPollScheduleConfig (pollInterval pollJitter maxPollInterval : Option Nat) :
    Except Error PollSchedulerConfig := do
  let config ← whereNamed pollInterval PollSchedulerConfig.withPollInterval .new
  let config ← whereNamed maxPollInterval PollSchedulerConfig.withMaxPollInterval config
  whereNamed pollJitter (fun config jitter => .ok (config.withPollJitter jitter)) config

/-- The calls that choose a backend, in a build that has every provider. -/
def describeCompiledBackends : String :=
  " or ".intercalate ["s3()", "azure()", "gcs()", "in_memory()"]

/-- Construct the chosen backend, which for an object backend reaches its container. -/
def buildStorage (reach : ObjectProvider → Except Error Unit) (choice : StorageChoice)
    (cacheStorage : Bool) : Except Error ManagerStorage :=
  match choice with
  | .unset =>
      .error (.other s!"storage backend is not configured: call {describeCompiledBackends}")
  | .object provider => do
      reach provider
      return .object provider cacheStorage
  | .inMemory => .ok .inMemory

def build (reach : ObjectProvider → Except Error Unit) (builder : JobsManagerBuilder) :
    Except Error JobsManager := do
  if builder.jobs.isEmpty then
    throw (.other "at least one job must be added")
  let jobDefs ← builder.jobs.mapM JobBuilder.buildDefinition
  let registry ← JobRegistry.new jobDefs
  let storage ← buildStorage reach builder.storage builder.cacheStorage
  let schedulerConfig ← buildPollScheduleConfig builder.pollInterval builder.pollJitter
    builder.maxPollInterval
  JobsManager.new storage
    { workerCount := builder.workerCount
      schedulerConfig := schedulerConfig
      retrierConfig := builder.retrierConfig.getD .default
      cleanerConfig := builder.cleanerConfig }
    registry

end JobsManagerBuilder

/-- The pool that the calls describe. -/
def describePool (calls : List JobsManagerBuilderCall) : JobsManagerBuilder :=
  calls.foldl JobsManagerBuilder.apply .new

/-! ### What a call says -/

namespace JobsManagerBuilderCall

def storage? : JobsManagerBuilderCall → Option StorageChoice
  | .object provider => some (.object provider)
  | .inMemory => some .inMemory
  | _ => none

def isNoCache : JobsManagerBuilderCall → Bool
  | .noCache => true
  | _ => false

def workers? : JobsManagerBuilderCall → Option Nat
  | .workers count => some count
  | _ => none

def pollInterval? : JobsManagerBuilderCall → Option Nat
  | .pollInterval interval => some interval
  | _ => none

def pollJitter? : JobsManagerBuilderCall → Option Nat
  | .pollJitter jitter => some jitter
  | _ => none

def maxPollInterval? : JobsManagerBuilderCall → Option Nat
  | .maxPollInterval interval => some interval
  | _ => none

def retrier? : JobsManagerBuilderCall → Option RetrierConfig
  | .retrier config => some config
  | _ => none

/-- The settings of the cleaner after a call: replaced as a whole, or turned off. -/
def cleanerAfter (config : JobCleanerConfig) : JobsManagerBuilderCall → JobCleanerConfig
  | .cleaner config => config
  | .noCleanup => { config with enabled := false }
  | _ => config

def job? : JobsManagerBuilderCall → Option (Uuid × String × List JobBuilderCall)
  | .job id code calls => some (id, code, calls)
  | _ => none

end JobsManagerBuilderCall

open JobsManagerBuilderCall

/-- What the builder of a pool holds after some calls. -/
theorem JobsManagerBuilder.foldl_apply (calls : List JobsManagerBuilderCall)
    (builder : JobsManagerBuilder) :
    calls.foldl JobsManagerBuilder.apply builder =
      { storage := (lastNamed storage? calls).getD builder.storage
        cacheStorage := builder.cacheStorage && !calls.any isNoCache
        jobs := builder.jobs ++ (calls.filterMap job?).map fun job =>
          describeJob job.1 job.2.1 job.2.2
        workerCount := (lastNamed workers? calls).getD builder.workerCount
        pollInterval := (lastNamed pollInterval? calls).or builder.pollInterval
        pollJitter := (lastNamed pollJitter? calls).or builder.pollJitter
        maxPollInterval := (lastNamed maxPollInterval? calls).or builder.maxPollInterval
        retrierConfig := (lastNamed retrier? calls).or builder.retrierConfig
        cleanerConfig := calls.foldl cleanerAfter builder.cleanerConfig } := by
  induction calls generalizing builder with
  | nil => simp [lastNamed]
  | cons call calls ih =>
      rw [List.foldl_cons, ih]
      cases call <;>
        simp [lastNamed_cons, List.filterMap_cons, apply, storage?, isNoCache, workers?,
          pollInterval?, pollJitter?, maxPollInterval?, retrier?, cleanerAfter, job?]

/-- What the calls describe: every setting as it was named last, and the jobs in their order. -/
theorem describePool_eq (calls : List JobsManagerBuilderCall) :
    describePool calls =
      { storage := (lastNamed storage? calls).getD .unset
        cacheStorage := !calls.any isNoCache
        jobs := (calls.filterMap job?).map fun job => describeJob job.1 job.2.1 job.2.2
        workerCount := (lastNamed workers? calls).getD 1
        pollInterval := lastNamed pollInterval? calls
        pollJitter := lastNamed pollJitter? calls
        maxPollInterval := lastNamed maxPollInterval? calls
        retrierConfig := lastNamed retrier? calls
        cleanerConfig := calls.foldl cleanerAfter .default } := by
  rw [describePool, JobsManagerBuilder.foldl_apply]
  simp [JobsManagerBuilder.new]

/-! ### Accepted polling settings -/

section PollSettings

variable {config config' : PollSchedulerConfig} {n : Nat}

/-- Polling settings are their three values. -/
theorem PollSchedulerConfig.eq_iff :
    config = config' ↔ config'.pollInterval = config.pollInterval ∧
      config'.pollJitter = config.pollJitter ∧
      config'.maxPollInterval? = config.maxPollInterval? := by
  constructor
  · rintro rfl
    exact ⟨rfl, rfl, rfl⟩
  · rintro ⟨hinterval, hjitter, hceiling⟩
    cases config
    cases config'
    cases hinterval
    cases hjitter
    cases hceiling
    rfl

theorem whereNamed_pollInterval {named : Option Nat} (hceiling : config.maxPollInterval? = none) :
    whereNamed named PollSchedulerConfig.withPollInterval config = .ok config' ↔
      (∀ n, named = some n → 0 < n ∧ n ≤ longestAcceptedPollInterval) ∧
        config'.pollInterval = named.getD config.pollInterval ∧
        config'.pollJitter = config.pollJitter ∧ config'.maxPollInterval? = none := by
  cases named with
  | none => simp [whereNamed, PollSchedulerConfig.eq_iff, hceiling]
  | some n =>
      simp only [whereNamed, PollSchedulerConfig.withPollInterval]
      split_ifs with hzero hlong hlow
      · simp [hzero]
      · simp [Nat.not_le.mpr hlong]
      · simp [hceiling] at hlow
      · simp [PollSchedulerConfig.eq_iff, hceiling, Nat.pos_of_ne_zero hzero,
          Nat.le_of_not_lt hlong]

theorem whereNamed_maxPollInterval {named : Option Nat} :
    whereNamed named PollSchedulerConfig.withMaxPollInterval config = .ok config' ↔
      (∀ n, named = some n →
        config.pollInterval ≤ n ∧ n ≤ longestAcceptedPollInterval) ∧
        config'.pollInterval = config.pollInterval ∧ config'.pollJitter = config.pollJitter ∧
        config'.maxPollInterval? = named.or config.maxPollInterval? := by
  cases named with
  | none => simp [whereNamed, PollSchedulerConfig.eq_iff]
  | some n =>
      simp only [whereNamed, PollSchedulerConfig.withMaxPollInterval]
      split_ifs with hlow hlong
      · simp [Nat.not_le.mpr hlow]
      · simp [Nat.not_le.mpr hlong]
      · simp [PollSchedulerConfig.eq_iff, Nat.le_of_not_lt hlow, Nat.le_of_not_lt hlong]

theorem whereNamed_pollJitter {named : Option Nat} :
    whereNamed named (fun config jitter => .ok (config.withPollJitter jitter)) config =
        .ok config' ↔
      config'.pollInterval = config.pollInterval ∧
        config'.pollJitter = named.getD config.pollJitter ∧
        config'.maxPollInterval? = config.maxPollInterval? := by
  cases named with
  | none => simp [whereNamed, PollSchedulerConfig.eq_iff]
  | some n => simp [whereNamed, PollSchedulerConfig.eq_iff, PollSchedulerConfig.withPollJitter]

end PollSettings

/-- What the polling settings somebody named have to agree on. -/
structure AcceptablePolling (interval ceiling : Option Nat) : Prop where
  positive : ∀ n, interval = some n → 0 < n ∧ n ≤ longestAcceptedPollInterval
  above : ∀ n, ceiling = some n →
    interval.getD PollSchedulerConfig.new.pollInterval ≤ n ∧ n ≤ longestAcceptedPollInterval

/-- The interval that is named, or the default of it, is in its bounds. -/
theorem AcceptablePolling.base_bounds {interval ceiling : Option Nat}
    (h : AcceptablePolling interval ceiling) :
    0 < interval.getD PollSchedulerConfig.new.pollInterval ∧
      interval.getD PollSchedulerConfig.new.pollInterval ≤ longestAcceptedPollInterval := by
  cases interval with
  | none => decide
  | some n => exact h.positive n rfl

/-- What building the polling settings asks for and gives. -/
theorem buildPollScheduleConfig_eq_ok {interval jitter ceiling : Option Nat}
    {config : PollSchedulerConfig} :
    JobsManagerBuilder.buildPollScheduleConfig interval jitter ceiling = .ok config ↔
      AcceptablePolling interval ceiling ∧
        config.pollInterval = interval.getD PollSchedulerConfig.new.pollInterval ∧
        config.pollJitter = jitter.getD PollSchedulerConfig.new.pollJitter ∧
        config.maxPollInterval? = ceiling := by
  have hunset : PollSchedulerConfig.new.maxPollInterval? = none := rfl
  unfold JobsManagerBuilder.buildPollScheduleConfig
  simp only [bind_eq_ok, whereNamed_pollInterval hunset, whereNamed_maxPollInterval,
    whereNamed_pollJitter]
  constructor
  · rintro ⟨c₁, ⟨hpositive, hinterval₁, hjitter₁, hceiling₁⟩, c₂,
      ⟨habove, hinterval₂, hjitter₂, hceiling₂⟩, hinterval, hjitter, hceiling⟩
    rw [hinterval₁] at habove hinterval₂
    rw [hjitter₁] at hjitter₂
    rw [hceiling₁, Option.or_none] at hceiling₂
    exact ⟨⟨hpositive, habove⟩, hinterval.trans hinterval₂, hjitter₂ ▸ hjitter,
      hceiling.trans hceiling₂⟩
  · rintro ⟨hnamed, hinterval, hjitter, hceiling⟩
    obtain ⟨hpos, hle⟩ := hnamed.base_bounds
    exact ⟨⟨_, PollSchedulerConfig.new.pollJitter, none, hpos, hle, by simp⟩,
      ⟨hnamed.positive, rfl, rfl, rfl⟩,
      ⟨_, PollSchedulerConfig.new.pollJitter, ceiling, hpos, hle, hnamed.above⟩,
      ⟨hnamed.above, rfl, rfl, Option.or_none.symm⟩, hinterval, hjitter, hceiling⟩

theorem exists_buildPollScheduleConfig {interval ceiling : Option Nat} (jitter : Option Nat)
    (h : AcceptablePolling interval ceiling) :
    ∃ config, JobsManagerBuilder.buildPollScheduleConfig interval jitter ceiling = .ok config := by
  obtain ⟨hpos, hle⟩ := h.base_bounds
  exact ⟨⟨_, _, _, hpos, hle, h.above⟩, buildPollScheduleConfig_eq_ok.mpr ⟨h, rfl, rfl, rfl⟩⟩

/-! ### Accepted registries -/

namespace JobRegistry

variable {registry registry' : JobRegistry} {jobs : List JobDefinition} {jobDef : JobDefinition}

/-- A definition is registered under a name that is new and not empty. -/
theorem exists_register_iff :
    (∃ registry', registry.register jobDef = .ok registry') ↔
      jobDef.code ≠ "" ∧ jobDef.code ∉ registry.listJobs := by
  have hlisted : (registry.jobsByCode.get jobDef.code).isSome = true ↔
      jobDef.code ∈ registry.listJobs := by
    rw [listJobs, KeyedMap.mem_keys_iff, Option.isSome_iff_exists]
  unfold register
  split_ifs with hempty hdup
  · simp [hempty]
  · simp [hlisted.mp hdup]
  · simp [hempty, mt hlisted.mpr hdup]

/-- Several are where their names differ as well. -/
theorem exists_foldlM_register_iff (registry : JobRegistry) (jobs : List JobDefinition) :
    (∃ registry', jobs.foldlM register registry = .ok registry') ↔
      (∀ d ∈ jobs, d.code ≠ "") ∧ (jobs.map JobDefinition.code).Nodup ∧
        ∀ d ∈ jobs, d.code ∉ registry.listJobs := by
  induction jobs generalizing registry with
  | nil => simp [pure, Except.pure]
  | cons first jobs ih =>
      simp only [List.foldlM_cons, bind_eq_ok, List.forall_mem_cons, List.map_cons,
        List.nodup_cons]
      constructor
      · rintro ⟨registry', registry₁, hregister, hrest⟩
        obtain ⟨hempty, hfresh⟩ := exists_register_iff.mp ⟨_, hregister⟩
        obtain ⟨hempties, hnodup, hfreshes⟩ := (ih registry₁).mp ⟨_, hrest⟩
        have hlisted := mem_listJobs_register hregister
        refine ⟨⟨hempty, hempties⟩, ⟨?_, hnodup⟩, hfresh, fun d hd hold => ?_⟩
        · intro hmem
          obtain ⟨d, hd, hcode⟩ := List.mem_map.mp hmem
          exact hfreshes d hd ((hlisted _).mpr (Or.inl hcode))
        · exact hfreshes d hd ((hlisted _).mpr (Or.inr hold))
      · rintro ⟨⟨hempty, hempties⟩, ⟨hnew, hnodup⟩, hfresh, hfreshes⟩
        obtain ⟨registry₁, hregister⟩ := exists_register_iff.mpr ⟨hempty, hfresh⟩
        have hlisted := mem_listJobs_register hregister
        obtain ⟨registry', hrest⟩ := (ih registry₁).mpr ⟨hempties, hnodup, fun d hd hmem => by
          rcases (hlisted _).mp hmem with hsame | hold
          · exact hnew (List.mem_map.mpr ⟨d, hd, hsame⟩)
          · exact hfreshes d hd hold⟩
        exact ⟨registry', registry₁, hregister, hrest⟩

/-- Definitions are registered together where there are some, and their codes are distinct and
none is empty. -/
theorem exists_new_iff :
    (∃ registry, new jobs = .ok registry) ↔
      jobs ≠ [] ∧ (∀ d ∈ jobs, d.code ≠ "") ∧ (jobs.map JobDefinition.code).Nodup := by
  unfold new
  split_ifs with hempty
  · simp [List.isEmpty_iff.mp hempty]
  · rw [exists_foldlM_register_iff]
    simp [mt List.isEmpty_iff.mpr hempty, listJobs, empty, KeyedMap.keys, KeyedMap.empty]

/-- A registry answers with the definitions it was built of. -/
theorem getJob_new (h : new jobs = .ok registry) {code : String} :
    registry.getJob code = .ok jobDef ↔ jobDef ∈ jobs ∧ jobDef.code = code := by
  have hget : registry.getJob code = .ok jobDef ↔
      registry.jobsByCode.get code = some jobDef := by
    unfold getJob
    cases registry.jobsByCode.get code <;> simp
  rw [hget]
  constructor
  · intro hsome
    exact ⟨mem_of_get_new h hsome, KeyedMap.key_of_get hsome⟩
  · rintro ⟨hmem, rfl⟩
    have hlisted := (listJobs_new h jobDef.code).mpr (List.mem_map_of_mem hmem)
    obtain ⟨d, hd⟩ := KeyedMap.mem_keys_iff.mp hlisted
    have hnodup := (exists_new_iff.mp ⟨_, h⟩).2.2
    rw [hd, List.inj_on_of_nodup_map hnodup (mem_of_get_new h hd) hmem (KeyedMap.key_of_get hd)]

end JobRegistry

/-! ### Accepted descriptions of a pool -/

/-- What the calls that describe a pool have to agree on, and the container of the backend they
choose. -/
structure AcceptablePool (reach : ObjectProvider → Except Error Unit)
    (calls : List JobsManagerBuilderCall) : Prop where
  nonempty : calls.filterMap job? ≠ []
  described : ∀ id code jobCalls, .job id code jobCalls ∈ calls →
    code ≠ "" ∧ AcceptableJob id jobCalls
  distinct : ((calls.filterMap job?).map fun job => job.2.1).Nodup
  storage : lastNamed storage? calls = some .inMemory ∨
    ∃ provider, lastNamed storage? calls = some (.object provider) ∧ reach provider = .ok ()
  workers : ∀ n, lastNamed workers? calls = some n → n ≠ 0
  polling : AcceptablePolling (lastNamed pollInterval? calls) (lastNamed maxPollInterval? calls)

section Pools

variable {reach : ObjectProvider → Except Error Unit} {calls : List JobsManagerBuilderCall}
  {manager : JobsManager}

theorem mem_jobs_iff {id : Uuid} {code : String} {jobCalls : List JobBuilderCall} :
    (id, code, jobCalls) ∈ calls.filterMap job? ↔ .job id code jobCalls ∈ calls := by
  rw [List.mem_filterMap]
  constructor
  · rintro ⟨call, hcall, hjob⟩
    cases call <;> cases hjob
    exact hcall
  · exact fun hcall => ⟨_, hcall, rfl⟩

/-- The storage a manager works on, by what was chosen last. -/
theorem buildStorage_eq_ok {cached : Bool} {storage : ManagerStorage} :
    JobsManagerBuilder.buildStorage reach ((lastNamed storage? calls).getD .unset) cached =
        .ok storage ↔
      (lastNamed storage? calls = some .inMemory ∧ storage = .inMemory) ∨
      ∃ provider, lastNamed storage? calls = some (.object provider) ∧
        reach provider = .ok () ∧ storage = .object provider cached := by
  cases lastNamed storage? calls with
  | none => simp [JobsManagerBuilder.buildStorage]
  | some choice =>
      cases choice with
      | unset => simp [JobsManagerBuilder.buildStorage]
      | inMemory => simp [JobsManagerBuilder.buildStorage, eq_comm]
      | object provider =>
          simp only [Option.getD_some, JobsManagerBuilder.buildStorage, bind_eq_ok]
          constructor
          · rintro ⟨⟨⟩, hreach, hstorage⟩
            cases hstorage
            exact Or.inr ⟨provider, rfl, hreach, rfl⟩
          · rintro (⟨hchoice, -⟩ | ⟨provider', hchoice, hreach, rfl⟩)
            · cases hchoice
            · cases hchoice
              exact ⟨(), hreach, rfl⟩

/-- What a description is built to: the definitions of its jobs in a registry, its storage and
its settings. -/
theorem build_eq_ok :
    (describePool calls).build reach = .ok manager ↔
      calls.filterMap job? ≠ [] ∧ ∃ jobDefs,
        List.Forall₂ (fun job d => (describeJob job.1 job.2.1 job.2.2).buildDefinition = .ok d)
          (calls.filterMap job?) jobDefs ∧
        JobRegistry.new jobDefs = .ok manager.jobRegistry ∧
        JobsManagerBuilder.buildStorage reach ((lastNamed storage? calls).getD .unset)
          (!calls.any isNoCache) = .ok manager.storage ∧
        JobsManagerBuilder.buildPollScheduleConfig (lastNamed pollInterval? calls)
          (lastNamed pollJitter? calls) (lastNamed maxPollInterval? calls) =
            .ok manager.config.schedulerConfig ∧
        manager.config.workerCount ≠ 0 ∧
        manager.config.workerCount = (lastNamed workers? calls).getD 1 ∧
        manager.config.retrierConfig = (lastNamed retrier? calls).getD .default ∧
        manager.config.cleanerConfig = calls.foldl cleanerAfter .default := by
  have hnew : ∀ {storage config registry}, JobsManager.new storage config registry = .ok manager ↔
      config.workerCount ≠ 0 ∧ JobsManager.mk registry storage config = manager := by
    intro storage config registry
    unfold JobsManager.new
    split_ifs with hzero <;> simp [hzero]
  rw [describePool_eq, JobsManagerBuilder.build]
  split_ifs with hempty
  · have hnone : calls.filterMap job? = [] := by
      rw [List.isEmpty_iff, List.map_eq_nil_iff] at hempty
      exact hempty
    constructor
    · intro h
      cases h
    · exact fun h => absurd hnone h.1
  · have hsome : calls.filterMap job? ≠ [] := by
      rw [List.isEmpty_iff, List.map_eq_nil_iff] at hempty
      exact hempty
    simp only [bind_eq_ok, mapM_eq_ok, List.forall₂_map_left_iff, hnew]
    constructor
    · rintro ⟨jobDefs, hdefs, registry, hregistry, storage, hstorage, config, hconfig, hpos,
        rfl⟩
      exact ⟨hsome, jobDefs, hdefs, hregistry, hstorage, hconfig, hpos, rfl, rfl, rfl⟩
    · rintro ⟨-, jobDefs, hdefs, hregistry, hstorage, hconfig, hpos, hworkers, hretrier, hcleaner⟩
      refine ⟨jobDefs, hdefs, _, hregistry, _, hstorage, _, hconfig, hworkers ▸ hpos, ?_⟩
      rw [← hworkers, ← hretrier, ← hcleaner]

/-- The definitions built have the codes of the jobs described. -/
theorem codes_of_built {jobs : List (Uuid × String × List JobBuilderCall)}
    {jobDefs : List JobDefinition}
    (h : List.Forall₂
      (fun job d => (describeJob job.1 job.2.1 job.2.2).buildDefinition = .ok d) jobs jobDefs) :
    jobDefs.map JobDefinition.code = jobs.map fun job => job.2.1 := by
  induction h with
  | nil => rfl
  | cons hbuilt _ ih =>
      rw [List.map_cons, List.map_cons, ih, (buildDefinition_described hbuilt).named]

theorem exists_forall₂ {α β : Type} {R : α → β → Prop} {as : List α}
    (h : ∀ a ∈ as, ∃ b, R a b) : ∃ bs, List.Forall₂ R as bs := by
  induction as with
  | nil => exact ⟨[], .nil⟩
  | cons a as ih =>
      rw [List.forall_mem_cons] at h
      obtain ⟨⟨b, hab⟩, hrest⟩ := h
      obtain ⟨bs, hbs⟩ := ih hrest
      exact ⟨b :: bs, .cons hab hbs⟩

/-- In two lists that correspond, every element has its counterpart. -/
theorem mem_of_forall₂ {α β : Type} {R : α → β → Prop} {as : List α} {bs : List β}
    (h : List.Forall₂ R as bs) :
    (∀ a ∈ as, ∃ b ∈ bs, R a b) ∧ ∀ b ∈ bs, ∃ a ∈ as, R a b := by
  induction h with
  | nil => simp
  | cons hab _ ih =>
      simp only [List.forall_mem_cons, List.exists_mem_cons_iff]
      exact ⟨⟨Or.inl hab, fun a ha => Or.inr (ih.1 a ha)⟩,
        Or.inl hab, fun b hb => Or.inr (ih.2 b hb)⟩

/-- Which descriptions of a pool are accepted, whatever is called in whatever order: there is a
job, every job has a name of its own and is described coherently, the storage chosen last is
reached, and the settings named last are within their bounds. -/
theorem manager_built_exact (reach : ObjectProvider → Except Error Unit)
    (calls : List JobsManagerBuilderCall) :
    (∃ manager, (describePool calls).build reach = .ok manager) ↔ AcceptablePool reach calls := by
  simp only [build_eq_ok]
  constructor
  · rintro ⟨manager, hne, jobDefs, hdefs, hregistry, hstorage, hpolling, hpos, hworkers, -, -⟩
    obtain ⟨-, hempty, hnodup⟩ := JobRegistry.exists_new_iff.mp ⟨_, hregistry⟩
    have hcodes := codes_of_built hdefs
    refine
      { nonempty := hne
        described := fun id code jobCalls hcall => ?_
        distinct := hcodes ▸ hnodup
        storage := ?_
        workers := fun n hn => ?_
        polling := (buildPollScheduleConfig_eq_ok.mp hpolling).1 }
    · obtain ⟨d, hd, hbuilt⟩ := (mem_of_forall₂ hdefs).1 _ (mem_jobs_iff.mpr hcall)
      refine ⟨?_, exists_buildDefinition_iff.mp ⟨d, hbuilt⟩⟩
      have hnamed : d.code = code := (buildDefinition_described hbuilt).named
      exact hnamed ▸ hempty d hd
    · rcases buildStorage_eq_ok.mp hstorage with ⟨hchoice, -⟩ | ⟨provider, hchoice, hreach, -⟩
      · exact Or.inl hchoice
      · exact Or.inr ⟨provider, hchoice, hreach⟩
    · rw [hworkers, hn] at hpos
      exact hpos
  · intro h
    have hbuildable : ∀ job ∈ calls.filterMap job?,
        ∃ d, (describeJob job.1 job.2.1 job.2.2).buildDefinition = .ok d := fun job hjob =>
      exists_buildDefinition_iff.mpr (h.described job.1 job.2.1 job.2.2 (mem_jobs_iff.mp hjob)).2
    obtain ⟨jobDefs, hdefs⟩ := exists_forall₂ hbuildable
    have hregistered : jobDefs ≠ [] ∧ (∀ d ∈ jobDefs, d.code ≠ "") ∧
        (jobDefs.map JobDefinition.code).Nodup := by
      refine ⟨?_, fun d hd => ?_, codes_of_built hdefs ▸ h.distinct⟩
      · rintro rfl
        exact h.nonempty (List.forall₂_nil_right_iff.mp hdefs)
      · obtain ⟨job, hjob, hbuilt⟩ := (mem_of_forall₂ hdefs).2 d hd
        rw [(buildDefinition_described hbuilt).named]
        exact (h.described job.1 job.2.1 job.2.2 (mem_jobs_iff.mp hjob)).1
    obtain ⟨registry, hregistry⟩ := JobRegistry.exists_new_iff.mpr hregistered
    obtain ⟨storage, hstorage⟩ : ∃ storage, JobsManagerBuilder.buildStorage reach
        ((lastNamed storage? calls).getD .unset) (!calls.any isNoCache) = .ok storage := by
      rcases h.storage with hchoice | ⟨provider, hchoice, hreach⟩
      · exact ⟨_, buildStorage_eq_ok.mpr (Or.inl ⟨hchoice, rfl⟩)⟩
      · exact ⟨_, buildStorage_eq_ok.mpr (Or.inr ⟨provider, hchoice, hreach, rfl⟩)⟩
    obtain ⟨config, hconfig⟩ :=
      exists_buildPollScheduleConfig (lastNamed pollJitter? calls) h.polling
    refine ⟨⟨registry, storage, ⟨_, config, _, _⟩⟩, h.nonempty, jobDefs, hdefs, hregistry,
      hstorage, hconfig, ?_, rfl, rfl, rfl⟩
    cases hnamed : lastNamed workers? calls with
    | none => exact Nat.one_ne_zero
    | some n => exact h.workers n hnamed

/-- What a manager runs is what was described.  It knows exactly the jobs described, each as its
calls describe it; it works on the storage chosen last, behind the read cache unless somebody
turned that off for an object backend; and its settings are those named last, with defaults for
the rest. -/
theorem built_manager_described (h : (describePool calls).build reach = .ok manager) :
    (∀ id code jobCalls, .job id code jobCalls ∈ calls →
      ∃ d, manager.jobRegistry.getJob code = .ok d ∧ Described id code jobCalls d) ∧
    (∀ code d, manager.jobRegistry.getJob code = .ok d →
      ∃ id jobCalls, .job id code jobCalls ∈ calls ∧ Described id code jobCalls d) ∧
    ((lastNamed storage? calls = some .inMemory ∧ manager.storage = .inMemory) ∨
      ∃ provider, lastNamed storage? calls = some (.object provider) ∧ reach provider = .ok () ∧
        manager.storage = .object provider (!calls.any isNoCache)) ∧
    manager.config.workerCount = (lastNamed workers? calls).getD 1 ∧
    manager.config.schedulerConfig.pollInterval =
      (lastNamed pollInterval? calls).getD PollSchedulerConfig.new.pollInterval ∧
    manager.config.schedulerConfig.pollJitter =
      (lastNamed pollJitter? calls).getD PollSchedulerConfig.new.pollJitter ∧
    manager.config.schedulerConfig.maxPollInterval? = lastNamed maxPollInterval? calls ∧
    manager.config.retrierConfig = (lastNamed retrier? calls).getD .default ∧
    manager.config.cleanerConfig = calls.foldl cleanerAfter .default := by
  obtain ⟨-, jobDefs, hdefs, hregistry, hstorage, hpolling, -, hworkers, hretrier, hcleaner⟩ :=
    build_eq_ok.mp h
  obtain ⟨-, hinterval, hjitter, hceiling⟩ := buildPollScheduleConfig_eq_ok.mp hpolling
  refine ⟨fun id code jobCalls hcall => ?_, fun code d hget => ?_,
    buildStorage_eq_ok.mp hstorage, hworkers, hinterval, hjitter, hceiling, hretrier, hcleaner⟩
  · obtain ⟨d, hd, hbuilt⟩ := (mem_of_forall₂ hdefs).1 _ (mem_jobs_iff.mpr hcall)
    have hdescribed := buildDefinition_described hbuilt
    exact ⟨d, (JobRegistry.getJob_new hregistry).mpr ⟨hd, hdescribed.named⟩, hdescribed⟩
  · obtain ⟨hd, rfl⟩ := (JobRegistry.getJob_new hregistry).mp hget
    obtain ⟨⟨id, code, jobCalls⟩, hjob, hbuilt⟩ := (mem_of_forall₂ hdefs).2 d hd
    have hdescribed := buildDefinition_described hbuilt
    rw [hdescribed.named]
    exact ⟨id, jobCalls, mem_jobs_iff.mp hjob, hdescribed⟩

end Pools

/-- Two tasks in a chain, described around settings that are named twice and in any order. -/
def chainedPool : List JobsManagerBuilderCall :=
  [.noCache, .inMemory, .workers 4,
    .job 7 "job" [.addTask (.new "first" (milliseconds 1000)) 1,
      .addTask (.new "second" (milliseconds 1000)) 2, .maxIterations 3,
      .chain [.initial 7 0, .initial 7 1]],
    .workers 2, .object .s3]

/-- The second task of the built job waits for the first, and the pool works on the store chosen
last, without a cache. -/
theorem chainedPool_described :
    ∃ (manager : JobsManager) (d : JobDefinition),
      (describePool chainedPool).build (fun _ => .ok ()) = .ok manager ∧
      manager.jobRegistry.getJob "job" = .ok d ∧
      (∃ task, d.initialTasks[1]? = some task ∧ .initial 7 0 ∈ task.dependsOn) ∧
      manager.storage = .object .s3 false ∧ manager.config.workerCount = 2 := by
  have hbuilt : ((describePool chainedPool).build fun _ => .ok ()).toOption.isSome = true := by
    decide +kernel
  obtain ⟨manager, hmanager⟩ := Option.isSome_iff_exists.mp hbuilt
  have hmanager := toOption_eq_some.mp hmanager
  obtain ⟨hdescribed, -, hstorage, hworkers, -⟩ := built_manager_described hmanager
  obtain ⟨d, hd, hjob⟩ := hdescribed 7 "job" _ (by simp [chainedPool]; rfl)
  refine ⟨manager, d, hmanager, hd, ?_, ?_, hworkers⟩
  · obtain ⟨p, task, hp, htask, -⟩ := hjob.references
      [.addTask (.new "first" (milliseconds 1000)) 1] _ _ _ rfl
    cases hp
    exact ⟨task, htask, (hjob.waits 1 0 task htask).mpr
      (Or.inr (Or.inr ⟨_, by simp, List.infix_refl _⟩))⟩
  · rcases hstorage with ⟨hchoice, -⟩ | ⟨provider, hchoice, -, hstorage⟩
    · cases hchoice
    · cases hchoice
      exact hstorage

end JobManager
