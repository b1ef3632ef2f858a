import JobManager.Protocol.Copies

/-!
# When the dependency order is respected

A task is released once every dependency has settled in a way it accepts.  A worker's
own copy keeps that order, and so does everything derived from it.  A merge puts two
copies together: a start is laid over a state that may have settled the task's
dependencies another way, and a result carries tasks the copy released, and entries
other tasks were released on, over such a state.  Where it does neither, the order holds
in every stored version.

Main results:

- Theorem {lit}`order_violated`: a run of two workers that stores a running task over a
  dependency it does not accept.
- Theorem {lit}`dependency_order_respected`: the order holds in every version along runs
  whose merges fit the state they meet.
-/

namespace JobManager

/-- Whether a task was released: it waits for nothing any more and was not put out. -/
def Task.isReleased (t : Task) : Bool := !t.isBlocked && !t.isSkipped

/-- Every released task has every dependency settled in a way it accepts. -/
def RespectsOrder (now : Nat) (m : TaskMap) : Prop :=
  ∀ id t, m.get id = some t → t.isReleased = true → Satisfied m t now

/-- A task is released unless it is blocked or skipped. -/
theorem Task.isReleased_eq_true {t : Task} :
    t.isReleased = true ↔ t.status ≠ .blocked ∧ ∀ cause, t.status ≠ .skipped cause := by
  unfold isReleased isBlocked isSkipped skipCause
  cases t.status <;> simp

/-! ## The condition -/

/-- Whether every released task a merge carries over accepts, as they are stored, the
dependencies the merge does not carry. -/
def Job.carriesAccepted (saved job : Job) (w : Uuid) (now : Nat) : Bool :=
  job.tasks.all fun t => !isCarried saved.tasksById w t || !t.isReleased ||
    t.dependsOn.all fun d => saved.carries job w d ||
      (saved.task? d).any fun dep => t.judgeDependency dep now = .unblocked

/-- Whether no released task waits for the given one. -/
def Job.noneReleasedOn (saved : Job) (taskId : Uuid) : Bool :=
  saved.tasks.all fun t => !t.isReleased || taskId ∉ t.dependsOn

/-- A merge that goes through fits the state it meets.  Carrying a result, it changes how no
stored task has settled and lays no released task over a dependency that one does not
accept; repeating a start, it lays no running task over a dependency that one will not
accept, nor under a task released on it. -/
def MergesInOrder (s : System) : Action → Prop
  | .move w (.merge first second) =>
      match (s.workers w).phase with
      | .merging job saved (.result taskId) =>
          saved.acceptsResult job w taskId = true →
            saved.keepsSettlements job w second = true ∧
              saved.carriesAccepted job w second = true
      | .merging job saved (.start taskId) =>
          saved.acceptsStart job w taskId = true →
            saved.noneReleasedOn taskId = true ∧
              ∀ t, job.task? taskId = some t → ∀ d ∈ t.dependsOn,
                AcceptedIn saved.tasksById first second t d
      | _ => True
  | _ => True

/-! ## The order is a law -/

/-- A verdict that accepts a dependency stands at every later reading. -/
theorem RespectsOrder.mono {now later : Nat} {m : TaskMap} (hle : now ≤ later)
    (h : RespectsOrder now m) : RespectsOrder later m := by
  intro id t ht hreleased d hd
  obtain ⟨dep, hdep, hjudge⟩ := h id t ht hreleased d hd
  exact ⟨dep, hdep, Task.judgeDependency_unblocked_mono hle hjudge⟩

/-- Every step of a copy whose dependencies stay within it respects the order. -/
theorem RespectsOrder.step {w : Uuid} {now : Nat} {m m' : TaskMap} {touch : Touch}
    (hstep : LocalStep w now m touch m') (hclosed : DependenciesClosed m')
    (h : RespectsOrder now m) : RespectsOrder now m' := by
  intro id t' ht' hreleased d hd
  rcases hstep.predecessor ht' with ⟨t, ht, hmove⟩ | ⟨_, _, resolved, -, -, -, rfl⟩
  · have hkin : Kin t t' := by
      rcases hmove with rfl | hmove
      · exact Kin.refl _
      · exact hmove.kin
    have hbefore : Satisfied m t now := by
      by_cases hblocked : t.status = .blocked
      · rw [Task.isReleased_eq_true] at hreleased
        rcases hstep.leaves_blocked ht hblocked ht' with rfl | ⟨-, hsat⟩ | ⟨_, _, rfl, -⟩
        · exact absurd hblocked hreleased.1
        · exact hsat
        · exact absurd rfl (hreleased.2 _)
      · refine h id t ht (Task.isReleased_eq_true.mpr ⟨hblocked, ?_⟩)
        -- a skipped task makes no move
        rcases hmove with rfl | hmove
        · exact (Task.isReleased_eq_true.mp hreleased).2
        · exact hmove.unsettled.2.2
    obtain ⟨dep, hdep, hjudge⟩ := hbefore d (hkin.dependsOn ▸ hd)
    refine ⟨dep, hstep.settled_stays hclosed ht' hd hdep (t := t) (by simp [hjudge]), ?_⟩
    rw [judgeDependency_of_kin hkin, hjudge]
  · -- a task just created is released only if it waits for nothing
    have hnone : resolved = [] := by
      rw [Task.isReleased_eq_true] at hreleased
      by_contra hne
      simp [Task.new, hne] at hreleased
    subst hnone
    cases hd

/-- The order survives being stored and restored. -/
theorem RespectsOrder.restore {now : Nat} {job : Job} (h : RespectsOrder now job.tasksById) :
    RespectsOrder now (StoredJob.fromJob job).taskMap := by
  intro id t ht hreleased d hd
  rw [get_taskMap_fromJob, Option.map_eq_some_iff] at ht
  obtain ⟨t₀, ht₀, rfl⟩ := ht
  obtain ⟨dep, hdep, hjudge⟩ := h id t₀ ht₀ hreleased d hd
  refine ⟨dep.persisted, ?_, hjudge⟩
  rw [get_taskMap_fromJob, show job.task? d = some dep from hdep]
  rfl

/-- A planned iteration respects the order: what it releases waits for nothing. -/
theorem respectsOrder_of_planned {jobDef : JobDefinition} {w : Uuid} {ids : List Uuid} {job : Job}
    (now : Nat) (h : job.Planned jobDef w ids) : RespectsOrder now job.tasksById := by
  intro id t ht hreleased d hd
  obtain ⟨p, taskDef, resolved, -, -, -, hnew⟩ := h.planned id t ht
  rw [hnew] at hd
  rw [hnew, Task.isReleased_eq_true] at hreleased
  have hnone : resolved = [] := by
    by_contra hne
    simp [Task.new, hne] at hreleased
  subst hnone
  cases hd

/-- No released task waits for one that none is released on. -/
theorem Job.not_mem_of_noneReleasedOn {saved : Job} {taskId id : Uuid} {t : Task}
    (h : saved.noneReleasedOn taskId = true) (ht : saved.task? id = some t)
    (hreleased : t.isReleased = true) : taskId ∉ t.dependsOn := by
  rw [noneReleasedOn, List.all_eq_true] at h
  simpa [hreleased] using h t (mem_tasks_of_task? ht)

/-- A start laid over a state that accepts it keeps the order. -/
theorem RespectsOrder.insert {m : TaskMap} {saved : Job} {t : Task}
    {first second : Nat} (hle : first ≤ second) (hderived : Derived first second saved.tasksById m)
    (hdone : ∀ id t, m.get id = some t → t.status = .blocked →
      ∀ cause, ¬ UnreachableFor m t second cause)
    (hself : t.id ∉ t.dependsOn) (hnone : saved.noneReleasedOn t.id = true)
    (haccepted : ∀ d ∈ t.dependsOn, AcceptedIn saved.tasksById first second t d)
    (h : RespectsOrder second m) : RespectsOrder second (m.insert t) := by
  intro id u hu hreleased d hd
  rcases get_insert_cases m t id with ⟨-, hget⟩ | ⟨-, hget⟩
  · rw [hget] at hu
    cases hu
    have hne : t.id ≠ d := fun heq => hself (heq ▸ hd)
    rw [KeyedMap.get_insert_of_ne m hne]
    exact hderived.judged_unblocked hle hdone (haccepted d hd)
  · rw [hget] at hu
    -- what is released now was released in the stored state, and does not wait for the task
    have hne : t.id ≠ d := by
      intro heq
      have hskipped := (Task.isReleased_eq_true.mp hreleased).2
      rcases hderived.origin hu hskipped with hsaved | ⟨u₀, hsaved, hs, -, rfl⟩
      · exact Job.not_mem_of_noneReleasedOn hnone hsaved hreleased (heq ▸ hd)
      · exact Job.not_mem_of_noneReleasedOn hnone hsaved
          (Task.isReleased_eq_true.mpr (by simp [hs])) (heq ▸ hd)
    rw [KeyedMap.get_insert_of_ne m hne]
    exact h id u hu hreleased d hd

/-- A result carried over a state that it fits keeps the order. -/
theorem RespectsOrder.carry {saved job : Job} {w : Uuid} {now : Nat}
    (hkeeps : saved.keepsSettlements job w now = true)
    (haccepted : saved.carriesAccepted job w now = true)
    (hsaved : RespectsOrder now saved.tasksById)
    (hjob : RespectsOrder now job.tasksById) :
    RespectsOrder now (saved.carryTasks job w).tasksById := by
  intro id t ht hreleased d hd
  rcases carry_cases ht with ⟨ht', hcarried⟩ | ⟨ht', -⟩
  · -- a carried task finds its dependency carried with it, or accepts the stored one
    obtain ⟨dep, hdep, hjudge⟩ := hjob id t ht' hreleased d hd
    have hget := Job.get_carryTasks saved job w d
    rw [show job.task? d = some dep from hdep] at hget
    dsimp only at hget
    split at hget <;> rename_i hcarriedDep
    · exact ⟨dep, hget, hjudge⟩
    · rw [Job.carriesAccepted, List.all_eq_true] at haccepted
      have hall := haccepted t (Job.mem_tasks_of_task? ht')
      rw [hcarried, hreleased, Bool.not_true, Bool.false_or, Bool.false_or,
        List.all_eq_true] at hall
      have hstored := hall d hd
      rw [Job.carries, show job.task? d = some dep from hdep, Option.any_some, Bool.or_eq_true,
        Option.any_eq_true] at hstored
      rcases hstored with hyes | ⟨stored, hstored, hunblocked⟩
      · exact absurd hyes hcarriedDep
      · exact ⟨stored, hget.trans hstored, by simpa using hunblocked⟩
  · obtain ⟨dep, hdep, hjudge⟩ := hsaved id t ht' hreleased d hd
    obtain ⟨dep', hdep'⟩ := carry_of_saved job w (show saved.task? d = some dep from hdep)
    refine ⟨dep', hdep', ?_⟩
    rw [Task.judgeDependency_unblocked_iff] at hjudge ⊢
    have hsettled : dep.settlementAt now ≠ none := by
      rcases hjudge with hs | ⟨-, hs⟩ | ⟨-, hs⟩ <;> simp [hs]
    rw [Job.settlement_of_keepsSettlements hkeeps hdep hdep' hsettled]
    exact hjudge

/-- The order is a law of the copies, given merges in order. -/
theorem respectsOrder_law (jobDef : JobDefinition) :
    CopyLaw jobDef MergesInOrder RespectsOrder where
  mono _ _ _ hle h := h.mono hle
  step _ _ _ _ _ hstep _ hclosed h := h.step hstep hclosed
  restore _ _ h := h.restore
  plan _ _ _ now h := respectsOrder_of_planned now h
  mergeStart := by
    intro g s w taskId job saved workerTask m first second hinv hphase hadmits haccepts hle
      hworker _ hderived hdone _ h
    rw [MergesInOrder, hphase] at hadmits
    obtain ⟨hnone, haccepted⟩ := hadmits haccepts
    have hok := hinv.workers w
    rw [hphase] at hok
    have hid : workerTask.id = taskId := Job.id_of_task? hworker
    subst hid
    refine RespectsOrder.insert hle hderived hdone ?_ hnone (haccepted workerTask hworker) h
    intro hself
    exact Nat.lt_irrefl _ (hok.1.fits.ranked hinv.ranked _ workerTask hworker _ hself)
  mergeResult := by
    intro g s w taskId job saved first now _ hphase hadmits haccepts _ hsaved hjob
    rw [MergesInOrder, hphase] at hadmits
    obtain ⟨hkeeps, haccepted⟩ := hadmits haccepts
    exact RespectsOrder.carry hkeeps haccepted hsaved hjob

/-- A merge in order changes how no stored task has settled. -/
theorem agreesOn_of_mergesInOrder {s : System} {a : Action} (h : MergesInOrder s a) :
    conclusions.AgreesOn s a := by
  refine agreesOn_of_keepsSettlements ?_
  rintro w taskId first second job saved rfl hphase haccepts
  rw [MergesInOrder, hphase] at h
  exact (h haccepts).1

/-- Along any run whose merges fit the state they meet, every stored version respects the
dependency order at the moment it is written. -/
theorem dependency_order_respected {jobDef : JobDefinition} (hdef : jobDef.Accepted) {s : System}
    (h : ReachableUnder (step .shared jobDef) MergesInOrder System.init s) :
    ∀ e ∈ s.history, RespectsOrder e.writtenAt e.tasks :=
  stored_of_law hdef.wellFormed (respectsOrder_law jobDef)
    (fun _ _ => agreesOn_of_mergesInOrder) h

/-- A gate with a short lifetime, a task that waits for it and tolerates its failure, and
a task that waits for nothing. -/
def gateDefinition : JobDefinition where
  code := "gate"
  initialTasks :=
    [{ TaskDefinition.new "gate" (milliseconds 1000) with maxLifetime := milliseconds 1000 },
      { TaskDefinition.new "passage" (milliseconds 100000) with
        dependsOn := [.initial 7 0], tolerance := ⟨true, false⟩ },
      .new "aside" (milliseconds 100000)]
  taskExecutors := [("aside", 3), ("passage", 2), ("gate", 1)]
  maxIterations := none
  iterationInterval := none
  taskLimits := .default
  iterationRetention := defaultIterationRetention

theorem gateDefinition_accepted : gateDefinition.Accepted :=
  .new (show JobDefinition.new 7 "gate"
    [({ TaskDefinition.new "gate" (milliseconds 1000) with maxLifetime := milliseconds 1000 }, 1),
      ({ TaskDefinition.new "passage" (milliseconds 100000) with tolerance := ⟨true, false⟩ }, 2),
      (.new "aside" (milliseconds 100000), 3)] []
    [(.initial 7 1, [.initial 7 0])] .default = .ok gateDefinition from rfl)

/-- Whether a merge that goes through carries what fits, or repeats the start of a task that
waits for completed ones only. -/
def mergesPlainly (s : System) : Action → Bool
  | .move w (.merge _ second) =>
      match (s.workers w).phase with
      | .merging job saved (.result taskId) =>
          !saved.acceptsResult job w taskId ||
            saved.keepsSettlements job w second && saved.carriesAccepted job w second
      | .merging job saved (.start taskId) =>
          !saved.acceptsStart job w taskId || saved.noneReleasedOn taskId &&
            (job.task? taskId).all fun t => t.dependsOn.all fun d =>
              (saved.task? d).any fun dep => dep.status = .completed
      | _ => true
  | _ => true

/-- Such a merge is in order. -/
theorem mergesInOrder_of_plainly {s : System} {a : Action} (h : mergesPlainly s a = true) :
    MergesInOrder s a := by
  unfold MergesInOrder
  split
  · split
    · rename_i hphase
      rw [mergesPlainly, hphase] at h
      intro haccepts
      simpa [haccepts] using h
    · rename_i first second _ job saved taskId hphase
      intro haccepts
      rw [mergesPlainly, hphase] at h
      dsimp only at h
      rw [haccepts, Bool.not_true, Bool.false_or, Bool.and_eq_true, Option.all_eq_true] at h
      refine ⟨h.1, ?_⟩
      intro t ht d hd
      obtain ⟨dep, hdep, hs⟩ := (Option.any_eq_true _ _).mp (List.all_eq_true.mp (h.2 t ht) d hd)
      exact Or.inl ⟨dep, hdep, by simpa using hs⟩
    · trivial
  · trivial

/-- The gate is completed; two workers then start the tasks left at a time, and the
start that loses the race is repeated. -/
def gateRace : List Action :=
  [.move 101 .readNothing, .move 101 (.create 0 900 [1, 2, 3]), .put 101 "v1" true,
    .move 101 (.pick (.at 0 [1, 2, 3]) 0), .put 101 "v2" true,
    .move 101 (.finish (.completed []) 0 0), .put 101 "v3" true,
    .move 101 (.read 1 none), .move 102 (.read 1 none),
    .move 101 (.pick (.at 0 [2, 3, 1]) 0), .move 102 (.pick (.at 0 [3, 2, 1]) 0),
    .put 102 "v4" true, .move 101 .refused, .move 101 (.reread 1 none), .move 101 (.merge 0 0),
    .put 101 "v5" true]

theorem gateRace_respects :
    ∃ s, runAdmitted (step .shared gateDefinition) mergesPlainly System.init gateRace = some s ∧
      s.history.length = 5 ∧ ∀ e ∈ s.history, RespectsOrder e.writtenAt e.tasks := by
  have hruns : (runAdmitted (step .shared gateDefinition) mergesPlainly System.init gateRace).map
      (fun s => s.history.length) = some 5 := by
    decide +kernel
  obtain ⟨s, hs, hlength⟩ := Option.map_eq_some_iff.mp hruns
  exact ⟨s, hs, hlength, dependency_order_respected gateDefinition_accepted
    ((reachableUnder_of_runAdmitted .init hs).weaken fun _ _ => mergesInOrder_of_plainly)⟩

/-- One worker is busy aside.  The first one ends the gate in time by skipping its branch,
but saves late; past the gate's lifetime the second worker fails the gate on its own copy
and starts the task that tolerates its failure.  The first save puts that task out, and
the second worker's start, repeated on top of it, runs the task over a gate that was
skipped. -/
def gateTrespass : List Action :=
  [.move 103 .readNothing, .move 103 (.create 0 900 [1, 2, 3]), .put 103 "v1" true,
    .move 103 (.pick (.at 0 [3, 1, 2]) 0), .put 103 "v2" true,
    .move 101 (.read 1 none), .move 101 (.pick (.at 0 [1, 2, 3]) 0), .put 101 "v3" true,
    .tick (milliseconds 500),
    .move 101 (.finish (.skippedBranch "closed") (milliseconds 500) (milliseconds 500)),
    .tick (milliseconds 1500),
    .move 102 (.read 1 none),
    .move 102 (.pick (.at (milliseconds 2000) [2, 3, 1]) (milliseconds 2000)),
    .put 101 "v4" true, .move 102 .refused, .move 102 (.reread 1 none),
    .move 102 (.merge (milliseconds 2000) (milliseconds 2000)), .put 102 "v5" true]

/-- Whether a released task of the newest version has a dependency there that it does not
accept at the moment of the write. -/
def newestTrespasses (id d : Uuid) : History → Bool
  | e :: _ =>
      (e.tasks.get id).any fun t => t.isReleased && d ∈ t.dependsOn &&
        (e.tasks.get d).all fun dep => t.judgeDependency dep e.writtenAt ≠ .unblocked
  | [] => false

/-- A version that trespasses does not respect the order. -/
theorem not_respectsOrder_of_newestTrespasses {id d : Uuid} {h : History}
    (htrespasses : newestTrespasses id d h = true) :
    ∃ e ∈ h, ¬ RespectsOrder e.writtenAt e.tasks := by
  cases h with
  | nil => cases htrespasses
  | cons e h =>
      obtain ⟨t, ht, hcase⟩ := (Option.any_eq_true _ _).mp htrespasses
      simp only [Bool.and_eq_true, decide_eq_true_eq] at hcase
      obtain ⟨⟨hreleased, hd⟩, hall⟩ := hcase
      refine ⟨e, by simp, ?_⟩
      intro hrespects
      obtain ⟨dep, hdep, hjudge⟩ := hrespects id t ht hreleased d hd
      have hnot := (Option.all_eq_true _ _).mp hall dep hdep
      simp [hjudge] at hnot

/-- A running task can be stored over a dependency it does not accept. -/
theorem order_violated : gateDefinition.Accepted ∧
    ∃ s, Reachable (step .shared gateDefinition) System.init s ∧
      ∃ e ∈ s.history, ¬ RespectsOrder e.writtenAt e.tasks := by
  have hruns : (runActions (step .shared gateDefinition) System.init gateTrespass).any
      (fun s => newestTrespasses 2 1 s.history) = true := by
    decide +kernel
  refine ⟨gateDefinition_accepted, ?_⟩
  obtain ⟨s, hs, htrespasses⟩ := (Option.any_eq_true _ _).mp hruns
  exact ⟨s, reachable_of_runActions .init hs, not_respectsOrder_of_newestTrespasses htrespasses⟩

end JobManager
