import JobManager.Protocol.Order

/-!
# When every cascade skip stays justified

The cascade puts a task out because a dependency failed beyond retry or was skipped and
the task does not accept it.  A worker runs the cascade on its own copy, where a
dependency may have run out of time that another worker has completed meanwhile; a merge
then carries a task the worker created, already put out, over that result.  A merge can
also lay another entry over the dependency a stored task was put out for.  Where it does
neither, every task put out has its reason in the same version.

Main results:

- Theorem {lit}`skip_unjustified`: a run of two workers that stores a skipped task all of
  whose dependencies are completed.
- Theorem {lit}`cascade_skips_justified`: every task put out has its reason in every
  version along runs whose merges leave the reasons in place.
-/

namespace JobManager

/-- Every task the cascade put out has a dependency that puts it out. -/
def JustifiesSkips (now : Nat) (m : TaskMap) : Prop :=
  ∀ id t, m.get id = some t → IsCascaded t → ∃ cause, UnreachableFor m t now cause

/-- Whether the cascade put the task out. -/
def Task.isCascaded (t : Task) : Bool :=
  t.status = .skipped .failedDependency || t.status = .skipped .skippedDependency

/-- A task is cascaded where the cascade put it out. -/
theorem Task.isCascaded_eq_true {t : Task} : t.isCascaded = true ↔ IsCascaded t := by
  unfold isCascaded IsCascaded
  rw [Bool.or_eq_true, decide_eq_true_eq, decide_eq_true_eq]
  constructor
  · rintro (hs | hs)
    · exact ⟨_, hs, by simp⟩
    · exact ⟨_, hs, by simp⟩
  · rintro ⟨cause, hs, hne⟩
    cases cause with
    | executorDecision => exact absurd rfl hne
    | failedDependency => exact Or.inl hs
    | skippedDependency => exact Or.inr hs

/-! ## The condition -/

/-- Whether a dependency puts the task out. -/
def Task.isPutOutBy (t dep : Task) (now : Nat) : Bool :=
  t.judgeDependency dep now ≠ .unblocked && t.judgeDependency dep now ≠ .blocked

/-- Whether every task a merge carries over as put out has a dependency that puts it out:
one the merge carries with it, or one that is stored. -/
def Job.carriesUnreachable (saved job : Job) (w : Uuid) (now : Nat) : Bool :=
  job.tasks.all fun t => !isCarried saved.tasksById w t || !t.isCascaded ||
    t.dependsOn.any fun d =>
      ((if saved.carries job w d then job else saved).task? d).any fun dep => t.isPutOutBy dep now

/-- A merge that goes through leaves the reasons of what was put out in place.  Carrying a
result, it changes how no stored task has settled and carries no task that was put out only
by what the worker's copy showed; repeating a start, it takes from no task the only
dependency that puts it out. -/
def MergesReasons (s : System) : Action → Prop
  | .move w (.merge first second) =>
      match (s.workers w).phase with
      | .merging job saved (.result taskId) =>
          saved.acceptsResult job w taskId = true →
            saved.keepsSettlements job w second = true ∧
              saved.carriesUnreachable job w second = true
      | .merging job saved (.start taskId) =>
          saved.acceptsStart job w taskId = true →
            ∀ id t, saved.task? id = some t → t.status = .blocked ∨ IsCascaded t →
              taskId ∈ t.dependsOn → UnreachableIn saved.tasksById first second t taskId →
              ∃ d ∈ t.dependsOn, d ≠ taskId ∧ UnreachableIn saved.tasksById first second t d
      | _ => True
  | _ => True

/-! ## Justification is a law -/

/-- A dependency puts a task out where its verdict is a skip. -/
theorem Task.isPutOutBy_eq_true {t dep : Task} {now : Nat} :
    t.isPutOutBy dep now = true ↔ ∃ cause, t.judgeDependency dep now = .skipped cause := by
  unfold isPutOutBy
  cases t.judgeDependency dep now <;> simp

/-- A reason to put a task out stands at every later reading. -/
theorem UnreachableFor.mono {now later : Nat} {m : TaskMap} {t : Task} {cause : SkipCause}
    (hle : now ≤ later) (h : UnreachableFor m t now cause) : UnreachableFor m t later cause := by
  obtain ⟨d, hd, dep, hdep, hjudge⟩ := h
  exact ⟨d, hd, dep, hdep, Task.judgeDependency_skipped_mono hle hjudge⟩

/-- A new task was not put out by the cascade. -/
theorem IsCascaded.ne_new {id w : Uuid} {parent : Option Uuid} {taskDef : TaskDefinition}
    {resolved : List Uuid} : ¬ IsCascaded (Task.new id w parent taskDef resolved) := by
  rintro ⟨cause, hs, -⟩
  unfold Task.new at hs
  cases hempty : resolved.isEmpty <;> simp [hempty] at hs

/-- Every step of a copy whose dependencies stay within it justifies its skips. -/
theorem JustifiesSkips.step {w : Uuid} {now : Nat} {m m' : TaskMap} {touch : Touch}
    (hstep : LocalStep w now m touch m') (hclosed : DependenciesClosed m')
    (h : JustifiesSkips now m) : JustifiesSkips now m' := by
  intro id t' ht' hcascaded
  rcases hstep.predecessor ht' with ⟨t, ht, hmove⟩ | ⟨_, _, _, -, -, -, rfl⟩
  · have hkin : Kin t t' := by
      rcases hmove with rfl | hmove
      · exact Kin.refl _
      · exact hmove.kin
    have hbefore : ∃ cause, UnreachableFor m t now cause := by
      rcases hmove with rfl | hmove
      · exact h id t' ht hcascaded
      · by_cases hblocked : t.status = .blocked
        · obtain ⟨c, hs, hne⟩ := hcascaded
          rcases hstep.leaves_blocked ht hblocked ht' with rfl | ⟨htodo, -⟩ |
            ⟨_, cause, rfl, hdecided | hunreachable⟩
          · simp [hs] at hblocked
          · simp [hs] at htodo
          · simp only [Task.skippedWith, TaskStatus.skipped.injEq] at hs
            exact absurd (hs.symm.trans hdecided) hne
          · exact ⟨cause, hunreachable⟩
        · -- only a blocked task is put out
          obtain ⟨cause, hs, hne⟩ := hcascaded
          cases hmove with
          | putOut hb _ => exact absurd hb hblocked
          | skip _ _ =>
              simp only [Task.skippedWith, TaskStatus.skipped.injEq] at hs
              exact absurd hs.symm hne
          | start hstart =>
              obtain ⟨-, _, _, -, -, rfl⟩ := Task.start_eq_ok hstart
              simp at hs
          | outlive _ _ => simp [Task.failedWith] at hs
          | release _ => simp at hs
          | complete _ _ _ => simp [Task.completedWith] at hs
          | fail _ _ => simp [Task.failedWith] at hs
    obtain ⟨cause, d, hd, dep, hdep, hjudge⟩ := hbefore
    rw [← hkin.dependsOn] at hd
    refine ⟨cause, d, hd, dep,
      hstep.settled_stays hclosed ht' hd hdep (t := t) (by simp [hjudge]), ?_⟩
    rw [judgeDependency_of_kin hkin, hjudge]
  · exact absurd hcascaded IsCascaded.ne_new

/-- The justification survives being stored and restored. -/
theorem JustifiesSkips.restore {now : Nat} {job : Job} (h : JustifiesSkips now job.tasksById) :
    JustifiesSkips now (StoredJob.fromJob job).taskMap := by
  intro id t ht hcascaded
  rw [get_taskMap_fromJob, Option.map_eq_some_iff] at ht
  obtain ⟨t₀, ht₀, rfl⟩ := ht
  obtain ⟨cause, d, hd, dep, hdep, hjudge⟩ := h id t₀ ht₀ hcascaded
  refine ⟨cause, d, hd, dep.persisted, ?_, hjudge⟩
  rw [get_taskMap_fromJob, show job.task? d = some dep from hdep]
  rfl

/-- A planned iteration has put nothing out. -/
theorem justifiesSkips_of_planned {jobDef : JobDefinition} {w : Uuid} {ids : List Uuid}
    {job : Job} (now : Nat) (h : job.Planned jobDef w ids) : JustifiesSkips now job.tasksById := by
  intro id t ht hcascaded
  obtain ⟨p, taskDef, resolved, -, -, -, hnew⟩ := h.planned id t ht
  rw [hnew] at hcascaded
  exact absurd hcascaded IsCascaded.ne_new

/-- What makes a task unreachable depends on what it tolerates alone. -/
theorem UnreachableIn.of_kin {m : TaskMap} {first second : Nat} {t t' : Task} {d : Uuid}
    (hkin : Kin t t') (h : UnreachableIn m first second t' d) :
    UnreachableIn m first second t d := by
  unfold UnreachableIn at h ⊢
  rwa [hkin.tolerance] at h

/-- A start that takes no reason away keeps what was put out justified. -/
theorem JustifiesSkips.insert {m : TaskMap} {saved : Job} {t : Task} {first second : Nat}
    (hle : first ≤ second) (hderived : Derived first second saved.tasksById m)
    (hdone : ∀ id t, m.get id = some t → t.status = .blocked →
      ∀ cause, ¬ UnreachableFor m t second cause)
    (hstarted : t.status = .started)
    (hother : ∀ id u, saved.task? id = some u → u.status = .blocked ∨ IsCascaded u →
      t.id ∈ u.dependsOn → UnreachableIn saved.tasksById first second u t.id →
      ∃ d ∈ u.dependsOn, d ≠ t.id ∧ UnreachableIn saved.tasksById first second u d)
    (h : JustifiesSkips second m) : JustifiesSkips second (m.insert t) := by
  intro id u hu hcascaded
  rcases get_insert_cases m t id with ⟨-, hget⟩ | ⟨-, hget⟩
  · rw [hget] at hu
    cases hu
    obtain ⟨cause, hs, -⟩ := hcascaded
    simp [hstarted] at hs
  · rw [hget] at hu
    -- it suffices to find a reason that is not the task itself
    suffices hreason : ∃ cause, ∃ d ∈ u.dependsOn, d ≠ t.id ∧ ∃ dep, m.get d = some dep ∧
        u.judgeDependency dep second = .skipped cause by
      obtain ⟨cause, d, hd, hne, dep, hdep, hjudge⟩ := hreason
      exact ⟨cause, d, hd, dep, by rwa [KeyedMap.get_insert_of_ne m hne.symm], hjudge⟩
    obtain ⟨cause, d, hd, dep, hdep, hjudge⟩ := h id u hu hcascaded
    by_cases hne : d = t.id
    · subst hne
      have hskipped := hcascaded
      obtain ⟨c, hs, -⟩ := hskipped
      have hbound := hderived.unreachableIn hdep hjudge
      obtain ⟨u₀, hu₀, hstatus, hkin⟩ : ∃ u₀, saved.task? id = some u₀ ∧
          (u₀.status = .blocked ∨ IsCascaded u₀) ∧ Kin u₀ u := by
        rcases (hderived.skipsIn hu hs).2 with hsaved | ⟨u₀, hsaved, hblocked, hkin⟩
        · exact ⟨u, hsaved, Or.inr hcascaded, Kin.refl u⟩
        · exact ⟨u₀, hsaved, Or.inl hblocked, hkin⟩
      obtain ⟨d', hd', hne', hbound'⟩ := hother id u₀ hu₀ hstatus (hkin.dependsOn ▸ hd)
        (hbound.of_kin hkin)
      obtain ⟨dep', cause', hdep', hjudge'⟩ := hderived.judged_skipped hle hdone hbound'
      refine ⟨cause', d', hkin.dependsOn.symm ▸ hd', hne', dep', hdep', ?_⟩
      rw [judgeDependency_of_kin hkin, hjudge']
    · exact ⟨cause, d, hd, hne, dep, hdep, hjudge⟩

/-- A result carried with its reasons keeps what was put out justified. -/
theorem JustifiesSkips.carry {saved job : Job} {w : Uuid} {now : Nat}
    (hkeeps : saved.keepsSettlements job w now = true)
    (hreasons : saved.carriesUnreachable job w now = true)
    (h : JustifiesSkips now saved.tasksById) :
    JustifiesSkips now (saved.carryTasks job w).tasksById := by
  intro id t ht hcascaded
  rcases carry_cases ht with ⟨ht', hcarried⟩ | ⟨ht', -⟩
  · rw [Job.carriesUnreachable, List.all_eq_true] at hreasons
    have hany := hreasons t (Job.mem_tasks_of_task? ht')
    rw [hcarried, Task.isCascaded_eq_true.mpr hcascaded, Bool.not_true, Bool.false_or,
      Bool.false_or, List.any_eq_true] at hany
    obtain ⟨d, hd, hreason⟩ := hany
    obtain ⟨dep, hdep, hputOut⟩ := (Option.any_eq_true _ _).mp hreason
    obtain ⟨cause, hjudge⟩ := Task.isPutOutBy_eq_true.mp hputOut
    refine ⟨cause, d, hd, dep, ?_, hjudge⟩
    have hget := Job.get_carryTasks saved job w d
    cases hjob : job.task? d with
    | none =>
        rw [hjob] at hget
        rw [Job.carries, hjob] at hdep
        exact hget.trans hdep
    | some dep' =>
        rw [hjob] at hget
        rw [Job.carries, hjob, Option.any_some] at hdep
        dsimp only at hget
        split at hdep <;> rename_i hcarriedDep
        · rw [if_pos hcarriedDep] at hget
          exact hget.trans (hjob.symm.trans hdep)
        · rw [if_neg hcarriedDep] at hget
          exact hget.trans hdep
  · obtain ⟨cause, d, hd, dep, hdep, hjudge⟩ := h id t ht' hcascaded
    obtain ⟨dep', hdep'⟩ := carry_of_saved job w (show saved.task? d = some dep from hdep)
    have hskipped := Task.judgeDependency_skipped_iff.mp ⟨cause, hjudge⟩
    have hsettled : dep.settlementAt now ≠ none := by
      rcases hskipped with ⟨-, hs⟩ | ⟨-, hs⟩ <;> simp [hs]
    rw [← Job.settlement_of_keepsSettlements hkeeps hdep hdep' hsettled] at hskipped
    obtain ⟨cause', hjudge'⟩ := Task.judgeDependency_skipped_iff.mpr hskipped
    exact ⟨cause', d, hd, dep', hdep', hjudge'⟩

/-- Justification is a law of the copies, given merges that leave the reasons. -/
theorem justifiesSkips_law (jobDef : JobDefinition) :
    CopyLaw jobDef MergesReasons JustifiesSkips where
  mono _ _ _ hle h id t ht hcascaded := by
    obtain ⟨cause, hcause⟩ := h id t ht hcascaded
    exact ⟨cause, hcause.mono hle⟩
  step _ _ _ _ _ hstep _ hclosed h := h.step hstep hclosed
  restore _ _ h := h.restore
  plan _ _ _ now h := justifiesSkips_of_planned now h
  mergeStart := by
    intro g s w taskId job saved workerTask m first second _ hphase hadmits haccepts hle hworker
      hstarted hderived hdone _ h
    rw [MergesReasons, hphase] at hadmits
    have hid : workerTask.id = taskId := Job.id_of_task? hworker
    subst hid
    exact JustifiesSkips.insert hle hderived hdone hstarted (hadmits haccepts) h
  mergeResult := by
    intro g s w taskId job saved first now _ hphase hadmits haccepts _ hsaved _
    rw [MergesReasons, hphase] at hadmits
    obtain ⟨hkeeps, hreasons⟩ := hadmits haccepts
    exact JustifiesSkips.carry hkeeps hreasons hsaved

/-- A merge that leaves the reasons changes how no stored task has settled. -/
theorem agreesOn_of_mergesReasons {s : System} {a : Action} (h : MergesReasons s a) :
    conclusions.AgreesOn s a := by
  refine agreesOn_of_keepsSettlements ?_
  rintro w taskId first second job saved rfl hphase haccepts
  rw [MergesReasons, hphase] at h
  exact (h haccepts).1

/-- Along any run whose merges leave the reasons in place, every task put out has its
reason in every stored version at the moment it is written. -/
theorem cascade_skips_justified {jobDef : JobDefinition} (hdef : jobDef.Accepted) {s : System}
    (h : ReachableUnder (step .shared jobDef) MergesReasons System.init s) :
    ∀ e ∈ s.history, JustifiesSkips e.writtenAt e.tasks :=
  stored_of_law hdef.wellFormed (justifiesSkips_law jobDef)
    (fun _ _ => agreesOn_of_mergesReasons) h

/-- Whether a merge that goes through carries its reasons, or repeats the start of a task
nothing waits for. -/
def mergesAside (s : System) : Action → Bool
  | .move w (.merge _ second) =>
      match (s.workers w).phase with
      | .merging job saved (.result taskId) =>
          !saved.acceptsResult job w taskId ||
            saved.keepsSettlements job w second && saved.carriesUnreachable job w second
      | .merging job saved (.start taskId) =>
          !saved.acceptsStart job w taskId || saved.tasks.all fun t => taskId ∉ t.dependsOn
      | _ => true
  | _ => true

/-- Such a merge leaves the reasons of what was put out in place. -/
theorem mergesReasons_of_aside {s : System} {a : Action} (h : mergesAside s a = true) :
    MergesReasons s a := by
  unfold MergesReasons
  split
  · split
    · rename_i hphase
      rw [mergesAside, hphase] at h
      intro haccepts
      simpa [haccepts] using h
    · rename_i first second _ job saved taskId hphase
      intro haccepts
      rw [mergesAside, hphase] at h
      dsimp only at h
      rw [haccepts, Bool.not_true, Bool.false_or, List.all_eq_true] at h
      intro id t ht _ hwaits
      have hnot := h t (Job.mem_tasks_of_task? ht)
      simp [hwaits] at hnot
    · trivial
  · trivial

/-- Two workers start two tasks at a time, one start being repeated; the gate's branch is
then skipped, in a save that loses its race too. -/
def gateSkip : List Action :=
  [.move 101 .readNothing, .move 101 (.create 0 900 [1, 2, 3]), .put 101 "v1" true,
    .move 101 (.pick (.at 0 [1, 2, 3]) 0),
    .move 102 (.read 1 none), .move 102 (.pick (.at 0 [3, 2, 1]) 0),
    .put 101 "v2" true, .move 102 .refused, .move 102 (.reread 1 none), .move 102 (.merge 0 0),
    .put 102 "v3" true,
    .move 101 (.finish (.skippedBranch "closed") 0 0), .move 101 .refused,
    .move 101 (.reread 1 none), .move 101 (.merge 0 0), .put 101 "v4" true]

theorem gateSkip_justified :
    ∃ s, runAdmitted (step .shared gateDefinition) mergesAside System.init gateSkip = some s ∧
      s.history.length = 4 ∧ ∀ e ∈ s.history, JustifiesSkips e.writtenAt e.tasks := by
  have hruns : (runAdmitted (step .shared gateDefinition) mergesAside System.init gateSkip).map
      (fun s => s.history.length) = some 4 := by
    decide +kernel
  obtain ⟨s, hs, hlength⟩ := Option.map_eq_some_iff.mp hruns
  exact ⟨s, hs, hlength, cascade_skips_justified gateDefinition_accepted
    ((reachableUnder_of_runAdmitted .init hs).weaken fun _ _ => mergesReasons_of_aside)⟩

/-- A source that is retried, and a planner that creates a task at runtime. -/
def plannerDefinition : JobDefinition where
  code := "planner"
  initialTasks := [.new "source" (milliseconds 1000), .new "planner" (milliseconds 100000)]
  taskExecutors := [("follow", 3), ("planner", 2), ("source", 1)]
  maxIterations := none
  iterationInterval := none
  taskLimits := .default
  iterationRetention := defaultIterationRetention

theorem plannerDefinition_accepted : plannerDefinition.Accepted :=
  .new (show JobDefinition.new 7 "planner"
    [(.new "source" (milliseconds 1000), 1), (.new "planner" (milliseconds 100000), 2)]
    [("follow", 3)] [] .default = .ok plannerDefinition from rfl)

/-- The source fails with attempts left.  The first worker starts the planner on a copy
that shows the failure and creates a task that waits for the source; the second worker
retries the source and completes it.  By the time the planner ends, the first worker's
copy shows a source past its lifetime, and puts the created task out. -/
def plannerDoom : List Action :=
  [.move 102 .readNothing, .move 102 (.create 0 900 [1, 2]), .put 102 "v1" true,
    .move 102 (.pick (.at 0 [1, 2]) 0), .put 102 "v2" true,
    .move 102 (.finish (.error "out of reach") 0 0), .put 102 "v3" true,
    .move 101 (.read 1 none), .move 101 (.pick (.at 0 [2, 1]) 0), .put 101 "v4" true,
    .move 101 (.call 0 (.addTask
      { TaskDefinition.new "follow" (milliseconds 1000) with dependsOn := [.created 1] } 3)),
    .tick (milliseconds 2000),
    .move 102 (.read 1 none),
    .move 102 (.pick (.at (milliseconds 2000) [1, 2]) (milliseconds 2000)), .put 102 "v5" true,
    .move 102 (.finish (.completed [7]) (milliseconds 2000) (milliseconds 2000)),
    .put 102 "v6" true,
    .tick (milliseconds 8000),
    .move 101 (.finish (.completed []) (milliseconds 10000) (milliseconds 10000)),
    .move 101 .refused, .move 101 (.reread 1 none),
    .move 101 (.merge (milliseconds 10000) (milliseconds 10000)), .put 101 "v7" true]

/-- Whether the newest version holds the task as put out, though all its dependencies are
completed there. -/
def newestDooms (id : Uuid) : History → Bool
  | e :: _ =>
      (e.tasks.get id).any fun t => t.isCascaded &&
        t.dependsOn.all fun d => (e.tasks.get d).all fun dep => dep.status = .completed
  | [] => false

/-- A version that dooms a task does not justify its skips. -/
theorem not_justifiesSkips_of_newestDooms {id : Uuid} {h : History}
    (hdooms : newestDooms id h = true) : ∃ e ∈ h, ¬ JustifiesSkips e.writtenAt e.tasks := by
  cases h with
  | nil => cases hdooms
  | cons e h =>
      obtain ⟨t, ht, hcase⟩ := (Option.any_eq_true _ _).mp hdooms
      rw [Bool.and_eq_true, Task.isCascaded_eq_true, List.all_eq_true] at hcase
      refine ⟨e, by simp, ?_⟩
      intro hjustifies
      obtain ⟨cause, d, hd, dep, hdep, hjudge⟩ := hjustifies id t ht hcase.1
      have hcompleted := (Option.all_eq_true _ _).mp (hcase.2 d hd) dep hdep
      simp only [decide_eq_true_eq] at hcompleted
      have hunblocked : t.judgeDependency dep e.writtenAt = .unblocked :=
        Task.judgeDependency_eq_unblocked.mpr (Or.inl hcompleted)
      rw [hjudge] at hunblocked
      cases hunblocked

/-- A created task can be stored as skipped though all its dependencies are completed. -/
theorem skip_unjustified : plannerDefinition.Accepted ∧
    ∃ s, Reachable (step .shared plannerDefinition) System.init s ∧
      ∃ e ∈ s.history, ¬ JustifiesSkips e.writtenAt e.tasks := by
  have hruns : (runActions (step .shared plannerDefinition) System.init plannerDoom).any
      (fun s => newestDooms 3 s.history) = true := by
    decide +kernel
  refine ⟨plannerDefinition_accepted, ?_⟩
  obtain ⟨s, hs, hdooms⟩ := (Option.any_eq_true _ _).mp hruns
  exact ⟨s, reachable_of_runActions .init hs, not_justifiesSkips_of_newestDooms hdooms⟩

end JobManager
