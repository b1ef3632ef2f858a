import JobManager.Library.Elimination
import JobManager.Library.Transition
import JobManager.Scheduling.Schedule

/-!
# What becomes of each task

What a task ends as follows from what its dependencies end as, what it tolerates of them
and the outcome its own execution would have: it is executed when it accepts how all of
them ended, and put out otherwise.  Every schedule ends each task so.

Main results:

- Theorem {lit}`EndsAs.unique`: a task ends in one way.
- Theorem {lit}`Scheduled.endsAs`: whatever has ended in a schedule ended that way.
- Theorem {lit}`ScheduleInv.resolved_iff_settledBy`: in a settled schedule exactly what the
  executed tasks settle has ended.
- Theorem {lit}`executed_tasks_agree`: all schedules execute the same tasks and end each of
  them alike.
-/

namespace JobManager

/-! ## The fate of a task -/

/-- The task ends so: it accepts how its dependencies end and its execution ends so, or it
does not accept how one of them ends. -/
inductive EndsAs (m₀ : TaskMap) (outcome : Uuid → FinalOutcome) : Uuid → TaskResolution → Prop
  | run {id : Uuid} {t : Task} (ends : Uuid → TaskResolution) : m₀.get id = some t →
      (∀ d ∈ t.dependsOn, EndsAs m₀ outcome d (ends d)) →
      (∀ d ∈ t.dependsOn, t.tolerance.accepts (ends d) = true) →
      EndsAs m₀ outcome id (outcome id).resolution
  | out {id d : Uuid} {t : Task} {r : TaskResolution} : m₀.get id = some t → d ∈ t.dependsOn →
      EndsAs m₀ outcome d r → t.tolerance.accepts r = false → EndsAs m₀ outcome id .skipped

/-- A task has one end. -/
theorem EndsAs.unique {m₀ : TaskMap} {outcome : Uuid → FinalOutcome} {id : Uuid}
    {r r' : TaskResolution} (h : EndsAs m₀ outcome id r) (h' : EndsAs m₀ outcome id r') :
    r = r' := by
  induction h generalizing r' with
  | run ends ht _ haccepts ih =>
      cases h' with
      | run => rfl
      | out ht' hd hends hrejects =>
          rw [ht] at ht'
          cases ht'
          have haccepted := haccepts _ hd
          rw [ih _ hd hends, hrejects] at haccepted
          cases haccepted
  | out ht hd _ hrejects ih =>
      cases h' with
      | run ends ht' hdeps haccepts =>
          rw [ht] at ht'
          cases ht'
          rw [ih (hdeps _ hd), haccepts _ hd] at hrejects
          cases hrejects
      | out => rfl

/-- The dependency ends in a way the task does not accept. -/
def PutsOut (m₀ : TaskMap) (outcome : Uuid → FinalOutcome) (d id : Uuid) : Prop :=
  ∃ t r, m₀.get id = some t ∧ EndsAs m₀ outcome d r ∧ t.tolerance.accepts r = false

/-- The tasks of an iteration with what they wait for and what puts them out. -/
def Job.Unstarted.precedence {rank : Uuid → Nat} {job : Job} (h : job.Unstarted rank)
    (outcome : Uuid → FinalOutcome) : Precedence Uuid where
  tasks := (job.tasks.map Task.id).toFinset
  deps id := ((job.task? id).map Task.dependsOn).getD []
  kills := PutsOut job.tasksById outcome
  rank := rank
  closed := by
    intro id _ d hd
    cases ht : job.task? id with
    | none => simp [ht] at hd
    | some t =>
        rw [ht, Option.map_some, Option.getD_some] at hd
        obtain ⟨dep, hdep⟩ := h.dependenciesClosed id t ht d hd
        simp only [List.mem_toFinset, List.mem_map]
        exact ⟨dep, Job.mem_tasks_of_task? hdep, Job.id_of_task? hdep⟩
  ranked := by
    intro id _ d hd
    cases ht : job.task? id with
    | none => simp [ht] at hd
    | some t =>
        rw [ht, Option.map_some, Option.getD_some] at hd
        exact h.dependenciesRanked id t ht d hd

namespace Job.Unstarted

variable {rank : Uuid → Nat} {job : Job} {outcome : Uuid → FinalOutcome}

/-- The precedence is one of the tasks of the job. -/
theorem mem_precedence_tasks (h : job.Unstarted rank) {id : Uuid} :
    id ∈ (h.precedence outcome).tasks ↔ ∃ t, job.task? id = some t := by
  simp only [precedence, List.mem_toFinset, List.mem_map]
  constructor
  · rintro ⟨t, ht, rfl⟩
    exact ⟨t, mem_tasks_iff.mp ht⟩
  · rintro ⟨t, ht⟩
    exact ⟨t, mem_tasks_of_task? ht, id_of_task? ht⟩

/-- And its dependencies are theirs. -/
theorem mem_precedence_deps (h : job.Unstarted rank) {id d : Uuid} :
    d ∈ (h.precedence outcome).deps id ↔ ∃ t, job.task? id = some t ∧ d ∈ t.dependsOn := by
  show d ∈ ((job.task? id).map Task.dependsOn).getD [] ↔ _
  cases job.task? id <;> simp

end Job.Unstarted

/-! ## Schedules follow it -/

namespace Scheduled

variable {m₀ m : TaskMap} {outcome : Uuid → FinalOutcome} {order : List Uuid} {id : Uuid}
  {t : Task} {rank : Uuid → Nat}

/-- An executed task was released. -/
theorem acceptsAll_of_mem (h : Scheduled m₀ outcome order m) (ht : m.get id = some t)
    (hmem : id ∈ order) : AcceptsAll m t := by
  have hs := (h.ran id t ht hmem).1
  refine h.ordered id t ht ?_ ?_
  · rw [hs]
    cases outcome id <;> simp [FinalOutcome.status]
  · rintro ⟨cause, hs', hne⟩
    rw [hs] at hs'
    cases hout : outcome id <;> simp_all [FinalOutcome.status]

/-- A task that ran has the resolution of its outcome. -/
theorem resolution_of_mem (h : Scheduled m₀ outcome order m) (ht : m.get id = some t)
    (hmem : id ∈ order) : t.resolution = some (outcome id).resolution := by
  have hs := (h.ran id t ht hmem).1
  unfold Task.resolution
  rw [hs]
  cases outcome id <;> rfl

/-- What ended without being executed was put out. -/
theorem isCascaded_of_resolved (h : Scheduled m₀ outcome order m) (ht : m.get id = some t)
    (hresolved : t.resolution ≠ none) (hmem : id ∉ order) : IsCascaded t := by
  rcases h.pending id t ht hmem with hs | hs | hs | hcascaded
  · simp [Task.resolution, hs] at hresolved
  · simp [Task.resolution, hs] at hresolved
  · simp [Task.resolution, hs] at hresolved
  · exact hcascaded

/-- A task the cascade put out is skipped. -/
theorem resolution_of_isCascaded {t : Task} (h : IsCascaded t) : t.resolution = some .skipped := by
  obtain ⟨cause, hs, -⟩ := h
  simp [Task.resolution, hs]

/-- Whatever has ended ended as it is bound to. -/
theorem endsAs (h : Scheduled m₀ outcome order m) (hranked : DependenciesRanked rank m₀)
    (ht : m.get id = some t) {r : TaskResolution} (hr : t.resolution = some r) :
    EndsAs m₀ outcome id r := by
  -- by induction on the rank: the dependencies of a task that ended have ended
  induction hn : rank id using Nat.strong_induction_on generalizing id t r with
  | _ n ih =>
      obtain ⟨t₀, ht₀, hwiring⟩ := h.origin ht
      simp only [Task.wiring, Prod.mk.injEq] at hwiring
      obtain ⟨hdeps, htolerance, -⟩ := hwiring
      have hlower : ∀ d ∈ t.dependsOn, rank d < n := by
        intro d hd
        rw [← hn]
        exact hranked id t₀ ht₀ d (hdeps ▸ hd)
      by_cases hmem : id ∈ order
      · have haccepts := h.acceptsAll_of_mem ht hmem
        rw [h.resolution_of_mem ht hmem] at hr
        cases hr
        refine .run (fun d => ((m.get d).bind Task.resolution).getD .completed) ht₀ ?_ ?_
        · intro d hd
          obtain ⟨dep, r, hdep, hr, -⟩ := haccepts d (hdeps ▸ hd)
          rw [hdep, Option.bind_some, hr, Option.getD_some]
          exact ih _ (hlower d (hdeps ▸ hd)) hdep hr rfl
        · intro d hd
          obtain ⟨dep, r, hdep, hr, haccepted⟩ := haccepts d (hdeps ▸ hd)
          rw [hdep, Option.bind_some, hr, Option.getD_some, ← htolerance, haccepted]
      · have hcascaded := h.isCascaded_of_resolved ht (by simp [hr]) hmem
        rw [resolution_of_isCascaded hcascaded] at hr
        cases hr
        obtain ⟨d, hd, dep, r, hdep, hr, hrejects⟩ := h.justified id t ht hcascaded
        exact .out ht₀ (hdeps ▸ hd) (ih _ (hlower d hd) hdep hr rfl) (htolerance ▸ hrejects)

/-- What accepts how its dependencies ended is put out by none of them. -/
theorem not_putsOut (h : Scheduled m₀ outcome order m) (hranked : DependenciesRanked rank m₀)
    (ht : m.get id = some t) (haccepts : AcceptsAll m t) :
    ∀ d ∈ t.dependsOn, ¬ PutsOut m₀ outcome d id := by
  rintro d hd ⟨t₀, r, ht₀, hends, hrejects⟩
  obtain ⟨t₁, ht₁, hwiring⟩ := h.origin ht
  rw [ht₀] at ht₁
  cases ht₁
  simp only [Task.wiring, Prod.mk.injEq] at hwiring
  obtain ⟨dep, r', hdep, hr', haccepted⟩ := haccepts d hd
  rw [(h.endsAs hranked hdep hr').unique hends, hwiring.2.1, hrejects] at haccepted
  cases haccepted

/-- A rejected task is put out by a dependency that has ended. -/
theorem putsOut_of_rejects (h : Scheduled m₀ outcome order m)
    (hranked : DependenciesRanked rank m₀) (ht : m.get id = some t) (hrejects : Rejects m t) :
    ∃ d ∈ t.dependsOn, PutsOut m₀ outcome d id ∧
      ∃ dep, m.get d = some dep ∧ dep.resolution ≠ none := by
  obtain ⟨d, hd, dep, r, hdep, hr, hrejected⟩ := hrejects
  obtain ⟨t₀, ht₀, hwiring⟩ := h.origin ht
  simp only [Task.wiring, Prod.mk.injEq] at hwiring
  exact ⟨d, hd, ⟨t₀, r, ht₀, h.endsAs hranked hdep hr, hwiring.2.1 ▸ hrejected⟩, dep, hdep,
    by simp [hr]⟩

end Scheduled

namespace ScheduleInv

variable {job₀ job : Job} {outcome : Uuid → FinalOutcome} {order : List Uuid}
  {rank : Uuid → Nat} {id : Uuid} {t : Task}

/-- In a settled schedule exactly what the executed tasks settle has ended. -/
theorem resolved_iff_settledBy (hfresh : job₀.Unstarted rank)
    (hinv : ScheduleInv job₀ outcome order job) (ht : job.task? id = some t) :
    t.resolution ≠ none ↔ (hfresh.precedence outcome).SettledBy (· ∈ order) id := by
  have hranked := hfresh.dependenciesRanked
  constructor
  · intro hresolved
    induction hn : rank id using Nat.strong_induction_on generalizing id t with
    | _ n ih =>
        by_cases hmem : id ∈ order
        · exact .run hmem
        · have hcascaded := hinv.tasks.isCascaded_of_resolved ht hresolved hmem
          obtain ⟨d, hd, hkills, dep, hdep, hended⟩ :=
            hinv.tasks.putsOut_of_rejects hranked ht (hinv.tasks.justified id t ht hcascaded)
          obtain ⟨t₀, ht₀, hwiring⟩ := hinv.tasks.origin ht
          simp only [Task.wiring, Prod.mk.injEq] at hwiring
          have hd₀ : d ∈ t₀.dependsOn := hwiring.1 ▸ hd
          exact .out (hfresh.mem_precedence_deps.mpr ⟨t₀, ht₀, hd₀⟩) hkills
            (ih _ (hn ▸ hranked id t₀ ht₀ d hd₀) hdep hended rfl)
  · intro hsettled
    induction hsettled generalizing t with
    | @run id hmem => simp [hinv.tasks.resolution_of_mem ht hmem]
    | @out id d hd hkills _ ih =>
        obtain ⟨t₀, ht₀, hd₀⟩ := hfresh.mem_precedence_deps.mp hd
        obtain ⟨t₁, ht₁, hwiring⟩ := hinv.tasks.image ht₀
        rw [show job.tasksById.get id = some t from ht] at ht₁
        cases ht₁
        simp only [Task.wiring, Prod.mk.injEq] at hwiring
        obtain ⟨dep₀, hdep₀⟩ := hfresh.dependenciesClosed id t₀ ht₀ d hd₀
        obtain ⟨dep, hdep, -⟩ := hinv.tasks.image hdep₀
        obtain ⟨r, hr⟩ := Option.ne_none_iff_exists'.mp (ih hdep)
        obtain ⟨t₂, r', ht₂, hends, hrejects⟩ := hkills
        rw [show job₀.tasksById.get id = some t₀ from ht₀] at ht₂
        cases ht₂
        -- the dependency ended as it was bound to, which the task does not accept
        rw [← (hinv.tasks.endsAs hranked hdep hr).unique hends] at hrejects
        have hd' : d ∈ t.dependsOn := hwiring.1.symm ▸ hd₀
        have hrejected : Rejects job.tasksById t :=
          ⟨d, hd', dep, r, hdep, hr, hwiring.2.1.symm ▸ hrejects⟩
        by_cases hcascaded : IsCascaded t
        · simp [Scheduled.resolution_of_isCascaded hcascaded]
        · by_cases hblocked : t.status = .blocked
          · exact absurd hrejected (hinv.quiet id t ht hblocked).2
          · have haccepts := hinv.tasks.ordered id t ht hblocked hcascaded
            exact absurd ⟨t₀, r, ht₀, hinv.tasks.endsAs hranked hdep hr, hrejects⟩
              (hinv.tasks.not_putsOut hranked ht haccepts d hd')

/-- A task that accepts how all its dependencies ended runs, and waits for nothing. -/
theorem runs_of_acceptsAll (hfresh : job₀.Unstarted rank)
    (hinv : ScheduleInv job₀ outcome order job) (ht : job.task? id = some t)
    (haccepts : AcceptsAll job.tasksById t) :
    (hfresh.precedence outcome).Runs id ∧ (hfresh.precedence outcome).Enabled order id := by
  have hdeps : ∀ d ∈ (hfresh.precedence outcome).deps id, d ∈ t.dependsOn := by
    intro d hd
    obtain ⟨t₀, ht₀, hd₀⟩ := hfresh.mem_precedence_deps.mp hd
    obtain ⟨t₁, ht₁, hwiring⟩ := hinv.tasks.image ht₀
    rw [show job.tasksById.get id = some t from ht] at ht₁
    cases ht₁
    simp only [Task.wiring, Prod.mk.injEq] at hwiring
    exact hwiring.1.symm ▸ hd₀
  constructor
  · intro d hd
    exact hinv.tasks.not_putsOut hfresh.dependenciesRanked ht haccepts d (hdeps d hd)
  · intro d hd
    obtain ⟨dep, r, hdep, hr, -⟩ := haccepts d (hdeps d hd)
    exact (hinv.resolved_iff_settledBy hfresh hdep).mp (by simp [hr])

/-- The result of a task in work extends the order. -/
theorem feasible_cons (hfresh : job₀.Unstarted rank) (hinv : ScheduleInv job₀ outcome order job)
    (hfeasible : (hfresh.precedence outcome).Feasible order) (ht : job.task? t.id = some t)
    (hs : t.status = .started) : (hfresh.precedence outcome).Feasible (t.id :: order) := by
  obtain ⟨t₀, ht₀, -⟩ := hinv.tasks.origin ht
  have hnot : ¬ IsCascaded t := by
    rintro ⟨cause, hs', -⟩
    simp [hs] at hs'
  have haccepts := hinv.tasks.ordered t.id t ht (by simp [hs]) hnot
  obtain ⟨hruns, henabled⟩ := hinv.runs_of_acceptsAll hfresh ht haccepts
  exact .cons hfeasible (hfresh.mem_precedence_tasks.mpr ⟨t₀, ht₀⟩) hruns
    (hinv.running_of_open ht (by simp [Task.resolution, hs])).2 henabled

/-- A closed iteration has ended all its tasks. -/
theorem resolved_of_isProcessed (hinv : ScheduleInv job₀ outcome order job)
    (hprocessed : job.isProcessed = true) (ht : job.task? id = some t) : t.resolution ≠ none := by
  rcases hinv.state with ⟨hrunning, -⟩ | ⟨-, hresolved⟩
  · simp [Job.isProcessed, Job.iterationVerdict, hrunning] at hprocessed
  · have hended := hresolved id t ht
    rw [Task.isResolved] at hended
    exact Option.isSome_iff_ne_none.mp hended

/-- A task that has ended was executed if and only if nothing puts it out. -/
theorem executed_iff_runs (hfresh : job₀.Unstarted rank)
    (hinv : ScheduleInv job₀ outcome order job) (ht : job.task? id = some t)
    (hresolved : t.resolution ≠ none) : id ∈ order ↔ (hfresh.precedence outcome).Runs id := by
  constructor
  · intro hmem
    exact (hinv.runs_of_acceptsAll hfresh ht (hinv.tasks.acceptsAll_of_mem ht hmem)).1
  · intro hruns
    exact ((hinv.resolved_iff_settledBy hfresh ht).mp hresolved).executed_of_runs hruns

end ScheduleInv

/-! ## Whole schedules -/

/-- What becomes of a task: whether it was executed, and what it ended as. -/
def Task.fate (t : Task) : Bool × Option TaskResolution := (t.startedAt.isSome, t.resolution)

/-- Whether a step starts a task nobody started before, or applies a result. -/
def startsOnce (job : Job) : ScheduleAction → Bool
  | .start _ taskId _ => (job.task? taskId).any fun t => t.status = .todo
  | .result .. => true

section Schedules

variable {rank : Uuid → Nat} {job₀ job : Job} {outcome : Uuid → FinalOutcome}

/-- Every schedule runs the tasks in a feasible order. -/
theorem scheduleInv_of_reachable (hfresh : job₀.Unstarted rank)
    (h : Reachable (scheduleStep outcome) job₀ job) :
    ∃ order, ScheduleInv job₀ outcome order job ∧
      (hfresh.precedence outcome).Feasible order := by
  induction h with
  | init => exact ⟨[], hfresh.scheduleInv outcome, .nil⟩
  | step _ _ hstep ih =>
      obtain ⟨order, hinv, hfeasible⟩ := ih
      obtain ⟨w, t, now, ht, -, -, ⟨-, -, hinv', -⟩ | ⟨-, hs, hinv', -⟩⟩ := hinv.step hfresh hstep
      · exact ⟨order, hinv', hfeasible⟩
      · exact ⟨t.id :: order, hinv', hinv.feasible_cons hfresh hfeasible ht hs⟩

/-- Tasks that were started. -/
def startedIds (job₀ job : Job) : Finset Uuid :=
  (job₀.tasks.map Task.id).toFinset.filter fun id =>
    (job.task? id).any fun t => t.startedAt.isSome

/-- The started tasks are those that bear a start. -/
theorem mem_startedIds {id : Uuid} {order : List Uuid}
    (hinv : ScheduleInv job₀ outcome order job) :
    id ∈ startedIds job₀ job ↔ ∃ t, job.task? id = some t ∧ t.startedAt.isSome = true := by
  rw [startedIds, Finset.mem_filter, Option.any_eq_true]
  constructor
  · rintro ⟨-, hstarted⟩
    exact hstarted
  · rintro ⟨t, ht, hstarted⟩
    obtain ⟨t₀, ht₀, -⟩ := hinv.tasks.origin ht
    refine ⟨?_, t, ht, hstarted⟩
    exact List.mem_toFinset.mpr
      (List.mem_map.mpr ⟨t₀, Job.mem_tasks_of_task? ht₀, Job.id_of_task? ht₀⟩)

/-- Every step that starts a task nobody started before, or applies a result, brings the
schedule on. -/
theorem startsOnce_step (hfresh : job₀.Unstarted rank) {order : List Uuid} {job' : Job}
    {a : ScheduleAction} (hinv : ScheduleInv job₀ outcome order job)
    (hfeasible : (hfresh.precedence outcome).Feasible order) (honce : startsOnce job a = true)
    (h : scheduleStep outcome job a = some job') :
    ∃ order', ScheduleInv job₀ outcome order' job' ∧
      (hfresh.precedence outcome).Feasible order' ∧
      (startedIds job₀ job).card + order.length + 1 ≤
        (startedIds job₀ job').card + order'.length := by
  obtain ⟨w, t, now, ht, hopen, hkeep, hcase⟩ := hinv.step hfresh h
  -- what was started before is not blocked, so the step leaves it alone
  have hsub : ∀ {order' : List Uuid}, ScheduleInv job₀ outcome order' job' →
      t.id ∈ startedIds job₀ job' → startedIds job₀ job ⊆ startedIds job₀ job' := by
    intro order' hinv' hself id hid
    obtain ⟨u, hu, hstarted⟩ := (mem_startedIds hinv).mp hid
    by_cases hne : id = t.id
    · exact hne ▸ hself
    · refine (mem_startedIds hinv').mpr ⟨u, hkeep id u hne hu ?_, hstarted⟩
      intro hblocked
      rcases (hinv.tasks.recorded id u hu).mp hstarted with hs | hmem
      · simp [hblocked] at hs
      · have hended := hinv.tasks.resolution_of_mem hu hmem
        simp [Task.resolution, hblocked] at hended
  rcases hcase with ⟨rfl, -, hinv', t', hstart, ht'⟩ | ⟨rfl, hs, hinv', -⟩
  · refine ⟨order, hinv', hfeasible, ?_⟩
    obtain ⟨-, _, _, -, -, rfl⟩ := Task.start_eq_ok hstart
    have hself : t.id ∈ startedIds job₀ job' := (mem_startedIds hinv').mpr ⟨_, ht', rfl⟩
    have hnew : t.id ∉ startedIds job₀ job := by
      intro hid
      obtain ⟨u, hu, hstarted⟩ := (mem_startedIds hinv).mp hid
      rw [ht] at hu
      cases hu
      have htodo : t.status = .todo := by simpa [startsOnce, ht] using honce
      rcases (hinv.tasks.recorded t.id t ht).mp hstarted with hs | hmem
      · simp [htodo] at hs
      · exact (hinv.running_of_open ht hopen).2 hmem
    have hlt : (startedIds job₀ job).card < (startedIds job₀ job').card :=
      Finset.card_lt_card (Finset.ssubset_iff_of_subset (hsub hinv' hself) |>.mpr
        ⟨t.id, hself, hnew⟩)
    omega
  · refine ⟨t.id :: order, hinv', hinv.feasible_cons hfresh hfeasible ht hs, ?_⟩
    obtain ⟨t₀, ht₀, -⟩ := hinv.tasks.origin ht
    obtain ⟨t', ht', -⟩ := hinv'.tasks.image ht₀
    have hself : t.id ∈ startedIds job₀ job' := (mem_startedIds hinv').mpr
      ⟨t', ht', (hinv'.tasks.recorded t.id t' ht').mpr (Or.inr (List.mem_cons_self ..))⟩
    have hle := Finset.card_le_card (hsub hinv' hself)
    rw [List.length_cons]
    omega

theorem startsOnce_length_le (hfresh : job₀.Unstarted rank) {order : List Uuid} {job' : Job}
    {actions : List ScheduleAction} (hinv : ScheduleInv job₀ outcome order job)
    (hfeasible : (hfresh.precedence outcome).Feasible order)
    (h : runAdmitted (scheduleStep outcome) startsOnce job actions = some job') :
    actions.length + (startedIds job₀ job).card + order.length ≤ 2 * job₀.tasks.length := by
  have hcard : (job₀.tasks.map Task.id).toFinset.card ≤ job₀.tasks.length := by
    have hle := List.toFinset_card_le (job₀.tasks.map Task.id)
    rwa [List.length_map] at hle
  induction actions generalizing job order with
  | nil =>
      have hstarted : (startedIds job₀ job).card ≤ (job₀.tasks.map Task.id).toFinset.card :=
        Finset.card_filter_le _ _
      have horder : order.length ≤ (job₀.tasks.map Task.id).toFinset.card := hfeasible.length_le
      rw [List.length_nil]
      omega
  | cons a as ih =>
      rw [runAdmitted] at h
      split at h <;> rename_i honce
      · rw [Option.bind_eq_some_iff] at h
        obtain ⟨job₁, hstep, hrun⟩ := h
        obtain ⟨order', hinv', hfeasible', hle⟩ :=
          startsOnce_step hfresh hinv hfeasible honce hstep
        have hrest := ih hinv' hfeasible' hrun
        rw [List.length_cons]
        omega
      · cases h

/-- The set of executed tasks does not depend on the schedule.  Two closed iterations
reached from one have executed the same tasks and ended each of them alike; a schedule that
starts each task once is at most two steps a task long; and as long as the iteration is not
closed there is a task to start, or one whose result can be applied, at any moment its
deadlines can be told from and nothing in work has outlived. -/
theorem executed_tasks_agree (hfresh : job₀.Unstarted rank) (outcome : Uuid → FinalOutcome) :
    (∀ job₁ job₂, Reachable (scheduleStep outcome) job₀ job₁ →
      Reachable (scheduleStep outcome) job₀ job₂ → job₁.isProcessed = true →
      job₂.isProcessed = true →
      ∀ id, (job₁.task? id).map Task.fate = (job₂.task? id).map Task.fate) ∧
    (∀ actions job, runAdmitted (scheduleStep outcome) startsOnce job₀ actions = some job →
      actions.length ≤ 2 * job₀.tasks.length) ∧
    ∀ job now, Reachable (scheduleStep outcome) job₀ job → job.isProcessed = false →
      (∀ t ∈ job.tasks, now + t.timeout ≤ maxMoment ∧ now + t.maxLifetime ≤ maxMoment ∧
        (t.isStarted = true → t.isLifetimeExpiredAt now = false) ∧
        ∀ output, outcome t.id = .completed output →
          output.length ≤ job.taskLimits.maxOutputBytes) →
      ∃ w id, (startsOnce job (.start w id now) = true ∧
          (scheduleStep outcome job (.start w id now)).isSome = true) ∨
        (scheduleStep outcome job (.result w id now)).isSome = true := by
  refine ⟨?_, ?_, ?_⟩
  · intro job₁ job₂ h₁ h₂ hprocessed₁ hprocessed₂ id
    obtain ⟨order₁, hinv₁, -⟩ := scheduleInv_of_reachable hfresh h₁
    obtain ⟨order₂, hinv₂, -⟩ := scheduleInv_of_reachable hfresh h₂
    cases ht₁ : job₁.task? id with
    | none =>
        cases ht₂ : job₂.task? id with
        | none => rfl
        | some t₂ =>
            obtain ⟨t₀, ht₀, -⟩ := hinv₂.tasks.origin ht₂
            obtain ⟨t₁, ht₁', -⟩ := hinv₁.tasks.image ht₀
            rw [show job₁.tasksById.get id = none from ht₁] at ht₁'
            cases ht₁'
    | some t₁ =>
        obtain ⟨t₀, ht₀, -⟩ := hinv₁.tasks.origin ht₁
        obtain ⟨t₂, ht₂, -⟩ := hinv₂.tasks.image ht₀
        rw [show job₂.task? id = some t₂ from ht₂, Option.map_some, Option.map_some]
        have hended₁ := hinv₁.resolved_of_isProcessed hprocessed₁ ht₁
        have hended₂ := hinv₂.resolved_of_isProcessed hprocessed₂ ht₂
        obtain ⟨r₁, hr₁⟩ := Option.ne_none_iff_exists'.mp hended₁
        obtain ⟨r₂, hr₂⟩ := Option.ne_none_iff_exists'.mp hended₂
        have hsame : r₁ = r₂ := (hinv₁.tasks.endsAs hfresh.dependenciesRanked ht₁ hr₁).unique
          (hinv₂.tasks.endsAs hfresh.dependenciesRanked ht₂ hr₂)
        have hexecuted : t₁.startedAt.isSome = true ↔ t₂.startedAt.isSome = true := by
          have hstill₁ : t₁.status ≠ .started := fun hs => by simp [Task.resolution, hs] at hr₁
          have hstill₂ : t₂.status ≠ .started := fun hs => by simp [Task.resolution, hs] at hr₂
          rw [hinv₁.tasks.recorded id t₁ ht₁, hinv₂.tasks.recorded id t₂ ht₂, or_iff_right hstill₁,
            or_iff_right hstill₂, hinv₁.executed_iff_runs hfresh ht₁ hended₁,
            hinv₂.executed_iff_runs hfresh ht₂ hended₂]
        rw [Task.fate, Task.fate, hr₁, hr₂, hsame, Bool.eq_iff_iff.mpr hexecuted]
  · intro actions job hrun
    have hle := startsOnce_length_le hfresh (hfresh.scheduleInv outcome) .nil hrun
    omega
  · intro job now h hprocessed hready
    obtain ⟨order, hinv, -⟩ := scheduleInv_of_reachable hfresh h
    rcases hinv.state with ⟨-, id, t, ht, hpending⟩ | ⟨⟨now', hverdict⟩, -⟩
    · obtain ⟨htimeout, hlifetime, halive, hlimit⟩ := hready t (Job.mem_tasks_of_task? ht)
      rcases hpending with hs | hs
      · obtain ⟨job', hstep⟩ := scheduleStep_of_todo outcome ht hs 0 _ hlifetime htimeout
        exact ⟨0, id, Or.inl ⟨by simp [startsOnce, ht, hs], by rw [hstep]; rfl⟩⟩
      · have hl := halive (by simp [Task.isStarted, hs])
        rw [Job.id_of_task? ht] at hlimit
        obtain ⟨w, hw⟩ : ∃ w, t.processingByWorker = none ∨ t.processingByWorker = some w := by
          cases hw : t.processingByWorker with
          | none => exact ⟨0, Or.inl rfl⟩
          | some w => exact ⟨w, Or.inr rfl⟩
        obtain ⟨job', hstep⟩ := scheduleStep_of_started ht hs hw hl hlimit
        exact ⟨w, id, Or.inr (by rw [hstep]; rfl)⟩
    · have hclosed : job.isProcessed = true := by
        rw [Job.isProcessed, Job.iterationVerdict, hverdict]
        cases job.deriveIterationVerdict now' <;> rfl
      rw [hclosed] at hprocessed
      cases hprocessed

end Schedules

/-! ## A decision and a failure that meet -/

/-- A task that waits for two others, and one that tolerates the failure of the second. -/
def forkJob : Job where
  id := 900
  code := "fork"
  iterNum := 1
  status := .running
  tasksById := KeyedMap.empty
    |>.insert (.new 1 101 none (.new "decision" (milliseconds 1000)) [])
    |>.insert (.new 2 101 none (.new "attempt" (milliseconds 1000)) [])
    |>.insert (.new 3 101 none (.new "join" (milliseconds 1000)) [1, 2])
    |>.insert (.new 4 101 none
      { TaskDefinition.new "repair" (milliseconds 1000) with tolerance := ⟨true, false⟩ } [2])
  updatedByWorkerId := 101
  startedAt := 0
  runningAt := some 0
  completedAt := none
  nextStartAt := none
  metadata := []
  version := ""
  maxIterations := none
  iterationInterval := none
  taskLimits := .default

theorem forkJob_unstarted : forkJob.Unstarted id where
  running := rfl
  nonempty := by decide
  closed := by decide
  ranked := by decide
  fresh := by decide

/-- The first task skips its branch, the second one fails, the others complete. -/
def forkOutcome : Uuid → FinalOutcome
  | 1 => .skippedBranch "not today"
  | 2 => .terminallyFailed "out of reach"
  | _ => .completed []

/-- Start and end the given tasks in turn. -/
def inTurn (ids : List Uuid) : List ScheduleAction :=
  ids.flatMap fun id => [.start 101 id 0, .result 101 id 0]

theorem forkJob_fates :
    ∃ job₁ job₂, runActions (scheduleStep forkOutcome) forkJob (inTurn [1, 2, 4]) = some job₁ ∧
      runActions (scheduleStep forkOutcome) forkJob (inTurn [2, 4, 1]) = some job₂ ∧
      ∀ id, (job₁.task? id).map Task.fate = (job₂.task? id).map Task.fate := by
  have hfirst : (runActions (scheduleStep forkOutcome) forkJob (inTurn [1, 2, 4])).map
      Job.isProcessed = some true := by
    decide +kernel
  have hsecond : (runActions (scheduleStep forkOutcome) forkJob (inTurn [2, 4, 1])).map
      Job.isProcessed = some true := by
    decide +kernel
  obtain ⟨job₁, h₁, hprocessed₁⟩ := Option.map_eq_some_iff.mp hfirst
  obtain ⟨job₂, h₂, hprocessed₂⟩ := Option.map_eq_some_iff.mp hsecond
  exact ⟨job₁, job₂, h₁, h₂, (executed_tasks_agree forkJob_unstarted forkOutcome).1 job₁ job₂
    (reachable_of_runActions .init h₁) (reachable_of_runActions .init h₂) hprocessed₁ hprocessed₂⟩

end JobManager
