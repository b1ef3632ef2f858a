import Mathlib.Logic.Relation
import JobManager.Core.Merging

/-!
# Which descriptions are accepted

A description names its dependencies through two channels: a task definition carries a
list of its own, and the description adds declarations for tasks it names.  Both are
merged into one graph over positions, checked, and only later resolved to the
identifiers of one iteration.  The graph is stated here in its own terms, acceptance is
shown to be exactly that it is coherent, and planning is shown to carry it over.

Main results:

- Theorem {lit}`findDependencyCycle_eq_none_iff`: the search accepts the acyclic graphs.
- Theorem {lit}`findDependencyCycle_exact`: the search ends, and what it reports lies on a
  cycle.
- Theorem {lit}`JobDefinition.exists_new_eq_ok_iff`: a description is accepted exactly when it
  is coherent.
- Theorem {lit}`acceptance_agrees`: acceptance and the iterations planned from it.
-/

namespace JobManager

/-! ## The cycle search reports cycles only -/

section Completeness

variable {positionsByTask : List (List Nat)}

/-- Position {lit}`p` lists {lit}`q` among its dependencies. -/
def Edge (positionsByTask : List (List Nat)) (p q : Nat) : Prop := q ∈ edgesOf positionsByTask p

/-- The stack is a path: below the top, every position leads to the one above it. -/
def OpenPath (positionsByTask : List (List Nat)) : Option Nat → List (Nat × Nat) → Prop
  | _, [] => True
  | above, (p, _) :: stack =>
      (∀ a, above = some a → Edge positionsByTask p a) ∧
        OpenPath positionsByTask (some p) stack

theorem OpenPath.weaken {above : Option Nat} {stack : List (Nat × Nat)}
    (h : OpenPath positionsByTask above stack) : OpenPath positionsByTask none stack := by
  cases stack with
  | nil => trivial
  | cons top stack => exact ⟨by simp, h.2⟩

/-- Every position of the stack leads to the one above it. -/
theorem OpenPath.reaches {a : Nat} {stack : List (Nat × Nat)}
    (h : OpenPath positionsByTask (some a) stack) :
    ∀ p ∈ stack.map Prod.fst, Relation.TransGen (Edge positionsByTask) p a := by
  induction stack generalizing a with
  | nil => simp
  | cons top stack ih =>
      intro p hp
      have hedge : Edge positionsByTask top.1 a := h.1 a rfl
      rcases List.mem_cons.mp hp with rfl | hp
      · exact .single hedge
      · exact (ih h.2 p hp).tail hedge

/-- A cycle the loop reports is one: the position it closes on is on the stack, which
leads from it to the top. -/
theorem drainStack_eq_cycle :
    ∀ (fuel : Nat) (stack : List (Nat × Nat)) (states : Nat → Visit) (d : Nat),
      SearchInvariant positionsByTask states stack →
      OpenPath positionsByTask none stack →
      drainStack positionsByTask fuel stack states = .cycle d →
      Relation.TransGen (Edge positionsByTask) d d := by
  intro fuel
  induction fuel with
  | zero =>
      intro stack states d _ _ h
      cases h
  | succ fuel ih =>
      intro stack states d hinv hpath h
      cases stack with
      | nil => cases h
      | cons top stack =>
          obtain ⟨position, nextEdge⟩ := top
          unfold drainStack at h
          split at h
          · rename_i dependency hedge
            have hmem : Edge positionsByTask position dependency := List.mem_of_getElem? hedge
            have hpushed : OpenPath positionsByTask (some dependency)
                ((position, nextEdge) :: stack) :=
              ⟨by rintro a ⟨⟩; exact hmem, hpath.2⟩
            split at h
            · rename_i hstack
              cases h
              exact hpushed.reaches d (hinv.open_mem d hstack)
            · rename_i hunseen
              exact ih _ _ d (hinv.visit hedge hunseen) ⟨by simp, hpushed.1, hpath.2⟩ h
            · rename_i hdone
              exact ih _ _ d (hinv.advance hedge hdone) ⟨by simp, hpath.2⟩ h
          · rename_i hspent
            exact ih _ _ d (hinv.finish hspent) hpath.2.weaken h

theorem searchFrom_eq_cycle :
    ∀ (starts : List Nat) (states : Nat → Visit) (d : Nat),
      SearchInvariant positionsByTask states [] →
      searchFrom positionsByTask starts states = .cycle d →
      Relation.TransGen (Edge positionsByTask) d d := by
  intro starts
  induction starts with
  | nil =>
      intro states d _ h
      cases h
  | cons start starts ih =>
      intro states d hinv h
      unfold searchFrom at h
      split at h <;> rename_i hstart
      · have hpushed := hinv.push hstart rfl trivial
        split at h
        · rename_i states₁ hdrain
          exact ih _ d (drainStack_invariant _ _ _ _ hpushed hdrain).1 h
        · rename_i position hdrain
          cases h
          exact drainStack_eq_cycle _ _ _ d hpushed ⟨by simp, trivial⟩ hdrain
        · cases h
      · exact ih _ d hinv h

/-- The search accepts exactly the acyclic graphs. -/
theorem findDependencyCycle_eq_none_iff
    (hrange : ∀ p, ∀ d ∈ edgesOf positionsByTask p, d < positionsByTask.length) :
    findDependencyCycle positionsByTask = none ↔
      ∀ p, ¬ Relation.TransGen (Edge positionsByTask) p p := by
  constructor
  · intro h p hcycle
    obtain ⟨rank, hrank⟩ := findDependencyCycle_eq_none hrange h
    have hfalls : ∀ q, Relation.TransGen (Edge positionsByTask) p q → rank q < rank p := by
      intro q hq
      induction hq with
      | single hedge => exact hrank _ _ hedge
      | tail _ hedge ih => exact (hrank _ _ hedge).trans ih
    exact Nat.lt_irrefl _ (hfalls p hcycle)
  · intro hacyclic
    unfold findDependencyCycle
    split
    · rename_i position hsearch
      exact absurd (searchFrom_eq_cycle _ _ _ .start hsearch) (hacyclic position)
    · rfl
    · rfl

/-- Over any adjacency lists whose entries are in range the search ends, reports nothing
exactly when the graph is acyclic, and reports a position only if it lies on a cycle. -/
theorem findDependencyCycle_exact
    (hrange : ∀ edges ∈ positionsByTask, ∀ d ∈ edges, d < positionsByTask.length) :
    searchFrom positionsByTask (List.range positionsByTask.length) (fun _ => .unseen) ≠
      .exhausted ∧
    (findDependencyCycle positionsByTask = none ↔
      ∀ p, ¬ Relation.TransGen (Edge positionsByTask) p p) ∧
    ∀ p, findDependencyCycle positionsByTask = some p →
      Relation.TransGen (Edge positionsByTask) p p := by
  have hedges : ∀ p, ∀ d ∈ edgesOf positionsByTask p, d < positionsByTask.length := by
    intro p d hd
    by_cases hp : p < positionsByTask.length
    · rw [edgesOf, List.getD_eq_getElem?_getD, List.getElem?_eq_getElem hp, Option.getD_some] at hd
      exact hrange _ (List.getElem_mem hp) d hd
    · rw [edgesOf, List.getD_eq_getElem?_getD, List.getElem?_eq_none (Nat.le_of_not_lt hp),
        Option.getD_none] at hd
      cases hd
  refine ⟨searchFrom_ne_exhausted hedges _ _ (by simp), findDependencyCycle_eq_none_iff hedges, ?_⟩
  intro p h
  unfold findDependencyCycle at h
  split at h
  · rename_i position hsearch
    cases h
    exact searchFrom_eq_cycle _ _ _ .start hsearch
  · cases h
  · cases h

/-- Two components, an edge listed twice and a position that waits for itself. -/
theorem findDependencyCycle_exact_two_components :
    findDependencyCycle [[1, 1], [2], [1], [3]] = some 1 ∧
    Relation.TransGen (Edge [[1, 1], [2], [1], [3]]) 1 1 ∧
    findDependencyCycle [[1, 1], [2], [], [0]] = none ∧
    ∀ p, ¬ Relation.TransGen (Edge [[1, 1], [2], [], [0]]) p p := by
  have hcycle : findDependencyCycle [[1, 1], [2], [1], [3]] = some 1 := by decide
  have hnone : findDependencyCycle [[1, 1], [2], [], [0]] = none := by decide
  refine ⟨hcycle, ?_, hnone, ?_⟩
  · exact (findDependencyCycle_exact (by decide)).2.2 1 hcycle
  · exact (findDependencyCycle_exact (by decide)).2.1.mp hnone

end Completeness

/-! ## Executor bindings -/

namespace JobDefinition

/-- The executors a description binds: one for every initial task, and one for every code
a task created at runtime may use. -/
def bindings (initialTasks : List (TaskDefinition × Uuid))
    (runtimeExecutors : List (String × Uuid)) : List (String × Uuid) :=
  initialTasks.map (fun task => (task.1.code, task.2)) ++ runtimeExecutors

/-- No two bindings give one code two executors. -/
def Consistent (bindings : List (String × Uuid)) : Prop :=
  ∀ a ∈ bindings, ∀ b ∈ bindings, a.1 = b.1 → a.2 = b.2

theorem Consistent.subset {bindings bindings' : List (String × Uuid)} (h : Consistent bindings)
    (hsub : ∀ b ∈ bindings', b ∈ bindings) : Consistent bindings' :=
  fun a ha b hb => h a (hsub a ha) b (hsub b hb)

theorem registerExecutor_of_consistent {executors : List (String × Uuid)} (jobCode : String)
    {taskCode : String} {executor : Uuid} (h : Consistent ((taskCode, executor) :: executors)) :
    ∃ executors', registerExecutor executors jobCode taskCode executor = .ok executors' ∧
      ∀ b ∈ executors', b ∈ (taskCode, executor) :: executors := by
  unfold registerExecutor
  split
  · rename_i registered hlookup
    have hmem : (taskCode, registered) ∈ executors := by
      obtain ⟨before, after, hsplit, -⟩ := List.lookup_eq_some_iff.mp hlookup
      rw [hsplit]
      simp
    have hsame : registered = executor :=
      h (taskCode, registered) (by simp [hmem]) (taskCode, executor) (by simp) rfl
    rw [if_pos hsame]
    exact ⟨executors, rfl, fun b hb => by simp [hb]⟩
  · exact ⟨_, rfl, fun b hb => hb⟩

/-- Consistent bindings of valid tasks are all made. -/
theorem registerInitialTasks_of_consistent (code : String) {limits : TaskLimits}
    {tasks : List (TaskDefinition × Uuid)} :
    ∀ (position : Nat) {executors : List (String × Uuid)},
      (∀ task ∈ tasks, task.1.validate limits = .ok ()) →
      Consistent (bindings tasks executors) →
      ∃ executors', registerInitialTasks code limits position tasks executors = .ok executors' ∧
        ∀ b ∈ executors', b ∈ bindings tasks executors := by
  induction tasks with
  | nil => exact fun position executors _ _ => ⟨executors, rfl, fun b hb => hb⟩
  | cons task tasks ih =>
      intro position executors hvalid h
      have hfirst : Consistent ((task.1.code, task.2) :: executors) := by
        refine h.subset fun b hb => ?_
        rcases List.mem_cons.mp hb with rfl | hb
        · simp [bindings]
        · simp [bindings, hb]
      obtain ⟨executors₁, hregister, hmem⟩ := registerExecutor_of_consistent code hfirst
      have hsub : ∀ b ∈ bindings tasks executors₁, b ∈ bindings (task :: tasks) executors := by
        intro b hb
        rcases List.mem_append.mp hb with hb | hb
        · exact List.mem_append_left _ (List.mem_cons_of_mem _ hb)
        · rcases List.mem_cons.mp (hmem b hb) with rfl | hb
          · simp [bindings]
          · simp [bindings, hb]
      obtain ⟨executors', hrest, hmem'⟩ := ih (position + 1)
        (fun task' htask' => hvalid task' (by simp [htask'])) (h.subset hsub)
      refine ⟨executors', ?_, fun b hb => hsub b (hmem' b hb)⟩
      have hhead : task.1.validate limits = .ok () := hvalid task (by simp)
      rw [registerInitialTasks, hhead]
      exact bind_eq_ok.mpr ⟨executors₁, hregister, hrest⟩

theorem registerRuntimeExecutors_of_consistent (code : String)
    {runtimeExecutors : List (String × Uuid)} :
    ∀ {executors : List (String × Uuid)}, Consistent (executors ++ runtimeExecutors) →
      ∃ executors', registerRuntimeExecutors code runtimeExecutors executors = .ok executors' := by
  induction runtimeExecutors with
  | nil => exact fun {executors} _ => ⟨executors, rfl⟩
  | cons binding rest ih =>
      intro executors h
      have hfirst : Consistent ((binding.1, binding.2) :: executors) := by
        refine h.subset fun b hb => ?_
        rcases List.mem_cons.mp hb with rfl | hb
        · simp
        · simp [hb]
      obtain ⟨executors₁, hregister, hmem⟩ := registerExecutor_of_consistent code hfirst
      have hothers : Consistent (executors₁ ++ rest) := by
        refine h.subset fun b hb => ?_
        rcases List.mem_append.mp hb with hb | hb
        · rcases List.mem_cons.mp (hmem b hb) with rfl | hb
          · simp
          · simp [hb]
        · simp [hb]
      obtain ⟨executors', hrest⟩ := ih hothers
      exact ⟨executors', bind_eq_ok.mpr ⟨executors₁, hregister, hrest⟩⟩

/-! ## Coherent descriptions -/

/-- A reference to one of the {lit}`count` initial tasks of the description {lit}`id`. -/
def NamesPosition (id : Uuid) (count : Nat) (r : TaskRef) : Prop := ∃ q < count, r = .initial id q

/-- Position {lit}`p` waits for position {lit}`q` through one channel or the other. -/
def Waits (id : Uuid) (tasks : List TaskDefinition) (declared : List (TaskRef × List TaskRef))
    (p q : Nat) : Prop :=
  (∃ task, tasks[p]? = some task ∧ .initial id q ∈ task.dependsOn) ∨
    ∃ entry ∈ declared, entry.1 = .initial id p ∧ .initial id q ∈ entry.2

/-- A description whose two channels make sense together: every reference, the tasks
declared for included, names a position of this very description, nothing waits for
itself, and no task tolerates the outcome of dependencies it does not have. -/
structure Coherent (id : Uuid) (tasks : List TaskDefinition)
    (declared : List (TaskRef × List TaskRef)) : Prop where
  own : ∀ task ∈ tasks, ∀ r ∈ task.dependsOn, NamesPosition id tasks.length r
  targets : ∀ entry ∈ declared, NamesPosition id tasks.length entry.1
  added : ∀ entry ∈ declared, ∀ r ∈ entry.2, NamesPosition id tasks.length r
  acyclic : ∀ p, ¬ Relation.TransGen (Waits id tasks declared) p p
  tolerances : ∀ p task, tasks[p]? = some task → task.tolerance.isDeclared = true →
    ∃ q, Waits id tasks declared p q

/-- The tasks with what is declared for them added to their own dependencies. -/
def merged (id : Uuid) (tasks : List TaskDefinition) (declared : List (TaskRef × List TaskRef)) :
    List TaskDefinition :=
  tasks.mapIdx fun p d => { d with dependsOn := d.dependsOn ++ declaredFor id declared p }

section Merged

variable {id : Uuid} {tasks : List TaskDefinition} {declared : List (TaskRef × List TaskRef)}

@[simp] theorem length_merged : (merged id tasks declared).length = tasks.length := by
  simp [merged]

theorem getElem?_merged {p : Nat} :
    (merged id tasks declared)[p]? = tasks[p]?.map fun d =>
      { d with dependsOn := d.dependsOn ++ declaredFor id declared p } := by
  rw [merged, List.getElem?_mapIdx]

/-- Merged into one list, the two channels say what they said apart. -/
theorem waits_merged_iff (htargets : ∀ entry ∈ declared, NamesPosition id tasks.length entry.1)
    {p q : Nat} : Waits id (merged id tasks declared) [] p q ↔ Waits id tasks declared p q := by
  unfold Waits
  constructor
  · rintro (⟨task, htask, hr⟩ | ⟨entry, hentry, -⟩)
    · rw [getElem?_merged, Option.map_eq_some_iff] at htask
      obtain ⟨d, hd, rfl⟩ := htask
      rcases List.mem_append.mp hr with hr | hr
      · exact Or.inl ⟨d, hd, hr⟩
      · exact Or.inr (mem_declaredFor.mp hr)
    · cases hentry
  · rintro (⟨task, htask, hr⟩ | ⟨entry, hentry, hp, hr⟩)
    · refine Or.inl ⟨_, by rw [getElem?_merged, htask]; rfl, ?_⟩
      exact List.mem_append_left _ hr
    · obtain ⟨q', hlt, hq'⟩ := htargets entry hentry
      rw [hp, TaskRef.initial.injEq] at hq'
      obtain ⟨-, rfl⟩ := hq'
      obtain ⟨d, hd⟩ : ∃ d, tasks[p]? = some d := ⟨tasks[p], List.getElem?_eq_getElem hlt⟩
      refine Or.inl ⟨_, by rw [getElem?_merged, hd]; rfl, ?_⟩
      exact List.mem_append_right _ (mem_declaredFor.mpr ⟨entry, hentry, hp, hr⟩)

end Merged

/-- The position a reference to an initial task names. -/
def position : TaskRef → Nat
  | .initial _ q => q
  | .created _ => 0

/-- The edges of a resolved graph are what its tasks wait for. -/
theorem edge_iff_waits {id : Uuid} {tasks : List TaskDefinition}
    {positionsByTask : List (List Nat)}
    (h : tasks.map (·.dependsOn) = positionsByTask.map (·.map (.initial id))) :
    Edge positionsByTask = Waits id tasks [] := by
  funext p q
  rw [Edge, mem_edgesOf_iff h]
  simp [Waits]

/-- The graph a list of tasks declares is accepted exactly when its references name
positions of the list, its tolerances have something to tolerate and it has no cycle. -/
theorem validateInitialTaskDependencies_iff {id : Uuid} {jobCode : String}
    {tasks : List TaskDefinition} :
    validateInitialTaskDependencies id jobCode tasks = .ok () ↔
      (∀ task ∈ tasks, ∀ r ∈ task.dependsOn, NamesPosition id tasks.length r) ∧
        (∀ task ∈ tasks, task.isDeclaresToleranceValid = true) ∧
        ∀ p, ¬ Relation.TransGen (Waits id tasks []) p p := by
  rw [validateInitialTaskDependencies_eq_ok]
  constructor
  · rintro ⟨positionsByTask, hrefs, hrange, htolerances, hnone⟩
    refine ⟨?_, htolerances, ?_⟩
    · intro task htask r hr
      have hmem : task.dependsOn ∈ positionsByTask.map (·.map (TaskRef.initial id)) :=
        hrefs ▸ List.mem_map_of_mem htask
      obtain ⟨positions, hpositions, heq⟩ := List.mem_map.mp hmem
      rw [← heq] at hr
      obtain ⟨q, hq, rfl⟩ := List.mem_map.mp hr
      exact ⟨q, hrange positions hpositions q hq, rfl⟩
    · rw [← edge_iff_waits hrefs]
      exact (findDependencyCycle_eq_none_iff (edgesOf_lt hrefs hrange)).mp hnone
  · rintro ⟨hnames, htolerances, hacyclic⟩
    have hrefs : tasks.map (·.dependsOn) =
        (tasks.map fun task => task.dependsOn.map position).map (·.map (.initial id)) := by
      rw [List.map_map]
      refine List.map_congr_left fun task htask => ?_
      rw [Function.comp_apply, List.map_map]
      refine ((List.map_congr_left fun r hr => ?_).trans (List.map_id _)).symm
      obtain ⟨q, -, rfl⟩ := hnames task htask r hr
      rfl
    have hrange : ∀ positions ∈ tasks.map fun task => task.dependsOn.map position,
        ∀ q ∈ positions, q < tasks.length := by
      intro positions hpositions q hq
      obtain ⟨task, htask, rfl⟩ := List.mem_map.mp hpositions
      obtain ⟨r, hr, rfl⟩ := List.mem_map.mp hq
      obtain ⟨q, hlt, rfl⟩ := hnames task htask r hr
      exact hlt
    refine ⟨_, hrefs, hrange, htolerances, ?_⟩
    rw [findDependencyCycle_eq_none_iff (edgesOf_lt hrefs hrange), edge_iff_waits hrefs]
    exact hacyclic

/-- The merged graph is accepted exactly when the two channels are coherent. -/
theorem coherent_iff {id : Uuid} (jobCode : String) {tasks : List TaskDefinition}
    {declared : List (TaskRef × List TaskRef)}
    (htargets : ∀ entry ∈ declared, NamesPosition id tasks.length entry.1) :
    validateInitialTaskDependencies id jobCode (merged id tasks declared) = .ok () ↔
      Coherent id tasks declared := by
  have hwaits : Waits id (merged id tasks declared) [] = Waits id tasks declared := by
    funext p q
    exact propext (waits_merged_iff htargets)
  rw [validateInitialTaskDependencies_iff, length_merged, hwaits]
  have hat : ∀ {p : Nat} {d : TaskDefinition}, tasks[p]? = some d →
      { d with dependsOn := d.dependsOn ++ declaredFor id declared p } ∈
        merged id tasks declared := by
    intro p d hd
    refine List.mem_of_getElem? (i := p) ?_
    rw [getElem?_merged, hd]
    rfl
  constructor
  · rintro ⟨hnames, htolerances, hacyclic⟩
    refine ⟨?_, htargets, ?_, hacyclic, ?_⟩
    · intro task htask r hr
      obtain ⟨p, hp⟩ := List.mem_iff_getElem?.mp htask
      exact hnames _ (hat hp) r (List.mem_append_left _ hr)
    · intro entry hentry r hr
      obtain ⟨p, hlt, htarget⟩ := htargets entry hentry
      refine hnames _ (hat (List.getElem?_eq_getElem hlt)) r (List.mem_append_right _ ?_)
      exact mem_declaredFor.mpr ⟨entry, hentry, htarget, hr⟩
    · intro p task hp hdeclared
      have hvalid := htolerances _ (hat hp)
      simp only [TaskDefinition.isDeclaresToleranceValid, hdeclared, Bool.true_and,
        Bool.not_eq_true', List.isEmpty_eq_false_iff_exists_mem] at hvalid
      obtain ⟨r, hr⟩ := hvalid
      obtain ⟨q, -, rfl⟩ := hnames _ (hat hp) r hr
      refine ⟨q, ?_⟩
      rcases List.mem_append.mp hr with hr | hr
      · exact Or.inl ⟨task, hp, hr⟩
      · exact Or.inr (mem_declaredFor.mp hr)
  · intro hcoherent
    refine ⟨?_, ?_, hcoherent.acyclic⟩
    · intro task htask r hr
      obtain ⟨p, hp⟩ := List.mem_iff_getElem?.mp htask
      rw [getElem?_merged, Option.map_eq_some_iff] at hp
      obtain ⟨d, hd, rfl⟩ := hp
      rcases List.mem_append.mp hr with hr | hr
      · exact hcoherent.own d (List.mem_of_getElem? hd) r hr
      · obtain ⟨entry, hentry, -, hr⟩ := mem_declaredFor.mp hr
        exact hcoherent.added entry hentry r hr
    · intro task htask
      obtain ⟨p, hp⟩ := List.mem_iff_getElem?.mp htask
      have hwaitsp : ∀ q, Waits id tasks declared p q → .initial id q ∈ task.dependsOn := by
        intro q hq
        rcases waits_merged_iff htargets |>.mpr hq with ⟨task', htask', hr⟩ | ⟨_, hnil, -⟩
        · rw [hp, Option.some.injEq] at htask'
          exact htask' ▸ hr
        · cases hnil
      rw [getElem?_merged, Option.map_eq_some_iff] at hp
      obtain ⟨d, hd, rfl⟩ := hp
      rw [TaskDefinition.isDeclaresToleranceValid]
      cases hdeclared : d.tolerance.isDeclared with
      | false => rfl
      | true =>
          obtain ⟨q, hq⟩ := hcoherent.tolerances p d hd hdeclared
          simpa using List.ne_nil_of_mem (hwaitsp q hq)

section Acceptance

variable {id : Uuid} {code : String} {initialTasks : List (TaskDefinition × Uuid)}
  {runtimeExecutors : List (String × Uuid)}
  {declaredDependencies : List (TaskRef × List TaskRef)} {taskLimits : TaskLimits}

/-- What an accepted description keeps of its two channels. -/
theorem coherent_of_new {d : JobDefinition}
    (h : new id code initialTasks runtimeExecutors declaredDependencies taskLimits = .ok d) :
    Coherent id (initialTasks.map Prod.fst) declaredDependencies ∧
      d.initialTasks = merged id (initialTasks.map Prod.fst) declaredDependencies := by
  obtain ⟨-, _, _, _, -, -, hmerge, hvalidate, rfl⟩ := new_eq_ok.mp h
  obtain ⟨htargets, rfl⟩ := mergeDeclaredDependencies_eq_ok.mp hmerge
  exact ⟨(coherent_iff code htargets).mp hvalidate, rfl⟩

/-- Valid tasks bound to their executors consistently are accepted exactly when the
description is coherent. -/
theorem exists_new_eq_ok_iff (hne : initialTasks ≠ [])
    (hvalid : ∀ task ∈ initialTasks, task.1.validate taskLimits = .ok ())
    (hconsistent : Consistent (bindings initialTasks runtimeExecutors)) :
    (∃ d, new id code initialTasks runtimeExecutors declaredDependencies taskLimits = .ok d) ↔
      Coherent id (initialTasks.map Prod.fst) declaredDependencies := by
  constructor
  · rintro ⟨d, h⟩
    exact (coherent_of_new h).1
  · intro hcoherent
    obtain ⟨executors, hinitial, hmem⟩ := registerInitialTasks_of_consistent code 0 hvalid
      (hconsistent.subset (fun b hb => by
        rw [bindings, List.append_nil] at hb
        exact List.mem_append_left _ hb) : Consistent (bindings initialTasks []))
    obtain ⟨executors', hruntime⟩ := registerRuntimeExecutors_of_consistent code
      (hconsistent.subset (fun b hb => by
        rcases List.mem_append.mp hb with hb | hb
        · have hfirst := hmem b hb
          rw [bindings, List.append_nil] at hfirst
          exact List.mem_append_left _ hfirst
        · exact List.mem_append_right _ hb) : Consistent (executors ++ runtimeExecutors))
    refine ⟨_, new_eq_ok.mpr ⟨hne, executors, executors', _, hinitial, hruntime,
      mergeDeclaredDependencies_eq_ok.mpr ⟨hcoherent.targets, rfl⟩, ?_, rfl⟩⟩
    exact (coherent_iff code hcoherent.targets).mpr hcoherent

end Acceptance

end JobDefinition

/-! ## Planning what was accepted -/

namespace Job

theorem exists_resolvePositions {ids : List Uuid} {refs : List TaskRef}
    (h : ∀ r ∈ refs, ∃ owner q, r = .initial owner q ∧ q < ids.length) :
    ∃ resolved, resolvePositions ids refs = .ok resolved := by
  refine ⟨refs.map fun r => (resolvedId ids r).getD 0, resolvePositions_eq_ok.mpr ?_⟩
  rw [List.map_map]
  refine List.map_congr_left fun r hr => ?_
  obtain ⟨owner, q, rfl, hlt⟩ := h r hr
  simp [resolvedId, List.getElem?_eq_getElem hlt]

/-- Planning fails on no list of tasks whose references name positions of it. -/
theorem exists_planTasks (ids : List Uuid) (w : Uuid) (taskDefs : List TaskDefinition) :
    ∀ (position : Nat) (tasks : TaskMap), position + taskDefs.length ≤ ids.length →
      (∀ taskDef ∈ taskDefs, ∀ r ∈ taskDef.dependsOn,
        ∃ owner q, r = .initial owner q ∧ q < ids.length) →
      ∃ m, planTasks ids w position taskDefs tasks = .ok m := by
  induction taskDefs with
  | nil => exact fun position tasks _ _ => ⟨tasks, rfl⟩
  | cons taskDef taskDefs ih =>
      intro position tasks hle hrefs
      rw [List.length_cons] at hle
      obtain ⟨resolved, hresolved⟩ := exists_resolvePositions (hrefs taskDef (by simp))
      have hid : ids[position]? = some ids[position] := List.getElem?_eq_getElem (by omega)
      obtain ⟨m, hm⟩ := ih (position + 1)
        (tasks.insert (Task.new ids[position] w none taskDef resolved)) (by omega)
        (fun taskDef' htaskDef' => hrefs taskDef' (by simp [htaskDef']))
      refine ⟨m, ?_⟩
      rw [planTasks, JobManager.bind_eq_ok]
      refine ⟨resolved, hresolved, ?_⟩
      rw [hid]
      exact hm

/-- Planned under distinct identifiers, every position has its own task, and nothing else
appears. -/
theorem get_planTasks {ids : List Uuid} (hnodup : ids.Nodup) {w : Uuid}
    {taskDefs : List TaskDefinition} :
    ∀ {position : Nat} {tasks m : TaskMap}, planTasks ids w position taskDefs tasks = .ok m →
      (∀ k taskDef a, taskDefs[k]? = some taskDef → ids[position + k]? = some a →
        ∃ resolved, resolvePositions ids taskDef.dependsOn = .ok resolved ∧
          m.get a = some (Task.new a w none taskDef resolved)) ∧
      ∀ a, (∀ k < taskDefs.length, ids[position + k]? ≠ some a) → m.get a = tasks.get a := by
  induction taskDefs with
  | nil =>
      intro position tasks m h
      cases h
      exact ⟨by simp, fun _ _ => rfl⟩
  | cons taskDef taskDefs ih =>
      intro position tasks m h
      rw [planTasks, JobManager.bind_eq_ok] at h
      obtain ⟨resolved, hresolved, h⟩ := h
      split at h
      · cases h
      · rename_i id hid
        obtain ⟨hat, hother⟩ := ih h
        -- a later position has another identifier, so it does not overwrite this one
        have hlater : ∀ k, ids[position + 1 + k]? ≠ some id := by
          intro k hk
          have hlt := (List.getElem?_eq_some_iff.mp hid).1
          have := (List.getElem?_inj hlt hnodup).mp (hid.trans hk.symm)
          omega
        refine ⟨?_, ?_⟩
        · intro k taskDef' a htaskDef' ha
          cases k with
          | zero =>
              rw [List.getElem?_cons_zero, Option.some.injEq] at htaskDef'
              rw [Nat.add_zero, hid, Option.some.injEq] at ha
              subst htaskDef' ha
              refine ⟨resolved, hresolved, ?_⟩
              rw [hother id (fun k _ => hlater k)]
              exact KeyedMap.get_insert_self tasks (Task.new id w none taskDef resolved)
          | succ k =>
              rw [List.getElem?_cons_succ] at htaskDef'
              exact hat k taskDef' a htaskDef' (by rw [← ha]; congr 1; omega)
        · intro a ha
          rw [hother a (fun k hk => ?_)]
          · refine KeyedMap.get_insert_of_ne tasks ?_
            intro hida
            have hne := ha 0 (by simp)
            rw [Nat.add_zero, hid] at hne
            exact hne (congrArg some hida)
          · have hne := ha (k + 1) (by simpa using hk)
            rwa [← Nat.add_assoc, Nat.add_right_comm] at hne

/-- An iteration realizes a graph over positions: it holds one task for every position,
under the identifier of that position, a task waits for another exactly when their
positions do, and it begins blocked when it waits for any and ready otherwise. -/
structure Realizes (tasks : List TaskDefinition) (waits : Nat → Nat → Prop) (ids : List Uuid)
    (job : Job) : Prop where
  covers : ∀ (p : Nat) (task : TaskDefinition), tasks[p]? = some task → ∃ a t,
    ids[p]? = some a ∧ job.task? a = some t ∧ t.code = task.code ∧ t.tolerance = task.tolerance
  onto : ∀ a t, job.task? a = some t → ∃ p < tasks.length, ids[p]? = some a
  dependsOn : ∀ a b, DependsOn job.tasksById a b ↔
    ∃ p q, waits p q ∧ ids[p]? = some a ∧ ids[q]? = some b
  blocked : ∀ a t, job.task? a = some t →
    (t.status = .blocked ↔ ∃ b, DependsOn job.tasksById a b)
  todo : ∀ a t, job.task? a = some t →
    (t.status = .todo ↔ ¬ ∃ b, DependsOn job.tasksById a b)

section Realizes

variable {id : Uuid} {tasks : List TaskDefinition} {declared : List (TaskRef × List TaskRef)}
  {ids : List Uuid}

/-- The references of a coherent description resolve to positions of it. -/
theorem names_of_coherent (hcoherent : JobDefinition.Coherent id tasks declared) :
    ∀ task ∈ JobDefinition.merged id tasks declared, ∀ r ∈ task.dependsOn,
      ∃ q < tasks.length, r = .initial id q := by
  have hvalid := (JobDefinition.coherent_iff "" hcoherent.targets).mpr hcoherent
  have hnames := (JobDefinition.validateInitialTaskDependencies_iff.mp hvalid).1
  rwa [JobDefinition.length_merged] at hnames

/-- The tasks of a planned map: each stands at one position, and every position has one,
whose dependencies are what its references resolve to. -/
theorem get_planTasks_merged (hlen : ids.length = tasks.length) (hnodup : ids.Nodup) {w : Uuid}
    {m : TaskMap}
    (h : planTasks ids w 0 (JobDefinition.merged id tasks declared) KeyedMap.empty = .ok m) :
    (∀ a t, m.get a = some t → ∃ p < tasks.length, ids[p]? = some a) ∧
      ∀ (p : Nat) a, ids[p]? = some a → ∃ d resolved,
        (JobDefinition.merged id tasks declared)[p]? = some d ∧
          resolvePositions ids d.dependsOn = .ok resolved ∧
          m.get a = some (Task.new a w none d resolved) := by
  obtain ⟨hat, hother⟩ := get_planTasks hnodup h
  simp only [Nat.zero_add, JobDefinition.length_merged] at hat hother
  constructor
  · intro a t ht
    by_contra hnone
    push Not at hnone
    have hget := hother a hnone
    rw [KeyedMap.get_empty] at hget
    cases ht.symm.trans hget
  · intro p a ha
    have hp : p < (JobDefinition.merged id tasks declared).length := by
      have := (List.getElem?_eq_some_iff.mp ha).1
      rw [JobDefinition.length_merged]
      omega
    have hd := List.getElem?_eq_getElem hp
    obtain ⟨resolved, hresolved, hget⟩ := hat p _ a hd ha
    exact ⟨_, resolved, hd, hresolved, hget⟩

/-- Planning a coherent description realizes the union of its channels. -/
theorem realizes_of_planTasks (hcoherent : JobDefinition.Coherent id tasks declared)
    (hlen : ids.length = tasks.length) (hnodup : ids.Nodup) {w : Uuid} {job : Job}
    (h : planTasks ids w 0 (JobDefinition.merged id tasks declared) KeyedMap.empty =
      .ok job.tasksById) :
    Realizes tasks (JobDefinition.Waits id tasks declared) ids job := by
  obtain ⟨hpositioned, hplanned⟩ := get_planTasks_merged hlen hnodup h
  have hstatus : ∀ {a t}, job.task? a = some t →
      (t.status = .blocked ↔ t.dependsOn ≠ []) ∧ (t.status = .todo ↔ t.dependsOn = []) := by
    intro a t ht
    obtain ⟨p, -, ha⟩ := hpositioned a t ht
    obtain ⟨d, resolved, -, -, hget⟩ := hplanned p a ha
    cases ht.symm.trans hget
    exact ⟨Task.status_new_eq_blocked, Task.status_new_eq_todo⟩
  have hdepends : ∀ {a t}, job.task? a = some t →
      ((∃ b, DependsOn job.tasksById a b) ↔ t.dependsOn ≠ []) := by
    intro a t ht
    constructor
    · rintro ⟨b, t', ht', hb⟩
      cases ht.symm.trans ht'
      exact List.ne_nil_of_mem hb
    · intro hne
      obtain ⟨b, hb⟩ := List.exists_mem_of_ne_nil _ hne
      exact ⟨b, t, ht, hb⟩
  refine ⟨?_, hpositioned, ?_, ?_, ?_⟩
  · intro p task htask
    have hp := (List.getElem?_eq_some_iff.mp htask).1
    have ha : ids[p]? = some ids[p] := List.getElem?_eq_getElem (by omega)
    obtain ⟨d, resolved, hd, -, hget⟩ := hplanned p _ ha
    refine ⟨ids[p], _, ha, hget, ?_⟩
    rw [JobDefinition.getElem?_merged, htask] at hd
    cases hd
    exact ⟨rfl, rfl⟩
  · intro a b
    constructor
    · rintro ⟨t, ht, hb⟩
      obtain ⟨p, -, ha⟩ := hpositioned a t ht
      obtain ⟨d, resolved, hd, hresolved, hget⟩ := hplanned p a ha
      cases ht.symm.trans hget
      obtain ⟨owner, q, hr, hq⟩ := mem_of_resolvePositions hresolved b hb
      obtain ⟨q', -, hname⟩ := names_of_coherent hcoherent d (List.mem_of_getElem? hd) _ hr
      cases hname
      exact ⟨p, q, (JobDefinition.waits_merged_iff hcoherent.targets).mp (Or.inl ⟨d, hd, hr⟩),
        ha, hq⟩
    · rintro ⟨p, q, hwaits, ha, hb⟩
      obtain ⟨d, resolved, hd, hresolved, hget⟩ := hplanned p a ha
      refine ⟨_, hget, ?_⟩
      rcases (JobDefinition.waits_merged_iff hcoherent.targets).mpr hwaits with
        ⟨d', hd', hr⟩ | ⟨_, hnil, -⟩
      · cases hd.symm.trans hd'
        exact mem_resolved_of_resolvePositions hresolved hr hb
      · cases hnil
  · intro a t ht
    rw [hdepends ht]
    exact (hstatus ht).1
  · intro a t ht
    rw [hdepends ht, not_not]
    exact (hstatus ht).2

end Realizes

end Job

/-! ## Acceptance and planning agree -/

namespace JobDefinition

/-- A description after any accepted setters. -/
inductive Adjusted (d : JobDefinition) : JobDefinition → Prop where
  | refl : Adjusted d d
  | maxIterations {d' d'' n} : Adjusted d d' → d'.withMaxIterations n = .ok d'' → Adjusted d d''
  | retention {d' d'' n} : Adjusted d d' → d'.withIterationRetention n = .ok d'' →
      Adjusted d d''
  | interval {d' d'' n} : Adjusted d d' → d'.withIterationInterval n = .ok d'' →
      Adjusted d d''

theorem Adjusted.initialTasks_eq {d d' : JobDefinition} (h : Adjusted d d') :
    d'.initialTasks = d.initialTasks := by
  induction h with
  | refl => rfl
  | maxIterations _ h ih =>
      obtain ⟨-, rfl⟩ := withMaxIterations_eq_ok.mp h
      exact ih
  | retention _ h ih =>
      obtain ⟨-, rfl⟩ := withIterationRetention_eq_ok.mp h
      exact ih
  | interval _ h ih =>
      obtain rfl := withIterationInterval_eq_ok h
      exact ih

theorem registerInitialTasks_validate {code : String} {limits : TaskLimits}
    {tasks : List (TaskDefinition × Uuid)} :
    ∀ {position : Nat} {executors executors' : List (String × Uuid)},
      registerInitialTasks code limits position tasks executors = .ok executors' →
      ∀ task ∈ tasks, task.1.validate limits = .ok () := by
  induction tasks with
  | nil => simp
  | cons task tasks ih =>
      intro position executors executors' h task' htask'
      rw [registerInitialTasks] at h
      split at h
      · rename_i hvalid
        dsimp only at h
        rw [bind_eq_ok] at h
        obtain ⟨executors₁, -, h⟩ := h
        rcases List.mem_cons.mp htask' with rfl | htask'
        · exact hvalid
        · exact ih h task' htask'
      · cases h

/-- The initial tasks of an accepted description are valid, whatever was declared for
them. -/
theorem Accepted.validate {d : JobDefinition} (h : Accepted d) :
    ∀ taskDef ∈ d.initialTasks, taskDef.validate d.taskLimits = .ok () := by
  obtain ⟨_, _, _, _, _, _, base, hnew, htasks, -, hlimits⟩ := h.exists_new
  rw [htasks, hlimits]
  obtain ⟨-, _, _, _, hinitial, -, hmerge, -, rfl⟩ := new_eq_ok.mp hnew
  obtain ⟨-, rfl⟩ := mergeDeclaredDependencies_eq_ok.mp hmerge
  intro taskDef htaskDef
  obtain ⟨p, hp, rfl⟩ := List.mem_mapIdx.mp htaskDef
  rw [List.getElem_map]
  exact registerInitialTasks_validate hinitial _ (List.getElem_mem _)

section Planning

variable {id : Uuid} {tasks : List TaskDefinition} {declared : List (TaskRef × List TaskRef)}
  {d : JobDefinition} {ids : List Uuid}

/-- A coherent description is planned under any identifiers, one for every position. -/
theorem exists_job_new (hcoherent : Coherent id tasks declared)
    (hd : d.initialTasks = merged id tasks declared) (hlen : ids.length = tasks.length)
    (hnodup : ids.Nodup) (metadata : Metadata) (w jobId : Uuid) (now : Nat) :
    ∃ job, Job.new d metadata w jobId ids now = .ok job ∧
      Job.Realizes tasks (Waits id tasks declared) ids job := by
  have hrefs : ∀ task ∈ merged id tasks declared, ∀ r ∈ task.dependsOn,
      ∃ owner q, r = .initial owner q ∧ q < ids.length := by
    intro task htask r hr
    obtain ⟨q, hlt, rfl⟩ := Job.names_of_coherent hcoherent task htask r hr
    exact ⟨id, q, rfl, by omega⟩
  obtain ⟨m, hm⟩ := Job.exists_planTasks ids w (merged id tasks declared) 0 KeyedMap.empty
    (by rw [length_merged]; omega) hrefs
  refine ⟨_, bind_eq_ok.mpr ⟨m, by rw [hd]; exact hm, rfl⟩, ?_⟩
  exact Job.realizes_of_planTasks hcoherent hlen hnodup hm

/-- A closed iteration that allows the next one is followed by it. -/
theorem exists_job_nextIteration (hcoherent : Coherent id tasks declared)
    (hd : d.initialTasks = merged id tasks declared) (hlen : ids.length = tasks.length)
    (hnodup : ids.Nodup) (w mintedJobId : Uuid) {now : Nat} {job : Job}
    (hready : job.isReadyToNextIteration now = true) :
    ∃ job', Job.nextIteration d w mintedJobId ids now job = (.ok (), job') ∧
      Job.Realizes tasks (Waits id tasks declared) ids job' := by
  obtain ⟨newJob, hnew, hrealizes⟩ := exists_job_new hcoherent hd hlen hnodup job.metadata w
    mintedJobId now
  have hclosed : job.status.allows .started = true := by
    have hstatus := (Job.findIterationStatus_eq_ready.mp (by
      simpa [Job.isReadyToNextIteration] using hready)).1
    cases hs : job.status <;>
      simp_all [JobStatus.allows, Job.isProcessed, Job.iterationVerdict]
  refine ⟨{ newJob with id := job.id, iterNum := job.iterNum + 1, startedAt := now }, ?_, ?_⟩
  · rw [Job.nextIteration, Mutation.current_bind_apply, if_neg (by simp [hready]),
      Mutation.ofExcept_bind_eq_ok]
    refine ⟨(), by rw [JobStatus.canTransitionTo, if_pos hclosed], ?_⟩
    rw [Mutation.ofExcept_bind_eq_ok]
    exact ⟨newJob, hnew, rfl⟩
  · exact ⟨hrealizes.covers, hrealizes.onto, hrealizes.dependsOn, hrealizes.blocked,
      hrealizes.todo⟩

end Planning

/-- A description of valid tasks, consistently bound, is accepted exactly when its two
channels are coherent; and whatever was accepted, however adjusted, is planned without
fail as a first and as a next iteration, whose tasks wait for each other as the union of
the channels says, position by position, under any distinct identifiers. -/
theorem acceptance_agrees (id : Uuid) (code : String)
    (initialTasks : List (TaskDefinition × Uuid)) (runtimeExecutors : List (String × Uuid))
    (declaredDependencies : List (TaskRef × List TaskRef)) (taskLimits : TaskLimits) :
    (initialTasks ≠ [] → (∀ task ∈ initialTasks, task.1.validate taskLimits = .ok ()) →
      Consistent (bindings initialTasks runtimeExecutors) →
      ((∃ d, new id code initialTasks runtimeExecutors declaredDependencies taskLimits = .ok d) ↔
        Coherent id (initialTasks.map Prod.fst) declaredDependencies)) ∧
    ∀ d d', new id code initialTasks runtimeExecutors declaredDependencies taskLimits = .ok d →
      Adjusted d d' → ∀ (w : Uuid) (ids : List Uuid), ids.length = d'.initialTasks.length →
      ids.Nodup →
      (∀ metadata jobId now, ∃ job, Job.new d' metadata w jobId ids now = .ok job ∧
        Job.Realizes (initialTasks.map Prod.fst)
          (Waits id (initialTasks.map Prod.fst) declaredDependencies) ids job) ∧
      ∀ mintedJobId now job, job.isReadyToNextIteration now = true →
        ∃ job', Job.nextIteration d' w mintedJobId ids now job = (.ok (), job') ∧
          Job.Realizes (initialTasks.map Prod.fst)
            (Waits id (initialTasks.map Prod.fst) declaredDependencies) ids job' := by
  refine ⟨exists_new_eq_ok_iff, ?_⟩
  intro d d' hnew hadjusted w ids hlen hnodup
  obtain ⟨hcoherent, hmerged⟩ := coherent_of_new hnew
  have hd := hadjusted.initialTasks_eq.trans hmerged
  rw [hd, length_merged] at hlen
  exact ⟨fun metadata jobId now => exists_job_new hcoherent hd hlen hnodup metadata w jobId now,
    fun mintedJobId now job hready =>
      exists_job_nextIteration hcoherent hd hlen hnodup w mintedJobId hready⟩

/-- Three tasks: the second declares what it tolerates, the third waits for the first. -/
def threeTasks : List (TaskDefinition × Uuid) :=
  [(.new "first" (milliseconds 1000), 1),
    ({ TaskDefinition.new "second" (milliseconds 1000) with tolerance := ⟨true, false⟩ }, 2),
    ({ TaskDefinition.new "third" (milliseconds 1000) with dependsOn := [.initial 7 0] }, 3)]

/-- The second task is told what it waits for, and the third is given one more. -/
def threeDeclared : List (TaskRef × List TaskRef) :=
  [(.initial 7 1, [.initial 7 0]), (.initial 7 2, [.initial 7 1])]

/-- Described through both channels, the third task waits for one task of its own and for
one it is given. -/
theorem threeTasks_agree :
    ∃ d, new 7 "job" threeTasks [("third", 3)] threeDeclared .default = .ok d ∧
      ∃ job, Job.new d [] 100 900 [11, 12, 13] 0 = .ok job ∧
        (DependsOn job.tasksById 13 11 ∧ DependsOn job.tasksById 13 12) ∧
        ∃ t, job.task? 13 = some t ∧ t.status = .blocked := by
  obtain ⟨d, hnew⟩ : ∃ d, new 7 "job" threeTasks [("third", 3)] threeDeclared .default = .ok d :=
    ⟨_, rfl⟩
  have hlen : [11, 12, 13].length = d.initialTasks.length := by
    rw [(coherent_of_new hnew).2, length_merged]
    rfl
  obtain ⟨job, hjob, hrealizes⟩ :=
    ((acceptance_agrees 7 "job" threeTasks [("third", 3)] threeDeclared .default).2 d d hnew .refl
      100 [11, 12, 13] hlen (by decide)).1 [] 900 0
  have hfirst := (hrealizes.dependsOn 13 11).mpr
    ⟨2, 0, Or.inl ⟨_, rfl, by simp⟩, rfl, rfl⟩
  have hsecond := (hrealizes.dependsOn 13 12).mpr
    ⟨2, 1, Or.inr ⟨(.initial 7 2, [.initial 7 1]), by simp [threeDeclared], rfl, by simp⟩, rfl,
      rfl⟩
  refine ⟨d, hnew, job, hjob, ⟨hfirst, hsecond⟩, ?_⟩
  obtain ⟨t, ht, hmem⟩ := hfirst
  exact ⟨t, ht, (hrealizes.blocked 13 t ht).mpr ⟨11, t, ht, hmem⟩⟩

end JobDefinition

end JobManager
