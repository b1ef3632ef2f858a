import JobManager.Core.Task
import Mathlib.Logic.Function.Basic
import Mathlib.Algebra.Order.BigOperators.Group.List
import Mathlib.Algebra.Order.Group.Nat

/-!
# Job descriptions

A job description is checked once, when it is assembled: every initial task is
validated, every dependency reference is resolved to a position of this very
description, and the resulting graph is searched for a cycle by a depth-first
search with an explicit stack.

Main results:

- Theorem {lit}`findDependencyCycle_eq_none`: a graph the search accepts has a
  rank that every dependency lies strictly below.
- Theorem {lit}`JobDefinition.new_wellFormed`: an accepted description has at
  least one initial task, and its dependencies are ranked positions of itself.
-/

namespace JobManager

/-- Public error of the crate, in the one form a description is refused with. -/
inductive Error where
  | other (message : String)
deriving DecidableEq

/-- Number of most recent iterations of a job kept in storage by default. -/
def defaultIterationRetention : Nat := 100

/-- Smallest accepted iteration retention. -/
def minIterationRetention : Nat := 5

/-- Immutable job definition with initial tasks and executors.  An executor is
known here only by its identity. -/
structure JobDefinition where
  code : String
  initialTasks : List TaskDefinition
  taskExecutors : List (String × Uuid)
  maxIterations : Option Nat
  iterationInterval : Option Nat
  taskLimits : TaskLimits
  iterationRetention : Nat
deriving DecidableEq

/-! ## Cycle search -/

/-- Progress of the depth-first search on one position. -/
inductive Visit where
  | unseen
  | onStack
  | done
deriving DecidableEq

/-- Result of draining the stack of the search. -/
inductive Drained where
  | cycle (position : Nat)
  | drained (states : Nat → Visit)
  | exhausted

/-- Dependencies of a position. -/
def edgesOf (positionsByTask : List (List Nat)) (position : Nat) : List Nat :=
  positionsByTask.getD position []

/-- The `while let` loop of the search: pop a position with its next edge, follow
the edge, and mark the position done once its edges are spent. -/
def drainStack (positionsByTask : List (List Nat)) :
    Nat → List (Nat × Nat) → (Nat → Visit) → Drained
  | 0, _, _ => .exhausted
  | _ + 1, [], states => .drained states
  | fuel + 1, (position, nextEdge) :: stack, states =>
      match (edgesOf positionsByTask position)[nextEdge]? with
      | some dependency =>
          match states dependency with
          | .onStack => .cycle dependency
          | .unseen =>
              drainStack positionsByTask fuel
                ((dependency, 0) :: (position, nextEdge + 1) :: stack)
                (Function.update states dependency .onStack)
          | .done =>
              drainStack positionsByTask fuel ((position, nextEdge + 1) :: stack) states
      | none =>
          drainStack positionsByTask fuel stack (Function.update states position .done)

/-- Steps the whole search may take: two per position and one per edge. -/
def searchFuel (positionsByTask : List (List Nat)) : Nat :=
  (positionsByTask.map fun edges => edges.length + 2).sum + 1

/-- The `for start in 0..len` loop of the search. -/
def searchFrom (positionsByTask : List (List Nat)) :
    List Nat → (Nat → Visit) → Drained
  | [], states => .drained states
  | start :: rest, states =>
      if states start = .unseen then
        match drainStack positionsByTask (searchFuel positionsByTask) [(start, 0)]
            (Function.update states start .onStack) with
        | .drained states' => searchFrom positionsByTask rest states'
        | .cycle position => .cycle position
        | .exhausted => .exhausted
      else searchFrom positionsByTask rest states

/-- Position of a task that lies on a dependency cycle, or nothing when the graph
is acyclic. -/
def findDependencyCycle (positionsByTask : List (List Nat)) : Option Nat :=
  match searchFrom positionsByTask (List.range positionsByTask.length)
      (fun _ => .unseen) with
  | .cycle position => some position
  | .drained _ | .exhausted => none

/-! ### The search does not run out of fuel -/

section Fuel

variable (positionsByTask : List (List Nat))

/-- Work still owed to positions nobody has seen. -/
def unseenWork (states : Nat → Visit) : Nat :=
  ((List.range positionsByTask.length).map fun p =>
    if states p = .unseen then (edgesOf positionsByTask p).length + 2 else 0).sum

/-- Work still owed to the positions on the stack. -/
def stackWork : List (Nat × Nat) → Nat
  | [] => 0
  | (p, e) :: stack => ((edgesOf positionsByTask p).length - e) + 1 + stackWork stack

variable {positionsByTask}

private theorem sum_map_update_lt {l : List Nat} {f g : Nat → Nat} {p c : Nat}
    (hl : l.Nodup) (hp : p ∈ l) (hne : ∀ q ∈ l, q ≠ p → g q ≤ f q) (hc : g p + c ≤ f p) :
    (l.map g).sum + c ≤ (l.map f).sum := by
  induction l with
  | nil => simp at hp
  | cons q l ih =>
      rw [List.nodup_cons] at hl
      simp only [List.map_cons, List.sum_cons]
      by_cases hqp : q = p
      · subst hqp
        have hrest : (l.map g).sum ≤ (l.map f).sum := by
          apply List.sum_le_sum
          intro r hr
          exact hne r (by simp [hr]) fun h => hl.1 (h ▸ hr)
        omega
      · have hpl : p ∈ l := by
          rcases List.mem_cons.mp hp with h | h
          · exact absurd h.symm hqp
          · exact h
        have hq := hne q (by simp) hqp
        have := ih hl.2 hpl fun r hr hrp => hne r (by simp [hr]) hrp
        omega

private theorem unseenWork_update_onStack {states : Nat → Visit} {p : Nat}
    (hp : p < positionsByTask.length) (hunseen : states p = .unseen) :
    unseenWork positionsByTask (Function.update states p .onStack) +
        ((edgesOf positionsByTask p).length + 2) ≤ unseenWork positionsByTask states := by
  unfold unseenWork
  apply sum_map_update_lt (p := p) List.nodup_range (by simpa using hp)
  · intro q _ hq
    simp [Function.update_of_ne hq]
  · simp [hunseen]

private theorem unseenWork_update_done_le (positionsByTask : List (List Nat))
    (states : Nat → Visit) (p : Nat) :
    unseenWork positionsByTask (Function.update states p .done) ≤
      unseenWork positionsByTask states := by
  unfold unseenWork
  apply List.sum_le_sum
  intro q _
  by_cases hq : q = p
  · subst hq
    simp
  · simp [Function.update_of_ne hq]

/-- The search of one component has fuel enough. -/
theorem drainStack_ne_exhausted
    (hrange : ∀ p, ∀ d ∈ edgesOf positionsByTask p, d < positionsByTask.length) :
    ∀ (fuel : Nat) (stack : List (Nat × Nat)) (states : Nat → Visit),
      stackWork positionsByTask stack + unseenWork positionsByTask states < fuel →
      drainStack positionsByTask fuel stack states ≠ .exhausted := by
  intro fuel
  induction fuel with
  | zero =>
      intro stack states h
      omega
  | succ fuel ih =>
      intro stack states h
      cases stack with
      | nil => simp [drainStack]
      | cons top stack =>
          obtain ⟨position, nextEdge⟩ := top
          simp only [stackWork] at h
          unfold drainStack
          split
          · rename_i dependency hedge
            have hlt := (List.getElem?_eq_some_iff.mp hedge).1
            have hmem : dependency ∈ edgesOf positionsByTask position :=
              List.mem_of_getElem? hedge
            split
            · simp
            · rename_i hunseen
              apply ih
              have := unseenWork_update_onStack (hrange _ _ hmem) hunseen
              simp only [stackWork]
              omega
            · apply ih
              simp only [stackWork]
              omega
          · apply ih
            have := unseenWork_update_done_le positionsByTask states position
            omega

private theorem unseenWork_lt_searchFuel (positionsByTask : List (List Nat))
    (states : Nat → Visit) :
    unseenWork positionsByTask states < searchFuel positionsByTask := by
  have hle : unseenWork positionsByTask states ≤
      ((List.range positionsByTask.length).map fun p =>
        (edgesOf positionsByTask p).length + 2).sum := by
    unfold unseenWork
    apply List.sum_le_sum
    intro p _
    split <;> omega
  have heq : (List.range positionsByTask.length).map (fun p =>
      (edgesOf positionsByTask p).length + 2) =
      positionsByTask.map fun edges => edges.length + 2 := by
    apply List.ext_getElem
    · simp
    · intro i h₁ h₂
      simp only [List.length_map] at h₂
      simp [edgesOf, List.getD, List.getElem?_eq_getElem h₂]
  unfold searchFuel
  rw [heq] at hle
  omega

end Fuel

/-! ### What the search leaves behind -/

section Soundness

variable {positionsByTask : List (List Nat)}

/-- The stack holds one open path: below the top, the edge a position follows next
to its last leads to the position above it; every earlier edge leads to a position
the search is done with. -/
def StackPath (positionsByTask : List (List Nat)) (states : Nat → Visit) :
    Option Nat → List (Nat × Nat) → Prop
  | _, [] => True
  | above, (p, e) :: stack =>
      (∀ i d, i < e → (edgesOf positionsByTask p)[i]? = some d →
        states d = .done ∨ (some d = above ∧ i + 1 = e)) ∧
      StackPath positionsByTask states (some p) stack

/-- Invariant of the search: finished positions are ranked above their
dependencies, and what is still open is on the stack. -/
structure SearchInvariant (positionsByTask : List (List Nat)) (states : Nat → Visit)
    (stack : List (Nat × Nat)) : Prop where
  ranked : ∃ rank : Nat → Nat, ∀ p, states p = .done →
    ∀ d ∈ edgesOf positionsByTask p, states d = .done ∧ rank d < rank p
  open_mem : ∀ p, states p = .onStack → p ∈ stack.map Prod.fst
  path : StackPath positionsByTask states none stack

private theorem StackPath.mono {states states' : Nat → Visit}
    (hdone : ∀ p, states p = .done → states' p = .done) :
    ∀ (stack : List (Nat × Nat)) (above above' : Option Nat),
      (∀ d, some d = above → states' d = .done ∨ some d = above') →
      StackPath positionsByTask states above stack →
      StackPath positionsByTask states' above' stack := by
  intro stack
  induction stack with
  | nil =>
      intro _ _ _ _
      trivial
  | cons top stack ih =>
      intro above above' habove h
      obtain ⟨p, e⟩ := top
      refine ⟨?_, ih (some p) (some p) (fun d hd => Or.inr hd) h.2⟩
      intro i d hi hd
      rcases h.1 i d hi hd with hdn | ⟨heq, hlast⟩
      · exact Or.inl (hdone d hdn)
      · rcases habove d heq with h' | h'
        · exact Or.inl h'
        · exact Or.inr ⟨h', hlast⟩

private theorem exists_rank_finish {states : Nat → Visit} {rank : Nat → Nat} {p : Nat}
    (hranked : ∀ q, states q = .done →
      ∀ d ∈ edgesOf positionsByTask q, states d = .done ∧ rank d < rank q)
    (hp : states p ≠ .done)
    (hedges : ∀ d ∈ edgesOf positionsByTask p, states d = .done) :
    ∃ rank' : Nat → Nat, ∀ q, Function.update states p .done q = .done →
      ∀ d ∈ edgesOf positionsByTask q,
        Function.update states p .done d = .done ∧ rank' d < rank' q := by
  -- the finished position is ranked above all of its dependencies
  let top := ((edgesOf positionsByTask p).map rank).sum + 1
  refine ⟨Function.update rank p top, ?_⟩
  intro q hq d hd
  by_cases hqp : q = p
  · subst hqp
    have hdone := hedges d hd
    have hdq : d ≠ q := fun h => hp (h ▸ hdone)
    have hle : rank d ≤ ((edgesOf positionsByTask q).map rank).sum :=
      List.single_le_sum (by simp) _ (List.mem_map_of_mem hd)
    refine ⟨by simp [Function.update_of_ne hdq, hdone], ?_⟩
    simp only [Function.update_self, Function.update_of_ne hdq, top]
    omega
  · rw [Function.update_of_ne hqp] at hq
    have hdone := hranked q hq d hd
    have hdp : d ≠ p := fun h => hp (h ▸ hdone.1)
    exact ⟨by simp [Function.update_of_ne hdp, hdone.1],
      by simpa [Function.update_of_ne hdp, Function.update_of_ne hqp] using hdone.2⟩

/-- Opening or finishing a position makes no position unseen again. -/
private theorem seen_update {states : Nat → Visit} {q p : Nat} {visit : Visit}
    (hvisit : visit ≠ .unseen) (hp : states p ≠ .unseen) :
    Function.update states q visit p ≠ .unseen := by
  by_cases hpq : p = q
  · simpa [hpq] using hvisit
  · simpa [Function.update_of_ne hpq] using hp

/-- Finished positions stay finished when an unseen one is opened. -/
private theorem done_update_onStack {states : Nat → Visit} {q p : Nat}
    (hunseen : states q = .unseen) (hp : states p = .done) :
    Function.update states q .onStack p = .done := by
  have hne : p ≠ q := fun hpq => by simp [hpq, hunseen] at hp
  simp [Function.update_of_ne hne, hp]

namespace SearchInvariant

variable {states : Nat → Visit} {stack : List (Nat × Nat)} {position nextEdge dependency : Nat}

/-- Nothing is open before the search. -/
theorem start : SearchInvariant positionsByTask (fun _ => Visit.unseen) [] :=
  ⟨⟨fun _ => 0, by simp⟩, by simp, trivial⟩

/-- An unseen position is opened above what leads to it. -/
theorem push (hinv : SearchInvariant positionsByTask states stack)
    (hunseen : states position = .unseen) {stack' : List (Nat × Nat)}
    (hstack : stack'.map Prod.fst = stack.map Prod.fst)
    (hpath : StackPath positionsByTask (Function.update states position .onStack)
      (some position) stack') :
    SearchInvariant positionsByTask (Function.update states position .onStack)
      ((position, 0) :: stack') := by
  obtain ⟨⟨rank, hranked⟩, hopen, -⟩ := hinv
  refine ⟨⟨rank, ?_⟩, ?_, by simp, hpath⟩
  · intro p hp d hd
    have hne : p ≠ position := fun hpq => by simp [hpq] at hp
    rw [Function.update_of_ne hne] at hp
    exact ⟨done_update_onStack hunseen (hranked p hp d hd).1, (hranked p hp d hd).2⟩
  · intro p hp
    rw [List.map_cons, hstack]
    by_cases hpq : p = position
    · simp [hpq]
    · rw [Function.update_of_ne hpq] at hp
      exact List.mem_cons_of_mem _ (hopen p hp)

/-- The edge the top of the stack follows next leads to a finished position, or to the one
that is opened above it. -/
theorem edges_of_next (hinv : SearchInvariant positionsByTask states
      ((position, nextEdge) :: stack)) {states' : Nat → Visit}
    (hkeep : ∀ p, states p = .done → states' p = .done) {above : Option Nat}
    (hedge : (edgesOf positionsByTask position)[nextEdge]? = some dependency)
    (hnext : states' dependency = .done ∨ some dependency = above) :
    StackPath positionsByTask states' above ((position, nextEdge + 1) :: stack) := by
  refine ⟨?_, StackPath.mono hkeep _ _ _ (fun d hd => Or.inr hd) hinv.path.2⟩
  intro i d hi hd
  rcases Nat.lt_succ_iff_lt_or_eq.mp hi with hlt | rfl
  · rcases hinv.path.1 i d hlt hd with hdone | ⟨hnone, -⟩
    · exact Or.inl (hkeep d hdone)
    · cases hnone
  · rw [hedge, Option.some.injEq] at hd
    subst hd
    rcases hnext with hdone | habove
    · exact Or.inl hdone
    · exact Or.inr ⟨habove, rfl⟩

/-- An unseen dependency is opened above the position that named it. -/
theorem visit (hinv : SearchInvariant positionsByTask states ((position, nextEdge) :: stack))
    (hedge : (edgesOf positionsByTask position)[nextEdge]? = some dependency)
    (hunseen : states dependency = .unseen) :
    SearchInvariant positionsByTask (Function.update states dependency .onStack)
      ((dependency, 0) :: (position, nextEdge + 1) :: stack) := by
  refine hinv.push hunseen rfl ?_
  exact hinv.edges_of_next (fun p => done_update_onStack hunseen) hedge (Or.inr rfl)

/-- A finished dependency only moves the edge on. -/
theorem advance (hinv : SearchInvariant positionsByTask states ((position, nextEdge) :: stack))
    (hedge : (edgesOf positionsByTask position)[nextEdge]? = some dependency)
    (hdone : states dependency = .done) :
    SearchInvariant positionsByTask states ((position, nextEdge + 1) :: stack) :=
  ⟨hinv.ranked, by simpa using hinv.open_mem,
    hinv.edges_of_next (fun _ hp => hp) hedge (Or.inl hdone)⟩

/-- Once every edge is spent, all of them lead to finished positions. -/
theorem edges_done (hinv : SearchInvariant positionsByTask states ((position, nextEdge) :: stack))
    (hspent : (edgesOf positionsByTask position)[nextEdge]? = none) :
    ∀ d ∈ edgesOf positionsByTask position, states d = .done := by
  rw [List.getElem?_eq_none_iff] at hspent
  intro d hd
  obtain ⟨i, hi, hid⟩ := List.getElem_of_mem hd
  have hid? : (edgesOf positionsByTask position)[i]? = some d :=
    List.getElem?_eq_some_iff.mpr ⟨hi, hid⟩
  rcases hinv.path.1 i d (by omega) hid? with hdone | ⟨hnone, -⟩
  · exact hdone
  · cases hnone

/-- A position is finished with its last edge. -/
theorem finish (hinv : SearchInvariant positionsByTask states ((position, nextEdge) :: stack))
    (hspent : (edgesOf positionsByTask position)[nextEdge]? = none) :
    SearchInvariant positionsByTask (Function.update states position .done) stack := by
  have hedges := hinv.edges_done hspent
  obtain ⟨⟨rank, hranked⟩, hopen, hpath⟩ := hinv
  refine ⟨?_, ?_, ?_⟩
  · by_cases hp : states position = .done
    · have hself : Function.update states position .done = states := by
        rw [← hp, Function.update_eq_self]
      rw [hself]
      exact ⟨rank, hranked⟩
    · exact exists_rank_finish hranked hp hedges
  · intro p hp
    have hne : p ≠ position := fun hpq => by simp [hpq] at hp
    rw [Function.update_of_ne hne] at hp
    simpa [hne] using hopen p hp
  · refine StackPath.mono (fun p hp => ?_) _ _ _ ?_ hpath.2
    · by_cases hpq : p = position
      · simp [hpq]
      · simp [Function.update_of_ne hpq, hp]
    · intro d hd
      rw [Option.some.injEq] at hd
      exact Or.inl (by simp [hd])

end SearchInvariant

/-- Draining the stack keeps the invariant: each step of the loop opens a position, moves
an edge on or finishes a position. -/
theorem drainStack_invariant :
    ∀ (fuel : Nat) (stack : List (Nat × Nat)) (states states' : Nat → Visit),
      SearchInvariant positionsByTask states stack →
      drainStack positionsByTask fuel stack states = .drained states' →
      SearchInvariant positionsByTask states' [] ∧
        ∀ p, states p ≠ .unseen → states' p ≠ .unseen := by
  intro fuel
  induction fuel with
  | zero =>
      intro stack states states' _ h
      simp [drainStack] at h
  | succ fuel ih =>
      intro stack states states' hinv h
      cases stack with
      | nil =>
          simp only [drainStack, Drained.drained.injEq] at h
          subst h
          exact ⟨hinv, fun p hp => hp⟩
      | cons top stack =>
          obtain ⟨position, nextEdge⟩ := top
          unfold drainStack at h
          split at h <;> rename_i hedge
          · split at h <;> rename_i hvisit
            · cases h
            · obtain ⟨hinv', hseen⟩ := ih _ _ states' (hinv.visit hedge hvisit) h
              exact ⟨hinv', fun p hp => hseen p (seen_update (by simp) hp)⟩
            · exact ih _ _ states' (hinv.advance hedge hvisit) h
          · obtain ⟨hinv', hseen⟩ := ih _ _ states' (hinv.finish hedge) h
            exact ⟨hinv', fun p hp => hseen p (seen_update (by simp) hp)⟩

/-- A search that drains has seen all it started from, and found no cycle. -/
theorem searchFrom_invariant :
    ∀ (starts : List Nat) (states states' : Nat → Visit),
      SearchInvariant positionsByTask states [] →
      searchFrom positionsByTask starts states = .drained states' →
      SearchInvariant positionsByTask states' [] ∧
        (∀ p, states p ≠ .unseen → states' p ≠ .unseen) ∧
        ∀ p ∈ starts, states' p ≠ .unseen := by
  intro starts
  induction starts with
  | nil =>
      intro states states' hinv h
      simp only [searchFrom, Drained.drained.injEq] at h
      subst h
      exact ⟨hinv, fun p hp => hp, by simp⟩
  | cons start starts ih =>
      intro states states' hinv h
      unfold searchFrom at h
      split at h <;> rename_i hstart
      · split at h
        · rename_i states₁ hdrain
          have hpushed := hinv.push hstart rfl trivial
          obtain ⟨hinv₁, hseen₁⟩ := drainStack_invariant _ _ _ _ hpushed hdrain
          obtain ⟨hinv', hseen', hstarts⟩ := ih _ _ hinv₁ h
          refine ⟨hinv', fun p hp => hseen' p (hseen₁ p (seen_update (by simp) hp)), ?_⟩
          intro p hp
          rcases List.mem_cons.mp hp with rfl | hp
          · exact hseen' p (hseen₁ p (by simp))
          · exact hstarts p hp
        · cases h
        · cases h
      · obtain ⟨hinv', hseen', hstarts⟩ := ih _ _ hinv h
        refine ⟨hinv', hseen', ?_⟩
        intro p hp
        rcases List.mem_cons.mp hp with rfl | hp
        · exact hseen' p hstart
        · exact hstarts p hp

/-- And never runs out of fuel. -/
theorem searchFrom_ne_exhausted
    (hrange : ∀ p, ∀ d ∈ edgesOf positionsByTask p, d < positionsByTask.length) :
    ∀ (starts : List Nat) (states : Nat → Visit),
      (∀ p ∈ starts, p < positionsByTask.length) →
      searchFrom positionsByTask starts states ≠ .exhausted := by
  intro starts
  induction starts with
  | nil =>
      intro states _
      simp [searchFrom]
  | cons start starts ih =>
      intro states hstarts
      unfold searchFrom
      split <;> rename_i hstart
      · split
        · exact ih _ fun p hp => hstarts p (by simp [hp])
        · simp
        · rename_i hdrain
          refine absurd hdrain (drainStack_ne_exhausted hrange _ _ _ ?_)
          have hwork := unseenWork_update_onStack (hstarts start (by simp)) hstart
          have hfuel := unseenWork_lt_searchFuel positionsByTask states
          simp only [stackWork]
          omega
      · exact ih _ fun p hp => hstarts p (by simp [hp])

/-- A graph the search accepts has a rank that every dependency lies strictly below. -/
theorem findDependencyCycle_eq_none
    (hrange : ∀ p, ∀ d ∈ edgesOf positionsByTask p, d < positionsByTask.length)
    (h : findDependencyCycle positionsByTask = none) :
    ∃ rank : Nat → Nat, ∀ p, ∀ d ∈ edgesOf positionsByTask p, rank d < rank p := by
  unfold findDependencyCycle at h
  split at h
  · cases h
  · rename_i states hsearch
    obtain ⟨⟨⟨rank, hranked⟩, hopen, -⟩, -, hseen⟩ :=
      searchFrom_invariant _ _ _ .start hsearch
    refine ⟨rank, fun p d hd => ?_⟩
    have hp : p < positionsByTask.length := by
      by_contra hge
      have hnil : edgesOf positionsByTask p = [] := by
        simp [edgesOf, List.getD, List.getElem?_eq_none (by omega : positionsByTask.length ≤ p)]
      simp [hnil] at hd
    have hdone : states p = .done := by
      cases hs : states p with
      | unseen => exact absurd hs (hseen p (by simpa using hp))
      | onStack => exact absurd (hopen p hs) (by simp)
      | done => rfl
    exact (hranked p hdone d hd).2
  · rename_i hsearch
    exact absurd hsearch (searchFrom_ne_exhausted hrange _ _ (by simp))

end Soundness

/-! ## Assembling a description -/

namespace JobDefinition

/-- Bind a task code to an executor, refusing a second, different one. -/
def registerExecutor (executorsByCode : List (String × Uuid)) (jobCode taskCode : String)
    (executor : Uuid) : Except Error (List (String × Uuid)) :=
  match executorsByCode.lookup taskCode with
  | some registered =>
      if registered = executor then .ok executorsByCode
      else
        .error (.other
          s!"job '{jobCode}' registers two different executors for task '{taskCode}'")
  | none => .ok ((taskCode, executor) :: executorsByCode)

/-- Position a reference names among the initial tasks of this description. -/
def resolveInitialPosition (id : Uuid) (jobCode : String) (task : TaskRef)
    (initialTaskCount : Nat) : Except Error Nat :=
  match task with
  | .initial jobDefinition position =>
      if jobDefinition ≠ id then
        .error (.other s!"job '{jobCode}' declares a dependency on a task outside its own job")
      else if initialTaskCount ≤ position then
        .error (.other
          s!"job '{jobCode}' declares a dependency on initial task position {position}, which it does not have")
      else .ok position
  | .created taskId =>
      .error (.other
        s!"job '{jobCode}' declares an initial task depending on task '{taskId}' created at runtime")

/-- Add every declaration to the task it names. -/
def mergeDeclaredDependencies (id : Uuid) (jobCode : String) :
    List (TaskRef × List TaskRef) → List TaskDefinition → Except Error (List TaskDefinition)
  | [], initialTasks => .ok initialTasks
  | (task, dependencies) :: declared, initialTasks => do
      let position ← resolveInitialPosition id jobCode task initialTasks.length
      mergeDeclaredDependencies id jobCode declared
        (initialTasks.modify position fun d =>
          { d with dependsOn := d.dependsOn ++ dependencies })

/-- Positions the dependencies of every initial task resolve to, with the tolerance
check each task goes through on the way. -/
def resolveDependencies (id : Uuid) (jobCode : String) (initialTaskCount : Nat) :
    Nat → List TaskDefinition → Except Error (List (List Nat))
  | _, [] => .ok []
  | position, task :: tasks => do
      if !task.isDeclaresToleranceValid then
        throw (.other
          s!"job '{jobCode}' initial task {position}: dependency tolerance without dependencies")
      let positions ← task.dependsOn.mapM fun dependency =>
        resolveInitialPosition id jobCode dependency initialTaskCount
      let rest ← resolveDependencies id jobCode initialTaskCount (position + 1) tasks
      return positions :: rest

/-- Check the dependency graph a job description declares. -/
def validateInitialTaskDependencies (id : Uuid) (jobCode : String)
    (initialTasks : List TaskDefinition) : Except Error Unit := do
  let positionsByTask ← resolveDependencies id jobCode initialTasks.length 0 initialTasks
  match findDependencyCycle positionsByTask with
  | some position =>
      throw (.other s!"job '{jobCode}' has a dependency cycle through initial task {position}")
  | none => return ()

/-- Validate the initial tasks in order and bind their executors. -/
def registerInitialTasks (code : String) (limits : TaskLimits) :
    Nat → List (TaskDefinition × Uuid) → List (String × Uuid) →
      Except Error (List (String × Uuid))
  | _, [], executors => .ok executors
  | position, (definition, executor) :: tasks, executors => do
      match definition.validate limits with
      | .ok () => pure ()
      | .error e => throw (.other s!"job '{code}' initial task {position}: {e.toText}")
      let executors ← registerExecutor executors code definition.code executor
      registerInitialTasks code limits (position + 1) tasks executors

/-- Bind the executors of the codes a runtime task may use. -/
def registerRuntimeExecutors (code : String) :
    List (String × Uuid) → List (String × Uuid) → Except Error (List (String × Uuid))
  | [], executors => .ok executors
  | (taskCode, executor) :: rest, executors => do
      let executors ← registerExecutor executors code taskCode executor
      registerRuntimeExecutors code rest executors

/-- Build a validated definition with unlimited iterations and no interval. -/
def new (id : Uuid) (code : String) (initialTasks : List (TaskDefinition × Uuid))
    (runtimeExecutors : List (String × Uuid))
    (declaredDependencies : List (TaskRef × List TaskRef)) (taskLimits : TaskLimits) :
    Except Error JobDefinition := do
  if initialTasks.isEmpty then
    throw (.other s!"job '{code}' has no initial task: declare at least one with add_task()")
  let executors ← registerInitialTasks code taskLimits 0 initialTasks []
  let executors ← registerRuntimeExecutors code runtimeExecutors executors
  let initialDefinitions ← mergeDeclaredDependencies id code declaredDependencies
    (initialTasks.map Prod.fst)
  validateInitialTaskDependencies id code initialDefinitions
  return {
    code := code
    initialTasks := initialDefinitions
    taskExecutors := executors
    maxIterations := none
    iterationInterval := none
    taskLimits := taskLimits
    iterationRetention := defaultIterationRetention }

/-- Cap the number of iterations. -/
def withMaxIterations (d : JobDefinition) (maxIterations : Nat) :
    Except Error JobDefinition :=
  if maxIterations = 0 then .error (.other "job max iterations must be positive")
  else .ok { d with maxIterations := some maxIterations }

/-- Keep only the given number of most recent iterations of the job in storage. -/
def withIterationRetention (d : JobDefinition) (iterationRetention : Nat) :
    Except Error JobDefinition :=
  if iterationRetention < minIterationRetention then
    .error (.other s!"job iteration retention must be at least {minIterationRetention}")
  else .ok { d with iterationRetention := iterationRetention }

/-- Require the given delay from the start of an iteration before the next one. -/
def withIterationInterval (d : JobDefinition) (iterationInterval : Nat) :
    Except Error JobDefinition :=
  if iterationInterval = 0 then .error (.other "job iteration interval must be positive")
  else if (durationFromStd iterationInterval).isNone then
    .error (.other "job iteration interval is too large")
  else .ok { d with iterationInterval := some iterationInterval }

/-- Newest iteration that may be deleted while the current one is {lit}`iterNum`. -/
def calculateRetentionBoundary (d : JobDefinition) (iterNum : Nat) : Option Nat :=
  if iterNum ≤ d.iterationRetention then none else some (iterNum - d.iterationRetention)

/-- What acceptance guarantees about the planned graph: there is a task, every
dependency is a position of this description, and the positions are ranked. -/
structure WellFormed (d : JobDefinition) : Prop where
  nonempty : d.initialTasks ≠ []
  ranked : ∃ rank : Nat → Nat, ∀ p task, d.initialTasks[p]? = some task →
    ∀ dependency ∈ task.dependsOn, ∃ owner q, dependency = .initial owner q ∧
      q < d.initialTasks.length ∧ rank q < rank p
  positive : d.maxIterations ≠ some 0

/-- A reference resolves to a position of the same definition. -/
theorem resolveInitialPosition_eq_ok {id : Uuid} {jobCode : String} {task : TaskRef}
    {count q : Nat} :
    resolveInitialPosition id jobCode task count = .ok q ↔ task = .initial id q ∧ q < count := by
  unfold resolveInitialPosition
  cases task with
  | initial jobDefinition position =>
      dsimp only
      split_ifs with hid hcount
      · simp [hid]
      · simp only [TaskRef.initial.injEq, false_iff]
        omega
      · simp only [Except.ok.injEq, TaskRef.initial.injEq, not_not.mp hid, true_and]
        omega
  | created taskId => simp

/-- The references of a list resolve exactly when each names a position of this
description. -/
theorem mapM_resolve_eq_ok {id : Uuid} {jobCode : String} {count : Nat} {refs : List TaskRef}
    {positions : List Nat} :
    refs.mapM (fun r => resolveInitialPosition id jobCode r count) = .ok positions ↔
      refs = positions.map (.initial id) ∧ ∀ q ∈ positions, q < count := by
  simp only [mapM_eq_ok, resolveInitialPosition_eq_ok]
  constructor
  · intro h
    induction h with
    | nil => simp
    | cons hr _ ih =>
        rw [List.map_cons, hr.1, ih.1, List.forall_mem_cons]
        exact ⟨rfl, hr.2, ih.2⟩
  · rintro ⟨rfl, hrange⟩
    rw [List.forall₂_map_left_iff, List.forall₂_same]
    exact fun q hq => ⟨rfl, hrange q hq⟩

/-- The dependencies of all tasks resolve exactly when each names a position of this
description and no task declares a tolerance for nothing. -/
theorem resolveDependencies_eq_ok {id : Uuid} {jobCode : String} {count : Nat} :
    ∀ {tasks : List TaskDefinition} {start : Nat} {positionsByTask : List (List Nat)},
      resolveDependencies id jobCode count start tasks = .ok positionsByTask ↔
        tasks.map (·.dependsOn) = positionsByTask.map (·.map (.initial id)) ∧
        (∀ positions ∈ positionsByTask, ∀ q ∈ positions, q < count) ∧
        ∀ task ∈ tasks, task.isDeclaresToleranceValid = true := by
  intro tasks
  induction tasks with
  | nil =>
      intro start positionsByTask
      rw [resolveDependencies]
      constructor
      · intro h
        cases h
        simp
      · rintro ⟨h, -, -⟩
        rw [List.map_nil] at h
        rw [List.map_eq_nil_iff.mp h.symm]
  | cons task tasks ih =>
      intro start positionsByTask
      unfold resolveDependencies
      split <;> rename_i hvalid
      · constructor
        · intro h
          cases h
        · rintro ⟨-, -, htolerances⟩
          simp [htolerances task (by simp)] at hvalid
      · have hvalid' : task.isDeclaresToleranceValid = true := by simpa using hvalid
        simp only [bind_eq_ok]
        constructor
        · rintro ⟨positions, hpositions, rest, hrest, h⟩
          cases h
          obtain ⟨hrefs, hrange⟩ := mapM_resolve_eq_ok.mp hpositions
          obtain ⟨hrefs', hrange', htolerances⟩ := ih.mp hrest
          refine ⟨by rw [List.map_cons, List.map_cons, hrefs, hrefs'], ?_, ?_⟩
          · intro ps hps
            rcases List.mem_cons.mp hps with rfl | hps
            · exact hrange
            · exact hrange' ps hps
          · intro task' htask'
            rcases List.mem_cons.mp htask' with rfl | htask'
            · exact hvalid'
            · exact htolerances task' htask'
        · rintro ⟨hrefs, hrange, htolerances⟩
          cases positionsByTask with
          | nil => cases hrefs
          | cons positions rest =>
              rw [List.map_cons, List.map_cons, List.cons.injEq] at hrefs
              refine ⟨positions,
                mapM_resolve_eq_ok.mpr ⟨hrefs.1, hrange positions (by simp)⟩, rest, ?_, rfl⟩
              exact ih.mpr ⟨hrefs.2, fun ps hps => hrange ps (by simp [hps]),
                fun task' htask' => htolerances task' (by simp [htask'])⟩

/-- The edges of a resolved graph are the references of the tasks. -/
theorem mem_edgesOf_iff {id : Uuid} {tasks : List TaskDefinition}
    {positionsByTask : List (List Nat)}
    (h : tasks.map (·.dependsOn) = positionsByTask.map (·.map (.initial id))) {p q : Nat} :
    q ∈ edgesOf positionsByTask p ↔
      ∃ task, tasks[p]? = some task ∧ .initial id q ∈ task.dependsOn := by
  have hat : tasks[p]?.map (·.dependsOn) = positionsByTask[p]?.map (·.map (.initial id)) := by
    rw [← List.getElem?_map, ← List.getElem?_map, h]
  unfold edgesOf
  cases hp : positionsByTask[p]? with
  | none =>
      rw [hp, Option.map_none, Option.map_eq_none_iff] at hat
      simp [List.getD, hp, hat]
  | some positions =>
      rw [hp, Option.map_some, Option.map_eq_some_iff] at hat
      obtain ⟨task, htask, hrefs⟩ := hat
      simp [List.getD, hp, htask, hrefs]

/-- Every edge of a resolved graph stays within it. -/
theorem edgesOf_lt {id : Uuid} {tasks : List TaskDefinition} {positionsByTask : List (List Nat)}
    (h : tasks.map (·.dependsOn) = positionsByTask.map (·.map (.initial id)))
    (hrange : ∀ positions ∈ positionsByTask, ∀ q ∈ positions, q < tasks.length) :
    ∀ p, ∀ d ∈ edgesOf positionsByTask p, d < positionsByTask.length := by
  have hlen : positionsByTask.length = tasks.length := by
    have := congrArg List.length h
    simpa using this.symm
  intro p d hd
  unfold edgesOf at hd
  cases hp : positionsByTask[p]? with
  | none => simp [List.getD, hp] at hd
  | some positions =>
      simp only [List.getD, hp, Option.getD_some] at hd
      rw [hlen]
      exact hrange positions (List.mem_of_getElem? hp) d hd

/-- The graph a description declares is accepted once it is resolved and free of
cycles. -/
theorem validateInitialTaskDependencies_eq_ok {id : Uuid} {jobCode : String}
    {tasks : List TaskDefinition} :
    validateInitialTaskDependencies id jobCode tasks = .ok () ↔
      ∃ positionsByTask : List (List Nat),
        tasks.map (·.dependsOn) = positionsByTask.map (·.map (.initial id)) ∧
        (∀ positions ∈ positionsByTask, ∀ q ∈ positions, q < tasks.length) ∧
        (∀ task ∈ tasks, task.isDeclaresToleranceValid = true) ∧
        findDependencyCycle positionsByTask = none := by
  unfold validateInitialTaskDependencies
  rw [bind_eq_ok]
  constructor
  · rintro ⟨positionsByTask, hresolve, h⟩
    split at h
    · cases h
    · rename_i hnone
      obtain ⟨hrefs, hrange, htolerances⟩ := resolveDependencies_eq_ok.mp hresolve
      exact ⟨positionsByTask, hrefs, hrange, htolerances, hnone⟩
  · rintro ⟨positionsByTask, hrefs, hrange, htolerances, hnone⟩
    refine ⟨positionsByTask, resolveDependencies_eq_ok.mpr ⟨hrefs, hrange, htolerances⟩, ?_⟩
    rw [hnone]
    rfl

/-- An accepted dependency graph is ranked over positions of this description. -/
theorem validateInitialTaskDependencies_ranked {id : Uuid} {jobCode : String}
    {tasks : List TaskDefinition}
    (h : validateInitialTaskDependencies id jobCode tasks = .ok ()) :
    ∃ rank : Nat → Nat, ∀ p task, tasks[p]? = some task →
      ∀ dependency ∈ task.dependsOn, ∃ owner q, dependency = .initial owner q ∧
        q < tasks.length ∧ rank q < rank p := by
  obtain ⟨positionsByTask, hrefs, hrange, -, hnone⟩ :=
    validateInitialTaskDependencies_eq_ok.mp h
  obtain ⟨rank, hrank⟩ := findDependencyCycle_eq_none (edgesOf_lt hrefs hrange) hnone
  refine ⟨rank, fun p task hp dependency hdep => ?_⟩
  have hmem : dependency ∈ (edgesOf positionsByTask p).map (.initial id) := by
    have hat : tasks[p]?.map (·.dependsOn) = positionsByTask[p]?.map (·.map (.initial id)) := by
      rw [← List.getElem?_map, ← List.getElem?_map, hrefs]
    rw [hp, Option.map_some, eq_comm, Option.map_eq_some_iff] at hat
    obtain ⟨positions, hpositions, heq⟩ := hat
    rw [edgesOf, List.getD, hpositions, Option.getD_some, heq]
    exact hdep
  obtain ⟨q, hq, rfl⟩ := List.mem_map.mp hmem
  have hlen : positionsByTask.length = tasks.length := by
    have := congrArg List.length hrefs
    simpa using this.symm
  exact ⟨id, q, rfl, hlen ▸ edgesOf_lt hrefs hrange p q hq, hrank p q hq⟩

/-- What the declarations add to the dependencies of a position. -/
def declaredFor (id : Uuid) (declared : List (TaskRef × List TaskRef)) (position : Nat) :
    List TaskRef :=
  (declared.filter (·.1 = .initial id position)).flatMap Prod.snd

/-- What is declared for a task is what some declaration says of it. -/
theorem mem_declaredFor {id : Uuid} {declared : List (TaskRef × List TaskRef)} {position : Nat}
    {r : TaskRef} :
    r ∈ declaredFor id declared position ↔
      ∃ entry ∈ declared, entry.1 = .initial id position ∧ r ∈ entry.2 := by
  simp [declaredFor, and_assoc]

/-- The declarations merge exactly when each is made for a position of this description,
and every task then waits for the union of the two channels. -/
theorem mergeDeclaredDependencies_eq_ok {id : Uuid} {jobCode : String} :
    ∀ {declared : List (TaskRef × List TaskRef)} {tasks merged : List TaskDefinition},
      mergeDeclaredDependencies id jobCode declared tasks = .ok merged ↔
        (∀ entry ∈ declared, ∃ q < tasks.length, entry.1 = .initial id q) ∧
        merged = tasks.mapIdx fun p d =>
          { d with dependsOn := d.dependsOn ++ declaredFor id declared p } := by
  intro declared
  induction declared with
  | nil =>
      intro tasks merged
      have hkept : (tasks.mapIdx fun p d =>
          { d with dependsOn := d.dependsOn ++ declaredFor id [] p }) = tasks := by
        apply List.ext_getElem?
        intro p
        simp [declaredFor]
      rw [hkept, mergeDeclaredDependencies, Except.ok.injEq]
      simp [eq_comm]
  | cons entry declared ih =>
      intro tasks merged
      obtain ⟨task, dependencies⟩ := entry
      rw [mergeDeclaredDependencies, bind_eq_ok]
      -- one declaration lands at its position, and the rest is merged on top of it
      have hland : ∀ position, (tasks.modify position fun d =>
            { d with dependsOn := d.dependsOn ++ dependencies }).mapIdx (fun p d =>
              { d with dependsOn := d.dependsOn ++ declaredFor id declared p }) =
          tasks.mapIdx fun p d =>
            { d with dependsOn := d.dependsOn ++
              declaredFor id ((.initial id position, dependencies) :: declared) p } := by
        intro position
        apply List.ext_getElem?
        intro p
        rw [List.getElem?_mapIdx, List.getElem?_modify, List.getElem?_mapIdx]
        cases htask : tasks[p]? with
        | none => rfl
        | some d =>
            by_cases hp : position = p
            · subst hp
              simp [declaredFor]
            · simp [declaredFor, hp]
      constructor
      · rintro ⟨position, hposition, h⟩
        obtain ⟨rfl, hlt⟩ := resolveInitialPosition_eq_ok.mp hposition
        obtain ⟨htargets, rfl⟩ := ih.mp h
        refine ⟨?_, hland position⟩
        intro entry hentry
        rcases List.mem_cons.mp hentry with rfl | hentry
        · exact ⟨position, hlt, rfl⟩
        · simpa using htargets entry hentry
      · rintro ⟨htargets, rfl⟩
        obtain ⟨position, hlt, htask⟩ := htargets (task, dependencies) (by simp)
        have htask' : task = .initial id position := htask
        subst htask'
        refine ⟨position, resolveInitialPosition_eq_ok.mpr ⟨rfl, hlt⟩, ?_⟩
        refine ih.mpr ⟨?_, (hland position).symm⟩
        intro entry hentry
        simpa using htargets entry (by simp [hentry])

/-- Merging declarations adds no task and drops none. -/
theorem mergeDeclaredDependencies_length {id : Uuid} {jobCode : String}
    {declared : List (TaskRef × List TaskRef)} {tasks merged : List TaskDefinition}
    (h : mergeDeclaredDependencies id jobCode declared tasks = .ok merged) :
    merged.length = tasks.length := by
  obtain ⟨-, rfl⟩ := mergeDeclaredDependencies_eq_ok.mp h
  simp

section New

variable {id : Uuid} {code : String} {initialTasks : List (TaskDefinition × Uuid)}
  {runtimeExecutors : List (String × Uuid)} {declaredDependencies : List (TaskRef × List TaskRef)}
  {taskLimits : TaskLimits} {d : JobDefinition}

/-- What {lit}`new` accepts, and the description it then builds. -/
theorem new_eq_ok :
    new id code initialTasks runtimeExecutors declaredDependencies taskLimits = .ok d ↔
      initialTasks ≠ [] ∧ ∃ executors executors' merged,
        registerInitialTasks code taskLimits 0 initialTasks [] = .ok executors ∧
        registerRuntimeExecutors code runtimeExecutors executors = .ok executors' ∧
        mergeDeclaredDependencies id code declaredDependencies (initialTasks.map Prod.fst) =
          .ok merged ∧
        validateInitialTaskDependencies id code merged = .ok () ∧
        d = {
          code := code
          initialTasks := merged
          taskExecutors := executors'
          maxIterations := none
          iterationInterval := none
          taskLimits := taskLimits
          iterationRetention := defaultIterationRetention } := by
  unfold new
  split <;> rename_i hempty
  · have hnil : initialTasks = [] := by simpa using hempty
    constructor
    · intro h
      cases h
    · rintro ⟨hne, -⟩
      exact absurd hnil hne
  · have hne : initialTasks ≠ [] := by simpa using hempty
    simp only [bind_eq_ok]
    constructor
    · rintro ⟨executors, hinitial, executors', hruntime, merged, hmerged, ⟨⟩, hvalid, h⟩
      cases h
      exact ⟨hne, executors, executors', merged, hinitial, hruntime, hmerged, hvalid, rfl⟩
    · rintro ⟨-, executors, executors', merged, hinitial, hruntime, hmerged, hvalid, rfl⟩
      exact ⟨executors, hinitial, executors', hruntime, merged, hmerged, (), hvalid, rfl⟩

/-- A description accepted by {lit}`new` is well formed. -/
theorem new_wellFormed
    (h : new id code initialTasks runtimeExecutors declaredDependencies taskLimits = .ok d) :
    d.WellFormed := by
  obtain ⟨hempty, _, _, merged, -, -, hmerged, hvalid, rfl⟩ := new_eq_ok.mp h
  refine ⟨?_, validateInitialTaskDependencies_ranked hvalid, by simp⟩
  intro hnil
  have hlen := mergeDeclaredDependencies_length hmerged
  have hmergednil : merged = [] := hnil
  rw [List.length_map, hmergednil] at hlen
  exact hempty (List.length_eq_zero_iff.mp hlen.symm)

end New

/-! ## Executor bindings -/

/-- A code is bound to one executor. -/
theorem registerExecutor_nodup {executors executors' : List (String × Uuid)}
    {jobCode taskCode : String} {executor : Uuid} (hnodup : (executors.map Prod.fst).Nodup)
    (h : registerExecutor executors jobCode taskCode executor = .ok executors') :
    (executors'.map Prod.fst).Nodup := by
  unfold registerExecutor at h
  split at h
  · split at h <;> cases h
    exact hnodup
  · rename_i hnone
    cases h
    rw [List.map_cons, List.nodup_cons]
    refine ⟨?_, hnodup⟩
    intro hmem
    obtain ⟨binding, hbinding, heq⟩ := List.mem_map.mp hmem
    have hne := List.lookup_eq_none_iff.mp hnone binding hbinding
    simp [heq] at hne

/-- And stays so over the initial tasks. -/
theorem registerInitialTasks_nodup {code : String} {limits : TaskLimits} {position : Nat}
    {tasks : List (TaskDefinition × Uuid)} {executors executors' : List (String × Uuid)}
    (hnodup : (executors.map Prod.fst).Nodup)
    (h : registerInitialTasks code limits position tasks executors = .ok executors') :
    (executors'.map Prod.fst).Nodup := by
  induction tasks generalizing position executors with
  | nil =>
      cases h
      exact hnodup
  | cons task tasks ih =>
      rw [registerInitialTasks] at h
      split at h
      · dsimp only at h
        rw [bind_eq_ok] at h
        obtain ⟨executors₁, hregister, h⟩ := h
        exact ih (registerExecutor_nodup hnodup hregister) h
      · cases h

/-- And over the later ones. -/
theorem registerRuntimeExecutors_nodup {code : String}
    {bindings executors executors' : List (String × Uuid)}
    (hnodup : (executors.map Prod.fst).Nodup)
    (h : registerRuntimeExecutors code bindings executors = .ok executors') :
    (executors'.map Prod.fst).Nodup := by
  induction bindings generalizing executors with
  | nil =>
      cases h
      exact hnodup
  | cons binding bindings ih =>
      rw [registerRuntimeExecutors, bind_eq_ok] at h
      obtain ⟨executors₁, hregister, h⟩ := h
      exact ih (registerExecutor_nodup hnodup hregister) h

/-! ## Settings -/

/-- A budget is taken where it is positive. -/
theorem withMaxIterations_eq_ok {d d' : JobDefinition} {n : Nat} :
    d.withMaxIterations n = .ok d' ↔ n ≠ 0 ∧ { d with maxIterations := some n } = d' := by
  unfold withMaxIterations
  split <;> simp_all

/-- A retention is taken where it is long enough. -/
theorem withIterationRetention_eq_ok {d d' : JobDefinition} {n : Nat} :
    d.withIterationRetention n = .ok d' ↔
      minIterationRetention ≤ n ∧ { d with iterationRetention := n } = d' := by
  unfold withIterationRetention
  split <;> rename_i hn
  · simp [hn]
  · simp [Nat.le_of_not_lt hn]

theorem withIterationInterval_eq_ok {d d' : JobDefinition} {n : Nat}
    (h : d.withIterationInterval n = .ok d') : { d with iterationInterval := some n } = d' := by
  unfold withIterationInterval at h
  split at h
  · cases h
  · split at h
    · cases h
    · cases h
      rfl

/-- Descriptions a pool can be built with: accepted by {lit}`new`, then adjusted by
any accepted setters. -/
inductive Accepted : JobDefinition → Prop where
  | new {id code initialTasks runtimeExecutors declaredDependencies taskLimits d} :
      new id code initialTasks runtimeExecutors declaredDependencies taskLimits = .ok d →
      Accepted d
  | maxIterations {d d' n} : Accepted d → d.withMaxIterations n = .ok d' → Accepted d'
  | retention {d d' n} : Accepted d → d.withIterationRetention n = .ok d' → Accepted d'
  | interval {d d' n} : Accepted d → d.withIterationInterval n = .ok d' → Accepted d'

/-- An accepted definition is well formed. -/
theorem Accepted.wellFormed {d : JobDefinition} (h : Accepted d) : d.WellFormed := by
  induction h with
  | new h => exact new_wellFormed h
  | maxIterations _ h ih =>
      obtain ⟨hn, rfl⟩ := withMaxIterations_eq_ok.mp h
      exact ⟨ih.nonempty, ih.ranked, by simpa using hn⟩
  | retention _ h ih =>
      obtain ⟨-, rfl⟩ := withIterationRetention_eq_ok.mp h
      exact ⟨ih.nonempty, ih.ranked, ih.positive⟩
  | interval _ h ih =>
      obtain rfl := withIterationInterval_eq_ok h
      exact ⟨ih.nonempty, ih.ranked, ih.positive⟩

/-- The setters leave the tasks, the executors and the limits of a description as
{lit}`new` accepted them. -/
theorem Accepted.exists_new {d : JobDefinition} (h : Accepted d) :
    ∃ id code initialTasks runtimeExecutors declaredDependencies taskLimits base,
      JobDefinition.new id code initialTasks runtimeExecutors declaredDependencies taskLimits =
          .ok base ∧
        d.initialTasks = base.initialTasks ∧ d.taskExecutors = base.taskExecutors ∧
        d.taskLimits = base.taskLimits := by
  induction h with
  | new h => exact ⟨_, _, _, _, _, _, _, h, rfl, rfl, rfl⟩
  | maxIterations _ h ih =>
      obtain ⟨-, rfl⟩ := withMaxIterations_eq_ok.mp h
      exact ih
  | retention _ h ih =>
      obtain ⟨-, rfl⟩ := withIterationRetention_eq_ok.mp h
      exact ih
  | interval _ h ih =>
      obtain rfl := withIterationInterval_eq_ok h
      exact ih

/-- A description binds a task code to one executor. -/
theorem Accepted.nodup_executors {d : JobDefinition} (h : Accepted d) :
    (d.taskExecutors.map Prod.fst).Nodup := by
  obtain ⟨_, _, _, _, _, _, base, hnew, -, hexecutors, -⟩ := h.exists_new
  rw [hexecutors]
  obtain ⟨-, executors, executors', _, hinitial, hruntime, -, -, rfl⟩ := new_eq_ok.mp hnew
  have hempty : (([] : List (String × Uuid)).map Prod.fst).Nodup := List.nodup_nil
  exact registerRuntimeExecutors_nodup (registerInitialTasks_nodup hempty hinitial) hruntime

/-- No description a pool can be built with keeps fewer iterations than the floor. -/
theorem Accepted.minIterationRetention_le {d : JobDefinition} (h : Accepted d) :
    minIterationRetention ≤ d.iterationRetention := by
  induction h with
  | new h =>
      obtain ⟨-, _, _, _, -, -, -, -, rfl⟩ := new_eq_ok.mp h
      have hfloor : minIterationRetention ≤ defaultIterationRetention := by decide
      exact hfloor
  | maxIterations _ h ih =>
      obtain ⟨-, rfl⟩ := withMaxIterations_eq_ok.mp h
      exact ih
  | retention _ h _ =>
      obtain ⟨hle, rfl⟩ := withIterationRetention_eq_ok.mp h
      exact hle
  | interval _ h ih =>
      obtain rfl := withIterationInterval_eq_ok h
      exact ih

end JobDefinition

end JobManager
