import JobManager.Protocol.Deadlock

/-!
# The history of iterations is linear

Every accepted write either creates the first iteration in an empty store, creates
the successor of the newest iteration once that one is closed and due, or replaces
an open version.  What the history of the store looks like follows from that alone.

Main results:

- Theorem {lit}`Linear.numbers`: the stored iterations are numbered without gaps and
  only the newest may be open.
- Theorem {lit}`reachable_linear`: every reachable history is linear.
- Theorem {lit}`iteration_history_linear`: the four laws of the history, in every
  reachable state.
-/

namespace JobManager

variable {κ : Clocks}

/-- Whether a write creates its iteration. -/
def Purpose.isCreation : Purpose → Bool
  | .create => true
  | .nextIteration _ => true
  | .start _ => false
  | .result _ => false
  | .settle => false

/-- The successor of a closed iteration was due at the reading its creator took. -/
def IsDue (κ : Clocks) (jobDef : JobDefinition) (c e : Entry) : Prop :=
  ∃ readyAt, e.purpose = .nextIteration readyAt ∧ κ.Before readyAt e.writtenAt ∧
    (c.load jobDef).findIterationStatus readyAt = .closed .ready

/-- The histories the protocol is meant to leave, newest version first. -/
inductive Linear (κ : Clocks) (jobDef : JobDefinition) : History → Prop
  | empty : Linear κ jobDef []
  | first {h : History} {e : Entry} : h = [] → e.iterNum = 1 → e.purpose = .create →
      Linear κ jobDef (e :: h)
  | next {h : History} {c e : Entry} {n : Nat} : Linear κ jobDef h → h.current n = some c →
      c.isClosed = true → e.iterNum = n + 1 → h.current e.iterNum = none →
      IsDue κ jobDef c e → Linear κ jobDef (e :: h)
  | rewrite {h : History} {c e : Entry} : Linear κ jobDef h → h.current e.iterNum = some c →
      c.isClosed = false → e.purpose.isCreation = false → Linear κ jobDef (e :: h)

namespace Linear

variable {jobDef : JobDefinition} {h : History}

theorem tail {e : Entry} (hlinear : Linear κ jobDef (e :: h)) : Linear κ jobDef h := by
  cases hlinear with
  | first hempty _ _ =>
      subst hempty
      exact .empty
  | next hlinear _ _ _ _ _ => exact hlinear
  | rewrite hlinear _ _ _ => exact hlinear

/-- What the store held at any earlier time is a linear history too. -/
theorem suffix (older : History) :
    ∀ newer : History, Linear κ jobDef (newer ++ older) → Linear κ jobDef older
  | [], hlinear => hlinear
  | _ :: newer, hlinear => suffix older newer hlinear.tail

/-- A closed version is the last of its iteration. -/
theorem current_of_closed (hlinear : Linear κ jobDef h) {e : Entry} (he : e ∈ h)
    (hclosed : e.isClosed = true) : h.current e.iterNum = some e := by
  induction hlinear with
  | empty => cases he
  | first hempty _ _ =>
      subst hempty
      obtain rfl := List.mem_singleton.mp he
      simp [History.current]
  | @next h c e' n _ _ _ _ habsent _ ih =>
      rw [current_cons]
      rcases List.mem_cons.mp he with rfl | he
      · simp
      · rw [ih he, if_neg]
        intro heq
        rw [heq, ih he] at habsent
        cases habsent
  | @rewrite h c e' _ hcurrent hopen _ ih =>
      rw [current_cons]
      rcases List.mem_cons.mp he with rfl | he
      · simp
      · rw [ih he, if_neg]
        intro heq
        rw [heq, ih he] at hcurrent
        cases hcurrent
        rw [hopen] at hclosed
        cases hclosed

/-- A closed version is never followed by another of its iteration. -/
theorem closed_final (hlinear : Linear κ jobDef h) :
    h.Pairwise fun later earlier => earlier.isClosed = true → later.iterNum ≠ earlier.iterNum := by
  induction h with
  | nil => exact List.Pairwise.nil
  | cons e h ih =>
      refine List.Pairwise.cons ?_ (ih hlinear.tail)
      intro earlier hmem hclosed heq
      have hcurrent := hlinear.tail.current_of_closed hmem hclosed
      cases hlinear with
      | first hempty _ _ =>
          subst hempty
          cases hmem
      | next _ _ _ _ habsent _ =>
          rw [heq, hcurrent] at habsent
          cases habsent
      | rewrite _ hopen hnot _ =>
          rw [heq, hcurrent] at hopen
          cases hopen
          rw [hclosed] at hnot
          cases hnot

/-- A write creates its iteration exactly when the store held no version of it, and then
either the store was empty or the iteration before was closed and its successor due. -/
theorem creation {e : Entry} (hlinear : Linear κ jobDef (e :: h)) :
    (e.purpose.isCreation = true ↔ h.current e.iterNum = none) ∧
      (h.current e.iterNum = none → (h = [] ∧ e.iterNum = 1) ∨
        ∃ n c, e.iterNum = n + 1 ∧ h.current n = some c ∧ c.isClosed = true ∧
          IsDue κ jobDef c e) := by
  cases hlinear with
  | first hempty hone hpurpose =>
      subst hempty
      exact ⟨by simp [hpurpose, Purpose.isCreation, History.current], fun _ => Or.inl ⟨rfl, hone⟩⟩
  | @next _ c _ n hlinear hcurrent hclosed hnext habsent hdue =>
      obtain ⟨readyAt, hpurpose, -⟩ := id hdue
      exact ⟨by simp [hpurpose, Purpose.isCreation, habsent],
        fun _ => Or.inr ⟨n, c, hnext, hcurrent, hclosed, hdue⟩⟩
  | rewrite _ hcurrent _ hnot =>
      exact ⟨by simp [hnot, hcurrent], fun habsent => by rw [hcurrent] at habsent; cases habsent⟩

/-- An iteration is created at most once. -/
theorem creation_unique (hlinear : Linear κ jobDef h) :
    h.Pairwise fun later earlier =>
      later.purpose.isCreation = true → later.iterNum ≠ earlier.iterNum := by
  induction h with
  | nil => exact List.Pairwise.nil
  | cons e h ih =>
      refine List.Pairwise.cons ?_ (ih hlinear.tail)
      intro earlier hmem hcreation heq
      have habsent := hlinear.creation.1.mp hcreation
      obtain ⟨c, hc⟩ := current_of_mem hmem
      rw [heq, hc] at habsent
      cases habsent

/-- The stored iterations are numbered from one without gaps, only the newest may be open,
and there are no more than the description allows. -/
theorem numbers (hdef : jobDef.WellFormed) (hlinear : Linear κ jobDef h) :
    ∃ k, (∀ n, (∃ c, h.current n = some c) ↔ 1 ≤ n ∧ n ≤ k) ∧
      (∀ n c, h.current n = some c → c.isClosed = false → n = k) ∧
      ∀ m, jobDef.maxIterations = some m → k ≤ m := by
  induction hlinear with
  | empty =>
      refine ⟨0, ?_, by simp [History.current], by simp⟩
      intro n
      simp only [History.current, List.find?_nil, reduceCtorEq, exists_false, false_iff]
      omega
  | @first _ e hempty hone _ =>
      subst hempty
      refine ⟨1, ?_, ?_, ?_⟩
      · intro n
        rw [current_cons, hone]
        split
        · subst n
          simp
        · simp only [History.current, List.find?_nil, reduceCtorEq, exists_false, false_iff]
          omega
      · intro n c hc _
        obtain ⟨hmem, hiter⟩ := current_mem hc
        obtain rfl := List.mem_singleton.mp hmem
        exact hiter.symm.trans hone
      · intro m hm
        have hpositive := hdef.positive
        rw [hm] at hpositive
        have hne : m ≠ 0 := fun h => hpositive (by rw [h])
        omega
  | @next h c e n _ hcurrent hclosed hnext habsent hdue ih =>
      obtain ⟨k, hnumbers, hopen, hbound⟩ := ih
      have hn := (hnumbers n).mp ⟨c, hcurrent⟩
      -- the successor is missing, so the closed iteration is the newest
      have hk : n = k := by
        by_contra hne
        obtain ⟨c', hc'⟩ := (hnumbers (n + 1)).mpr ⟨by omega, by omega⟩
        rw [hnext, hc'] at habsent
        cases habsent
      subst hk
      refine ⟨n + 1, ?_, ?_, ?_⟩
      · intro i
        rw [current_cons, hnext]
        split
        · subst i
          simp
        · rw [hnumbers]
          omega
      · intro i c' hc' hnot
        rw [current_cons, hnext] at hc'
        split at hc'
        · exact Eq.symm ‹_›
        · obtain rfl := hopen i c' hc' hnot
          rw [hcurrent] at hc'
          cases hc'
          rw [hclosed] at hnot
          cases hnot
      · intro m hm
        obtain ⟨readyAt, -, -, hready⟩ := hdue
        have hlimit := (Job.findIterationStatus_eq_ready.mp hready).2.1
        have hiter : (c.load jobDef).iterNum = n := (current_mem hcurrent).2
        unfold Job.isIterationLimitReached at hlimit
        rw [show (c.load jobDef).maxIterations = jobDef.maxIterations from rfl, hm, hiter] at hlimit
        have hlt : n < m := by simpa using hlimit
        exact hlt
  | @rewrite h c e _ hcurrent hnot _ ih =>
      obtain ⟨k, hnumbers, hopen, hbound⟩ := ih
      refine ⟨k, ?_, ?_, hbound⟩
      · intro n
        rw [current_cons, ← hnumbers]
        split
        · subst n
          simp [hcurrent]
        · rfl
      · intro n c' hc' hnot'
        rw [current_cons] at hc'
        split at hc'
        · subst n
          exact hopen _ c hcurrent hnot
        · exact hopen n c' hc' hnot'

end Linear

/-! ## Every reachable history is linear -/

section Reachable

variable {jobDef : JobDefinition} {g : Pedigree} {s : System} {w : Uuid} {job : Job}
  {purpose : Purpose} {version : String}

/-- A copy without a version to replace creates its iteration. -/
theorem SavingBasis.isCreation (hinv : Inv κ jobDef g s)
    (hbasis : SavingBasis κ jobDef s w job purpose) (hversion : job.version = "") :
    purpose.isCreation = true := by
  have hnone : ∀ e ∈ s.history, ¬ BasedOn e job := by
    intro e he hbased
    exact (hinv.entries e he).versioned (hbased.version.trans hversion)
  cases purpose with
  | create => rfl
  | nextIteration readyAt => rfl
  | start taskId =>
      obtain ⟨⟨e, he, hbased⟩, -⟩ := hbasis
      exact absurd hbased (hnone e he)
  | result taskId =>
      obtain ⟨⟨e, he, hbased⟩, -⟩ := hbasis
      exact absurd hbased (hnone e he)
  | settle =>
      obtain ⟨e, he, hbased⟩ := hbasis
      exact absurd hbased (hnone e he)

/-- A creation has no version to replace. -/
theorem SavingBasis.version_of_isCreation (hbasis : SavingBasis κ jobDef s w job purpose)
    (hcreation : purpose.isCreation = true) : job.version = "" := by
  cases purpose with
  | create => exact hbasis.1
  | nextIteration readyAt => exact hbasis.1
  | _ => cases hcreation

/-- An accepted write continues a linear history. -/
theorem Linear.put (hdef : jobDef.WellFormed) (hinv : Inv κ jobDef g s)
    (hlinear : Linear κ jobDef s.history) (hbasis : SavingBasis κ jobDef s w job purpose)
    (haccepts : s.history.accepts job = true) :
    Linear κ jobDef (.ofJob job version w purpose s.clock :: s.history) := by
  cases hcurrent : s.history.current job.iterNum with
  | some c =>
      refine .rewrite hlinear hcurrent (replaces_base hinv hbasis haccepts hcurrent).isOpen ?_
      change purpose.isCreation = false
      by_contra hcreation
      exact (accepts_current haccepts hcurrent).1
        (hbasis.version_of_isCreation (by simpa using hcreation))
  | none =>
      have hversion := accepts_absent haccepts hcurrent
      have hcreation := hbasis.isCreation hinv hversion
      obtain ⟨k, hnumbers, -⟩ := hlinear.numbers hdef
      cases purpose with
      | create =>
          obtain ⟨-, -, hone⟩ := hbasis
          -- the first iteration is missing, so nothing is stored
          refine .first ?_ hone rfl
          rw [List.eq_nil_iff_forall_not_mem]
          intro e he
          have hk := (hnumbers e.iterNum).mp (current_of_mem he)
          obtain ⟨c, hc⟩ := (hnumbers 1).mpr ⟨Nat.le_refl 1, by omega⟩
          rw [hone, hc] at hcurrent
          cases hcurrent
      | nextIteration readyAt =>
          obtain ⟨-, -, e, he, hnext, hclosed, hbefore, hready⟩ := hbasis
          exact .next hlinear (hlinear.current_of_closed he hclosed) hclosed hnext.symm hcurrent
            ⟨readyAt, rfl, hbefore, hready⟩
      | start taskId => cases hcreation
      | result taskId => cases hcreation
      | settle => cases hcreation

theorem reachable_linear (hdef : jobDef.WellFormed)
    (h : Reachable (step κ jobDef) System.init s) : Linear κ jobDef s.history := by
  have hboth : (∃ g, Inv κ jobDef g s) ∧ Linear κ jobDef s.history := by
    refine ReachableUnder.invariant
      (P := fun s => (∃ g, Inv κ jobDef g s) ∧ Linear κ jobDef s.history)
      ⟨reachable_inv hdef .init, .empty⟩ ?_ h
    rintro s a s' ⟨⟨g, hinv⟩, hlinear⟩ - hstep
    obtain ⟨g', -, hinv'⟩ := hinv.step hdef hstep
    refine ⟨⟨g', hinv'⟩, ?_⟩
    rcases step_cases hstep with ⟨elapsed, -, rfl⟩ | ⟨w, action, phase, ids, -, -, rfl⟩ |
      ⟨w, version, delivered, job, purpose, -, hphase, haccepts, -, rfl⟩
    · exact hlinear
    · exact hlinear
    · have hok := hinv.workers w
      rw [hphase] at hok
      exact hlinear.put hdef hinv hok.2.2 haccepts
  exact hboth.2

end Reachable

/-- In every reachable state, whatever the clocks of the workers: a closed version is the
last of its iteration; an iteration is created at most once, in an empty store or after the
iteration before was stored closed and its successor due at the creator's clock; the stored
iterations are numbered from one without gaps, the newest alone may be open and the
description's bound is kept; and a closed version holds no unfinished task. -/
theorem iteration_history_linear {jobDef : JobDefinition} (hdef : jobDef.Accepted) {s : System}
    (h : Reachable (step κ jobDef) System.init s) :
    (s.history.Pairwise fun later earlier =>
        earlier.isClosed = true → later.iterNum ≠ earlier.iterNum) ∧
      (s.history.Pairwise fun later earlier =>
        later.purpose.isCreation = true → later.iterNum ≠ earlier.iterNum) ∧
      (∀ (newer : History) (e : Entry) (older : History), s.history = newer ++ e :: older →
        (e.purpose.isCreation = true ↔ older.current e.iterNum = none) ∧
        (older.current e.iterNum = none → (older = [] ∧ e.iterNum = 1) ∨
          ∃ n c, e.iterNum = n + 1 ∧ older.current n = some c ∧ c.isClosed = true ∧
            IsDue κ jobDef c e)) ∧
      (∃ k, (∀ n, (∃ e ∈ s.history, e.iterNum = n) ↔ 1 ≤ n ∧ n ≤ k) ∧
        (∀ n c, s.history.current n = some c → c.isClosed = false → n = k) ∧
        ∀ m, jobDef.maxIterations = some m → k ≤ m) ∧
      ∀ e ∈ s.history, e.isClosed = true → ∃ moment, e.state.completedAt = some moment ∧
        ∀ id t, e.tasks.get id = some t → Finished t moment := by
  have hlinear := reachable_linear hdef.wellFormed h
  obtain ⟨g, hinv⟩ := reachable_inv hdef.wellFormed h
  refine ⟨hlinear.closed_final, hlinear.creation_unique, ?_, ?_,
    fun e he => (hinv.entries e he).closes⟩
  · intro newer e older hsplit
    rw [hsplit] at hlinear
    exact (Linear.suffix (e :: older) newer hlinear).creation
  · obtain ⟨k, hnumbers, hopen, hbound⟩ := hlinear.numbers hdef.wellFormed
    refine ⟨k, ?_, hopen, hbound⟩
    intro n
    rw [← hnumbers]
    constructor
    · rintro ⟨e, he, rfl⟩
      exact current_of_mem he
    · rintro ⟨c, hc⟩
      exact ⟨c, current_mem hc⟩

/-- Two tasks, the second waiting for the first. -/
def chainDefinition : JobDefinition where
  code := "chain"
  initialTasks := [.new "first" (milliseconds 100000),
    { TaskDefinition.new "second" (milliseconds 100000) with dependsOn := [.initial 7 0] }]
  taskExecutors := [("second", 2), ("first", 1)]
  maxIterations := none
  iterationInterval := none
  taskLimits := .default
  iterationRetention := defaultIterationRetention

theorem chainDefinition_accepted : chainDefinition.Accepted :=
  .new (show JobDefinition.new 7 "chain"
    [(.new "first" (milliseconds 100000), 1), (.new "second" (milliseconds 100000), 2)] []
    [(.initial 7 1, [.initial 7 0])] .default = .ok chainDefinition from rfl)

/-- One worker completes both tasks and creates the second iteration; the reply to that
write is lost, and the repeated write is refused. -/
def chainRounds : List Action :=
  [.move 101 .readNothing, .move 101 (.create 0 900 [1, 2]), .put 101 "v1" true,
    .move 101 (.pick (.at 0 [1, 2]) 0), .put 101 "v2" true,
    .move 101 (.finish (.completed []) 0 0), .put 101 "v3" true,
    .move 101 (.read 1 none), .move 101 (.pick (.at 0 [1, 2]) 0), .put 101 "v4" true,
    .move 101 (.finish (.completed []) 0 0), .put 101 "v5" true,
    .move 101 (.read 1 none), .move 101 (.advance 0 901 [3, 4]), .put 101 "v6" false,
    .move 101 .refused]

theorem chainRounds_linear :
    ∃ s, runActions (step .shared chainDefinition) System.init chainRounds = some s ∧
      s.history.map (fun e => (e.iterNum, e.isClosed)) =
        [(2, false), (1, true), (1, false), (1, false), (1, false), (1, false)] ∧
      s.history.Pairwise fun later earlier =>
        earlier.isClosed = true → later.iterNum ≠ earlier.iterNum := by
  have hruns : (runActions (step .shared chainDefinition) System.init chainRounds).map
      (fun s => s.history.map fun e => (e.iterNum, e.isClosed)) =
        some [(2, false), (1, true), (1, false), (1, false), (1, false), (1, false)] := by
    decide +kernel
  obtain ⟨s, hs, hhistory⟩ := Option.map_eq_some_iff.mp hruns
  exact ⟨s, hs, hhistory, (iteration_history_linear chainDefinition_accepted
    (reachable_of_runActions .init hs)).1⟩

end JobManager
