import JobManager.Protocol.Findings

/-!
# When a completed result survives

A save that lost its race carries onto the state that won every entry of the worker's
copy that names the worker, not only the task it saves.  An entry the worker holds
from an earlier execution of its own can be out of date by then: another worker's result
is overwritten with it, or a task whose execution created others is open again, and its
next failure drops them with their results.  Along merges that do neither, what was
completed stays completed.

Main results:

- Theorem {lit}`result_lost`: a run of two workers that loses a completed result.
- Theorem {lit}`completed_results_kept`: no result is lost along merges that take none
  back.
-/

namespace JobManager

variable {κ : Clocks}

/-- The map holds the task as completed with the given output. -/
def HoldsResult (m : TaskMap) (id : Uuid) (output : Bytes) : Prop :=
  ∃ t, m.get id = some t ∧ t.status = .completed ∧ t.output = output

/-- Whatever a version holds as completed, every later version of the iteration holds as
completed with the same output. -/
def KeepsResults (h : History) : Prop :=
  h.Pairwise fun later earlier => later.iterNum = earlier.iterNum →
    ∀ id output, HoldsResult earlier.tasks id output → HoldsResult later.tasks id output

/-- Whether a worker's own entry of a task agrees with the result that is stored, where
one is. -/
def agreesOnResult (t : Task) (stored : Option Task) : Bool :=
  match stored with
  | none => true
  | some stored =>
      stored.status ≠ .completed || (t.status = .completed && t.output = stored.output)

/-- Whether a merge of a result that goes through carries no outdated entry over a completed
task: where the stored state holds another task as completed, the worker's own entry of it
agrees. -/
def carriesNoStaleResult (s : System) : Action → Bool
  | .move w (.merge _ _) =>
      match (s.workers w).phase with
      | .merging job saved (.result taskId) =>
          !saved.acceptsResult job w taskId ||
            job.tasks.all fun t => t.id = taskId || t.processingByWorker ≠ some w ||
              agreesOnResult t (saved.task? t.id)
      | _ => true
  | _ => true

/-- Whether a merge takes no result back: it carries no outdated entry over a completed task,
and keeps whoever created a task done. -/
def takesNothingBack (s : System) (a : Action) : Bool :=
  carriesNoStaleResult s a && keepsCreators s a

/-! ## Results as findings -/

/-- What a completed task put out. -/
def completions : Finding Bytes where
  of t := if t.status = .completed then some t.output else none
  concluded hsound h := by
    split at h <;> rename_i hcompleted
    · exact ⟨Or.inl hcompleted, hsound.owned (Or.inr hcompleted)⟩
    · cases h
  persisted _ := rfl

/-- A completed task has found its output. -/
theorem completions_of_eq_some {t : Task} {output : Bytes} :
    completions.of t = some output ↔ t.status = .completed ∧ t.output = output := by
  change (if t.status = .completed then some t.output else none) = some output ↔ _
  by_cases hcompleted : t.status = .completed <;> simp [hcompleted]

/-- A version that has found a completion holds the result. -/
theorem holds_completions {m : TaskMap} {id : Uuid} {output : Bytes} :
    completions.Holds m id output ↔ HoldsResult m id output := by
  simp only [Finding.Holds, HoldsResult, completions_of_eq_some]

/-- A merge that carries no outdated entry agrees with the results stored. -/
theorem agreesOn_of_carriesNoStaleResult {s : System} {a : Action}
    (h : carriesNoStaleResult s a = true) : completions.AgreesOn s a := by
  unfold Finding.AgreesOn
  split
  · rename_i w first second
    split
    · rename_i job saved taskId hphase
      intro haccepts id t stored output hid ht howner hstored hfound
      obtain ⟨hcompleted, rfl⟩ := completions_of_eq_some.mp hfound
      simp only [carriesNoStaleResult, hphase, haccepts, Bool.not_true, Bool.false_or,
        List.all_eq_true] at h
      have hagrees := h t (Job.mem_tasks_of_task? ht)
      rw [Job.id_of_task? ht, hstored] at hagrees
      refine completions_of_eq_some.mpr ?_
      simpa [hid, howner, agreesOnResult, hcompleted] using hagrees
    · trivial
  · trivial

/-- Along any run whose merges take no result back, whatever the clocks of the workers, no
completed result is lost. -/
theorem completed_results_kept {jobDef : JobDefinition} (hdef : jobDef.Accepted) {s : System}
    (h : ReachableUnder (step κ jobDef) (fun s a => takesNothingBack s a = true)
      System.init s) :
    KeepsResults s.history := by
  have hsplit : ∀ {s a}, takesNothingBack s a = true →
      carriesNoStaleResult s a = true ∧ keepsCreators s a = true := fun h =>
    Bool.and_eq_true_iff.mp h
  obtain ⟨-, -, hfound⟩ := reachable_calm hdef.wellFormed (findingInv_init completions)
    (fun _ _ _ hback => (hsplit hback).2)
    (fun hinv hcalm hfound hback hstep => hfound.step hdef.wellFormed hinv hcalm
      (agreesOn_of_carriesNoStaleResult (hsplit hback).1) hstep) h
  refine hfound.kept.imp fun hkept hiter id output => ?_
  rw [← holds_completions, ← holds_completions]
  exact hkept hiter id output

/-- Two tasks that wait for nothing. -/
def pairDefinition : JobDefinition where
  code := "pair"
  initialTasks := [.new "left" (milliseconds 100000), .new "right" (milliseconds 100000)]
  taskExecutors := [("right", 2), ("left", 1)]
  maxIterations := none
  iterationInterval := none
  taskLimits := .default
  iterationRetention := defaultIterationRetention

theorem pairDefinition_accepted : pairDefinition.Accepted :=
  .new (show JobDefinition.new 7 "pair"
    [(.new "left" (milliseconds 100000), 1), (.new "right" (milliseconds 100000), 2)] [] []
    .default = .ok pairDefinition from rfl)

/-- Two workers execute the two tasks at a time; the second one's save loses its race and
is merged. -/
def pairRace : List Action :=
  [.move 101 .readNothing, .move 101 (.create 0 900 [1, 2]), .put 101 "v1" true,
    .move 101 (.pick (.at 0 [1, 2]) 0), .put 101 "v2" true,
    .move 102 (.read 1 none), .move 102 (.pick (.at 0 [1, 2]) 0), .put 102 "v3" true,
    .move 101 (.finish (.completed [7]) 0 0), .move 101 .refused, .move 101 (.reread 1 none),
    .move 101 (.merge 0 0), .put 101 "v4" true,
    .move 102 (.finish (.completed [8]) 0 0), .move 102 .refused, .move 102 (.reread 1 none),
    .move 102 (.merge 0 0), .put 102 "v5" true]

theorem pairRace_keeps :
    ∃ s, runAdmitted (step .shared pairDefinition) takesNothingBack System.init pairRace =
        some s ∧ s.history.length = 5 ∧ KeepsResults s.history := by
  have hruns : (runAdmitted (step .shared pairDefinition) takesNothingBack System.init
      pairRace).map (fun s => s.history.length) = some 5 := by
    decide +kernel
  obtain ⟨s, hs, hlength⟩ := Option.map_eq_some_iff.mp hruns
  exact ⟨s, hs, hlength, completed_results_kept pairDefinition_accepted
    (reachableUnder_of_runAdmitted .init hs)⟩

/-- The first worker fails the left task and starts the right one.  The second worker
completes the left task meanwhile, and the first one's save of the right task carries its
own old failure of the left one over that result. -/
def pairLoss : List Action :=
  [.move 101 .readNothing, .move 101 (.create 0 900 [1, 2]), .put 101 "v1" true,
    .move 101 (.pick (.at 0 [1, 2]) 0), .put 101 "v2" true,
    .move 101 (.finish (.error "out of reach") 0 0), .put 101 "v3" true,
    .tick (milliseconds 2000),
    .move 101 (.read 1 none),
    .move 101 (.pick (.at (milliseconds 2000) [2, 1]) (milliseconds 2000)), .put 101 "v4" true,
    .move 102 (.read 1 none),
    .move 102 (.pick (.at (milliseconds 2000) [1, 2]) (milliseconds 2000)), .put 102 "v5" true,
    .move 102 (.finish (.completed [7]) (milliseconds 2000) (milliseconds 2000)),
    .put 102 "v6" true,
    .move 101 (.finish (.completed [8]) (milliseconds 2000) (milliseconds 2000)),
    .move 101 .refused, .move 101 (.reread 1 none),
    .move 101 (.merge (milliseconds 2000) (milliseconds 2000)), .put 101 "v7" true]

/-- Whether the newest version no longer holds as completed a task the one before it
does. -/
def newestLoses (id : Uuid) : History → Bool
  | later :: earlier :: _ =>
      later.iterNum = earlier.iterNum && (earlier.tasks.get id).any (·.status = .completed) &&
        (later.tasks.get id).all (·.status ≠ .completed)
  | _ => false

/-- A version that loses a result breaks the promise. -/
theorem not_keepsResults_of_newestLoses {id : Uuid} {h : History}
    (hloses : newestLoses id h = true) : ¬ KeepsResults h := by
  match h with
  | [] => cases hloses
  | [_] => cases hloses
  | later :: earlier :: older =>
      simp only [newestLoses, Bool.and_eq_true, decide_eq_true_eq] at hloses
      obtain ⟨⟨hiter, hheld⟩, hlost⟩ := hloses
      intro hkept
      obtain ⟨t, ht, hcompleted⟩ := (Option.any_eq_true _ _).mp hheld
      rw [KeepsResults, List.pairwise_cons] at hkept
      obtain ⟨t', ht', hcompleted', -⟩ := hkept.1 earlier (by simp) hiter id t.output
        ⟨t, ht, by simpa using hcompleted, rfl⟩
      have hnot := (Option.all_eq_true _ _).mp hlost t' ht'
      simp [hcompleted'] at hnot

/-- A completed result can be lost. -/
theorem result_lost : pairDefinition.Accepted ∧
    ∃ s, Reachable (step .shared pairDefinition) System.init s ∧ ¬ KeepsResults s.history := by
  have hruns : (runActions (step .shared pairDefinition) System.init pairLoss).any
      (fun s => newestLoses 1 s.history) = true := by
    decide +kernel
  refine ⟨pairDefinition_accepted, ?_⟩
  obtain ⟨s, hs, hloses⟩ := (Option.any_eq_true _ _).mp hruns
  exact ⟨s, reachable_of_runActions .init hs, not_keepsResults_of_newestLoses hloses⟩

end JobManager
