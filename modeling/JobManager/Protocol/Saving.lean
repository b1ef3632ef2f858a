import JobManager.Execution.Record
import JobManager.Protocol.Merges

/-!
# One execution and the save of its result

An execution is followed from the acknowledged write of its start to the end of its save,
with a record of what it added, what it set, how its task ended and which stored states its
save met.  What it added is known to nobody else until it is written, so no stored state the
save meets holds it.

Main results:

- Theorem {lit}`saved_result_durable`: the version that saves a result holds the result and
  what the execution added, however often the save was merged.
-/

namespace JobManager

variable {κ : Clocks}

/-! ## The record of an execution -/

/-- The worker whose action it is. -/
def Action.actor : Action → Option Uuid
  | .tick _ => none
  | .move w _ => some w
  | .put w _ _ => some w

/-- What is recorded of an execution: the copy it began with, the tasks it added as it added
them, the last moment it set for the next iteration, how its task ended and the store then,
and the stored states its save was merged into, newest first. -/
structure Execution where
  begun : Job
  added : List Task
  nextStartAt : Option Nat
  ended : Option (Task × History)
  met : List Job

namespace Execution

/-- An execution that did nothing yet. -/
def begin (job : Job) : Execution := ⟨job, [], none, none, []⟩

/-- What an accepted call adds to the record. -/
def afterCall (x : Execution) (call : HandleCall) (job' : Job) : Execution :=
  { x with
    added := call.minted.filterMap job'.task? ++ x.added
    nextStartAt := call.sets.or x.nextStartAt }

/-- The record after an action, for as long as the execution or its save goes on. -/
def after (w taskId : Uuid) (s : System) (x : Execution) (a : Action) : Option Execution :=
  if a.actor ≠ some w then some x
  else
    match a, (s.workers w).phase with
    | .move _ (.call now call), .executing job _ =>
        match call.serve w taskId now job with
        | (.ok (), job') => some (x.afterCall call job')
        | (.error _, _) => some x
    | .move _ (.finish outcome now _), .executing job _ =>
        match applyExecutorOutcome w taskId outcome now job with
        | (.ok _, job') =>
            (job'.task? taskId).map fun t => { x with ended := some (t, s.history) }
        | (.error _, _) => none
    | .move _ .refused, .saving _ _ => some x
    | .move _ (.reread _ _), .conflicted _ _ => some x
    | .move _ (.merge first second), .merging job saved purpose =>
        match resolveConflict w job saved first second purpose with
        | .saving _ _ => some { x with met := saved :: x.met }
        | _ => none
    | _, _ => none

end Execution

/-- A run in which worker {lit}`w` has begun to execute the task and has not ended its save,
with the record of that execution. -/
inductive Executes (κ : Clocks) (jobDef : JobDefinition) (w taskId : Uuid) :
    System → Execution → Prop
  | begin {s s' : System} {version : String} {job : Job} :
      Reachable (step κ jobDef) System.init s →
      step κ jobDef s (.put w version true) = some s' →
      (s'.workers w).phase = .executing job taskId → Executes κ jobDef w taskId s' (.begin job)
  | next {s s' : System} {x x' : Execution} {a : Action} :
      Executes κ jobDef w taskId s x → step κ jobDef s a = some s' →
      x.after w taskId s a = some x' → Executes κ jobDef w taskId s' x'

section Advances

variable {jobDef : JobDefinition} {w taskId : Uuid} {s s' : System} {x x' : Execution}
  {a : Action}

/-- What an execution is followed over is a run. -/
theorem Executes.reachable (h : Executes κ jobDef w taskId s x) :
    Reachable (step κ jobDef) System.init s := by
  induction h with
  | begin hreach hput _ => exact .step hreach trivial hput
  | next _ hstep _ ih => exact .step ih trivial hstep

/-- The phase of a worker that executes the task or saves what came of it. -/
def Phase.OfExecution (taskId : Uuid) : Phase → Prop
  | .executing _ id => id = taskId
  | .saving _ purpose => purpose = .result taskId
  | .conflicted _ purpose => purpose = .result taskId
  | .merging _ _ purpose => purpose = .result taskId
  | _ => False

/-- What an action leaves of a followed execution. -/
inductive Advances (κ : Clocks) (jobDef : JobDefinition) (w taskId : Uuid) (s : System)
    (x : Execution) : System → Execution → Prop
  | other {s' : System} {a : Action} :
      a.actor ≠ some w → step κ jobDef s a = some s' → Advances κ jobDef w taskId s x s' x
  | call {job job' : Job} {now : Nat} {call : HandleCall} :
      (s.workers w).phase = .executing job taskId → areFresh s.minted call.minted = true →
      call.serve w taskId now job = (.ok (), job') →
      Advances κ jobDef w taskId s x (s.enter w (.executing job' taskId) call.minted)
        (x.afterCall call job')
  | callRefused {job : Job} :
      (s.workers w).phase = .executing job taskId →
      Advances κ jobDef w taskId s x (s.enter w (.executing job taskId) []) x
  | finish {job job₁ : Job} {t : Task} {outcome : ExecutorOutcome} {now settleAt : Nat}
      {r : TaskResolution} :
      (s.workers w).phase = .executing job taskId →
      applyExecutorOutcome w taskId outcome now job = (.ok r, job₁) →
      job₁.task? taskId = some t →
      Advances κ jobDef w taskId s x
        (s.enter w (.saving (Job.trySettleIteration w settleAt job₁).2 (.result taskId)) [])
        { x with ended := some (t, s.history) }
  | refused {job : Job} :
      (s.workers w).phase = .saving job (.result taskId) →
      Advances κ jobDef w taskId s x (s.enter w (.conflicted job (.result taskId)) []) x
  | reread {job saved : Job} {n : Nat} {kept : Option Nat} :
      (s.workers w).phase = .conflicted job (.result taskId) →
      s.history.read jobDef n kept = some saved →
      Advances κ jobDef w taskId s x (s.enter w (.merging job saved (.result taskId)) []) x
  | merge {job saved job' : Job} {now : Nat} {r : Except JobError Unit} :
      (s.workers w).phase = .merging job saved (.result taskId) →
      Job.mergeWithProcessedTask job w taskId now saved = (r, job') →
      (r = .ok () ∨ ∃ jobCode tasks, r = .error (.iterationDeadlock jobCode tasks)) →
      Advances κ jobDef w taskId s x (s.enter w (.saving job' (.result taskId)) [])
        { x with met := saved :: x.met }

/-- A result merge whose save goes on. -/
theorem resolveConflict_result_saving {job saved job' : Job} {first second : Nat}
    {purpose : Purpose}
    (h : resolveConflict w job saved first second (.result taskId) = .saving job' purpose) :
    purpose = .result taskId ∧ ∃ r, Job.mergeWithProcessedTask job w taskId second saved =
      (r, job') ∧
        (r = .ok () ∨ ∃ jobCode tasks, r = .error (.iterationDeadlock jobCode tasks)) := by
  rw [resolveConflict] at h
  split at h
  · rename_i merged hmerge
    cases h
    exact ⟨rfl, _, hmerge, Or.inl rfl⟩
  · rename_i jobCode tasks merged hmerge
    cases h
    exact ⟨rfl, _, hmerge, Or.inr ⟨jobCode, tasks, rfl⟩⟩
  · cases h

/-- What a move of worker {lit}`w` leaves. -/
theorem step_move {action : WorkerAction}
    (h : step κ jobDef s (.move w action) = some s') :
    ∃ phase ids, workerMove κ jobDef s w (s.workers w).phase action = some (phase, ids) ∧
      s' = s.enter w phase ids := by
  rw [step] at h
  split at h
  · rename_i phase ids hmove
    cases h
    exact ⟨phase, ids, hmove, rfl⟩
  · cases h

/-- An action after which the record goes on is one of those listed. -/
theorem advances_of_after (hphase : (s.workers w).phase.OfExecution taskId)
    (hstep : step κ jobDef s a = some s') (hafter : x.after w taskId s a = some x') :
    Advances κ jobDef w taskId s x s' x' := by
  unfold Execution.after at hafter
  split at hafter <;> rename_i hactor
  · cases hafter
    exact .other hactor hstep
  · rw [not_not] at hactor
    split at hafter
    · rename_i w' now call job id hworker
      cases hactor
      rw [hworker] at hphase
      cases hphase
      obtain ⟨phase, ids, hmove, rfl⟩ := step_move hstep
      rw [hworker, workerMove] at hmove
      split at hmove <;> rename_i hguard
      · rw [Bool.and_eq_true] at hguard
        split at hmove <;> rename_i job' hserve
        · rw [hserve] at hafter
          cases hmove
          cases hafter
          exact .call hworker hguard.2 hserve
        · rw [hserve] at hafter
          cases hmove
          cases hafter
          rw [HandleCall.serve_refusesCleanly _ _ _ _ _ _ _ hserve]
          exact .callRefused hworker
      · cases hmove
    · rename_i w' outcome now settleAt job id hworker
      cases hactor
      rw [hworker] at hphase
      cases hphase
      obtain ⟨phase, ids, hmove, rfl⟩ := step_move hstep
      rw [hworker, workerMove] at hmove
      split at hmove
      · cases hmove
        split at hafter <;> rename_i job₁ happly
        · rw [Option.map_eq_some_iff] at hafter
          obtain ⟨t, ht, rfl⟩ := hafter
          rw [finishExecution, happly]
          exact .finish hworker happly ht
        · cases hafter
      · cases hmove
    · rename_i w' job purpose hworker
      cases hactor
      cases hafter
      rw [hworker] at hphase
      cases hphase
      obtain ⟨phase, ids, hmove, rfl⟩ := step_move hstep
      rw [hworker, workerMove] at hmove
      split at hmove
      · cases hmove
      · cases hmove
        exact .refused hworker
    · rename_i w' n kept job purpose hworker
      cases hactor
      cases hafter
      rw [hworker] at hphase
      cases hphase
      obtain ⟨phase, ids, hmove, rfl⟩ := step_move hstep
      rw [hworker, workerMove, Option.map_eq_some_iff] at hmove
      obtain ⟨saved, hread, hmove⟩ := hmove
      cases hmove
      exact .reread hworker hread
    · rename_i w' first second job saved purpose hworker
      cases hactor
      rw [hworker] at hphase
      cases hphase
      obtain ⟨phase, ids, hmove, rfl⟩ := step_move hstep
      rw [hworker, workerMove] at hmove
      split at hmove
      · cases hmove
        split at hafter
        · rename_i job' purpose' hresolve
          cases hafter
          obtain ⟨rfl, r, hmerge, hgoes⟩ := resolveConflict_result_saving hresolve
          rw [hresolve]
          exact .merge hworker hmerge hgoes
        · cases hafter
      · cases hmove
    · cases hafter

end Advances

/-! ## What only one worker knows -/

theorem LocalRun.holds {w : Uuid} {touches : Touch → Prop} {lo hi : Nat} {m m' : TaskMap}
    (h : LocalRun κ w touches lo hi m m') :
    ∀ id t', m'.get id = some t' → (∃ t, m.get id = some t) ∨ ∃ p, touches (.added id p) := by
  refine TimedRun.preserves_untimed (P := fun m' => ∀ id t', m'.get id = some t' →
    (∃ t, m.get id = some t) ∨ ∃ p, touches (.added id p)) ?_ h (fun id t ht => Or.inl ⟨t, ht⟩)
  rintro now m₁ m₂ ⟨touch, htouch, hstep⟩ ih id t₂ ht₂
  rcases hstep.predecessor ht₂ with ⟨t₁, ht₁, -⟩ | ⟨p, -, -, rfl, -⟩
  · exact ih id t₁ ht₁
  · exact Or.inr ⟨p, htouch⟩

/-- What the reader of a version holds is stored. -/
theorem History.Serves.exists_stored {jobDef : JobDefinition} {h : History} {e : Entry} {job : Job}
    (hserves : h.Serves jobDef e job) (he : e ∈ h) {id : Uuid} {t : Task}
    (ht : job.task? id = some t) : ∃ e ∈ h, ∃ t, e.tasks.get id = some t := by
  rcases hserves with rfl | ⟨e', he', -, -, rfl⟩
  · exact ⟨e, he, t, ht⟩
  · exact ⟨e', he', t.persisted, by rw [e'.get_tasks, ht, Option.map_some]⟩

/-- No stored version and no copy of another worker holds the task. -/
structure KnownOnlyTo (s : System) (w id : Uuid) : Prop where
  minted : id ∈ s.minted
  stored : ∀ e ∈ s.history, e.tasks.get id = none
  copies : ∀ w' ≠ w, ∀ job ∈ (s.workers w').phase.copies, job.task? id = none

section Known

variable {jobDef : JobDefinition} {g : Pedigree} {s s' : System} {w id : Uuid}

/-- What the copies of a worker hold after a move, they held before, or the store did, or it
was minted now. -/
theorem Moves.holds {p p' : Phase} {action : WorkerAction} {ids : List Uuid}
    (hok : PhaseOk κ jobDef g s w p) (hmoves : Moves κ jobDef s w p action p' ids) :
    ∀ job' ∈ p'.copies, ∀ id t', job'.task? id = some t' →
      (∃ job ∈ p.copies, ∃ t, job.task? id = some t) ∨
        (∃ e ∈ s.history, ∃ t, e.tasks.get id = some t) ∨ id ∈ ids := by
  -- the copy that a run of steps that add nothing leads to
  have hrun : ∀ {job job' : Job} {touches : Touch → Prop} {lo hi : Nat} {κ' : Clocks},
      job ∈ p.copies → LocalRun κ' w touches lo hi job.tasksById job'.tasksById →
      (∀ id p, ¬ touches (.added id p)) → ∀ id t', job'.task? id = some t' →
      (∃ job ∈ p.copies, ∃ t, job.task? id = some t) ∨
        (∃ e ∈ s.history, ∃ t, e.tasks.get id = some t) ∨ id ∈ ids := by
    intro job job' touches lo hi κ' hjob hrun hnone id t' ht'
    rcases LocalRun.holds hrun id t' ht' with hheld | ⟨p, hp⟩
    · exact Or.inl ⟨job, hjob, hheld⟩
    · exact absurd hp (hnone id p)
  have hplanned : ∀ {job : Job}, job.Planned jobDef w ids → ∀ id t', job.task? id = some t' →
      id ∈ ids := by
    intro job hplanned id t' ht'
    obtain ⟨q, taskDef, resolved, hq, -⟩ := hplanned.planned id t' ht'
    rw [Job.id_of_task? ht'] at hq
    exact List.mem_of_getElem? hq
  cases hmoves with
  | idle => simp [Phase.copies]
  | missing _ => simp [Phase.copies]
  | read hread hserves =>
      intro job' hjob' id t' ht'
      obtain rfl := List.mem_singleton.mp hjob'
      have hmem := (current_mem (readable_current hread).1).1
      exact Or.inr (Or.inl (hserves.exists_stored hmem ht'))
  | create _ _ hplan _ =>
      intro job' hjob' id t' ht'
      obtain rfl := List.mem_singleton.mp hjob'
      exact Or.inr (Or.inr (hplanned hplan id t' ht'))
  | advance _ _ _ _ _ hplan _ =>
      intro job' hjob' id t' ht'
      obtain rfl := List.mem_singleton.mp hjob'
      exact Or.inr (Or.inr (hplanned hplan id t' ht'))
  | @start job job'' m t t' moments now _ hderived _ ht hstart htasks _ _ =>
      intro job' hjob'
      obtain rfl := List.mem_singleton.mp hjob'
      have hpicked := localRun_of_start hderived ht hstart htasks
      exact hrun (by simp [Phase.copies]) hpicked (by simp [Touch.IsPickup])
  | settle _ hderived _ _ _ _ _ _ =>
      intro job' hjob'
      obtain rfl := List.mem_singleton.mp hjob'
      exact hrun (by simp [Phase.copies]) hderived (by simp)
  | refused =>
      intro job' hjob' id t' ht'
      exact Or.inl ⟨job', hjob', t', ht'⟩
  | reread hread hserves =>
      intro job' hjob' id t' ht'
      simp only [Phase.copies, List.mem_cons, List.not_mem_nil, or_false] at hjob'
      rcases hjob' with rfl | rfl
      · exact Or.inl ⟨job', by simp [Phase.copies], t', ht'⟩
      · have hmem := (current_mem (readable_current hread).1).1
        exact Or.inr (Or.inl (hserves.exists_stored hmem ht'))
  | adopt _ =>
      intro job' hjob' id t' ht'
      obtain rfl := List.mem_singleton.mp hjob'
      exact Or.inl ⟨job', by simp [Phase.copies], t', ht'⟩
  | @mergeStart job saved job'' taskId stored workerTask m first second _ _ _ _ hworker _ _
      hderived _ _ htasks _ _ _ =>
      intro job' hjob' id t' ht'
      obtain rfl := List.mem_singleton.mp hjob'
      have ht'' : (m.insert workerTask).get id = some t' := htasks ▸ ht'
      rcases get_insert_cases m workerTask id with ⟨hid, -⟩ | ⟨-, hkept⟩
      · rw [Job.id_of_task? hworker] at hid
        exact Or.inl ⟨job, by simp [Phase.copies], workerTask, hid ▸ hworker⟩
      · rcases LocalRun.holds hderived id t' (hkept ▸ ht'') with hheld | ⟨p, hp⟩
        · exact Or.inl ⟨saved, by simp [Phase.copies], hheld⟩
        · cases hp
  | @mergeResult job saved base job'' taskId stored first now _ _ _ _ _ htasks _ _ hfrom _ =>
      intro job' hjob' id t' ht'
      obtain rfl := List.mem_singleton.mp hjob'
      rcases LocalRun.holds hfrom.run id t' ht' with ⟨t, ht⟩ | ⟨p, hp⟩
      · rw [htasks] at ht
        rcases carry_cases ht with ⟨hin, -⟩ | ⟨hin, -⟩
        · exact Or.inl ⟨job, by simp [Phase.copies], t, hin⟩
        · exact Or.inl ⟨saved, by simp [Phase.copies], t, hin⟩
      · cases hp
  | @call job job'' taskId now call _ _ hfresh hserve =>
      intro job' hjob' id t' ht'
      obtain rfl := List.mem_singleton.mp hjob'
      have hworked := call_worked hok.1 hfresh hserve
      rcases LocalRun.holds hworked.run id t' ht' with hheld | ⟨p, hp⟩
      · exact Or.inl ⟨job, by simp [Phase.copies], hheld⟩
      · cases call with
        | addTask taskDef mintedId =>
            cases hp
            exact Or.inr (Or.inr (by simp [HandleCall.minted]))
        | _ => simp [HandleCall.touches] at hp
  | callRefused =>
      intro job' hjob' id t' ht'
      exact Or.inl ⟨job', hjob', t', ht'⟩
  | @finish job job₁ job'' taskId outcome resolution now settleAt _ _ _ _ hworked hfrom =>
      intro job' hjob' id t' ht'
      obtain rfl := List.mem_singleton.mp hjob'
      rcases LocalRun.holds hfrom.run id t' ht' with ⟨t, ht⟩ | ⟨p, hp⟩
      · exact hrun (by simp [Phase.copies]) hworked.run (by simp) id t ht
      · cases hp

/-- What a move mints is new. -/
theorem Moves.fresh {p p' : Phase} {action : WorkerAction} {ids : List Uuid}
    (hmoves : Moves κ jobDef s w p action p' ids) : ∀ id ∈ ids, id ∉ s.minted := by
  cases hmoves with
  | create hfresh _ _ _ => exact fun _ => mem_of_areFresh hfresh
  | advance _ _ hfresh _ _ _ _ => exact fun _ => mem_of_areFresh hfresh
  | call _ _ hfresh _ => exact fun _ => mem_of_areFresh hfresh
  | _ => simp

namespace KnownOnlyTo

theorem enter (h : KnownOnlyTo s w id) (p : Phase) (ids : List Uuid) :
    KnownOnlyTo (s.enter w p ids) w id where
  minted := List.mem_append_right ids h.minted
  stored := h.stored
  copies := by
    intro w' hne job hjob
    rw [System.enter_of_ne _ _ _ _ hne] at hjob
    exact h.copies w' hne job hjob

/-- What holds of every copy of an iteration holds of those of a worker. -/
theorem heldOk_of_copies (hinv : Inv κ jobDef g s) {w' : Uuid} {job : Job}
    (hjob : job ∈ (s.workers w').phase.copies) : HeldOk jobDef g s w' job := by
  have hok := hinv.workers w'
  generalize (s.workers w').phase = p at hok hjob
  cases p with
  | idle => cases hjob
  | missing => cases hjob
  | merging job₀ saved purpose =>
      simp only [Phase.copies, List.mem_cons, List.not_mem_nil, or_false] at hjob
      rcases hjob with rfl | rfl
      · exact hok.1.toHeldOk
      · exact hok.2.2.2.1.toHeldOk
  | executing job₀ taskId =>
      obtain rfl := List.mem_singleton.mp hjob
      exact hok.1
  | _ =>
      obtain rfl := List.mem_singleton.mp hjob
      exact hok.1.toHeldOk

/-- What a worker just minted is known to nobody else. -/
theorem of_fresh (hinv : Inv κ jobDef g s) (hid : id ∉ s.minted) (p : Phase) {ids : List Uuid}
    (hmem : id ∈ ids) : KnownOnlyTo (s.enter w p ids) w id where
  minted := List.mem_append_left s.minted hmem
  stored := by
    intro e he
    cases ht : e.tasks.get id with
    | none => rfl
    | some t => exact absurd ((hinv.entries e he).fits.minted id t ht) hid
  copies := by
    intro w' hne job hjob
    rw [System.enter_of_ne _ _ _ _ hne] at hjob
    cases ht : job.task? id with
    | none => rfl
    | some t => exact absurd ((heldOk_of_copies hinv hjob).fits.minted id t ht) hid

/-- No action of another worker makes it known. -/
theorem other {a : Action} (hinv : Inv κ jobDef g s) (h : KnownOnlyTo s w id)
    (ha : a.actor ≠ some w) (hstep : step κ jobDef s a = some s') : KnownOnlyTo s' w id := by
  rcases step_cases hstep with ⟨elapsed, rfl, rfl⟩ | ⟨x, action, phase, ids, rfl, hmoves, rfl⟩ |
    ⟨x, version, delivered, job, purpose, rfl, hphase, -, -, rfl⟩
  · exact ⟨h.minted, h.stored, h.copies⟩
  · have hx : x ≠ w := fun heq => ha (congrArg some heq)
    -- the mover's new copies hold nothing of the kind
    have hmoved : ∀ job' ∈ phase.copies, job'.task? id = none := by
      intro job' hjob'
      cases ht' : job'.task? id with
      | none => rfl
      | some t' =>
          rcases Moves.holds (hinv.workers x) hmoves job' hjob' id t' ht' with
            ⟨job, hjob, t, ht⟩ | ⟨e, he, t, ht⟩ | hminted
          · rw [h.copies x hx job hjob] at ht
            cases ht
          · rw [h.stored e he] at ht
            cases ht
          · exact absurd h.minted (hmoves.fresh id hminted)
    refine ⟨List.mem_append_right ids h.minted, h.stored, ?_⟩
    intro w' hne job' hjob'
    by_cases hw : w' = x
    · subst hw
      rw [System.enter_self] at hjob'
      exact hmoved job' hjob'
    · rw [System.enter_of_ne _ _ _ _ hw] at hjob'
      exact h.copies w' hne job' hjob'
  · have hx : x ≠ w := fun heq => ha (congrArg some heq)
    have hjob : job.task? id = none := h.copies x hx job (by simp [hphase, Phase.copies])
    refine ⟨h.minted, ?_, ?_⟩
    · intro e he
      rcases List.mem_cons.mp he with rfl | he
      · rw [get_ofJob, hjob]
        rfl
      · exact h.stored e he
    · intro w' hne job' hjob'
      by_cases hw : w' = x
      · subst hw
        rw [System.commit_self] at hjob'
        have htasks : job'.tasksById = job.tasksById := tasks_of_afterPut hjob'
        rw [Job.task?, htasks]
        exact hjob
      · rw [System.commit_of_ne _ _ _ _ hw] at hjob'
        exact h.copies w' hne job' hjob'

end KnownOnlyTo

end Known

/-! ## The work a save carries -/

/-- The task as it was, or what became of it waiting: released, or put out. -/
def Settles (t t' : Task) : Prop :=
  t' = t ∨ (t.status = .blocked ∧
    (t' = { t with status := .todo } ∨ ∃ reason cause now, t' = t.skippedWith reason cause now))

theorem Settles.persisted {t t' : Task} (h : Settles t t') :
    Settles t.persisted t'.persisted := by
  rcases h with rfl | ⟨hblocked, rfl | ⟨reason, cause, now, rfl⟩⟩
  · exact Or.inl rfl
  · exact Or.inr ⟨hblocked, Or.inl rfl⟩
  · exact Or.inr ⟨hblocked, Or.inr ⟨reason, cause, now, rfl⟩⟩

theorem Settles.processingByWorker {t t' : Task} (h : Settles t t') :
    t'.processingByWorker = t.processingByWorker := by
  rcases h with rfl | ⟨-, rfl | ⟨reason, cause, now, rfl⟩⟩ <;> rfl

theorem Settles.createdByWorker {t t' : Task} (h : Settles t t') :
    t'.createdByWorker = t.createdByWorker := by
  rcases h with rfl | ⟨-, rfl | ⟨reason, cause, now, rfl⟩⟩ <;> rfl

section Derived

variable {w id : Uuid} {lo hi : Nat} {m m' : TaskMap} {t : Task}

/-- What the state implies changes nothing that neither runs nor waits. -/
theorem DerivedRun.keeps (h : DerivedRun κ w lo hi m m') (ht : m.get id = some t)
    (hstarted : t.status ≠ .started) (hblocked : t.status ≠ .blocked) :
    m'.get id = some t := by
  refine TimedRun.preserves_untimed (P := fun m' => m'.get id = some t) ?_ h ht
  rintro now m₁ m₂ ⟨touch, rfl, hstep⟩ ht₁
  rcases hstep.get_some ht₁ with hget | ⟨t', hmove, -⟩ | ⟨_, hresolved, -⟩
  · exact hget
  · cases hmove with
    | outlive hs _ => exact absurd hs hstarted
    | putOut hs _ => exact absurd hs hblocked
    | release hs => exact absurd hs hblocked
  · cases hresolved

/-- And leaves what waits, released or put out at most. -/
theorem DerivedRun.settles (h : DerivedRun κ w lo hi m m') {y : Task}
    (hy : y.status = .todo ∨ y.status = .blocked) (ht : m.get id = some t)
    (hsettles : Settles y t) : ∃ t', m'.get id = some t' ∧ Settles y t' := by
  refine TimedRun.preserves_untimed (P := fun m' => ∃ t', m'.get id = some t' ∧ Settles y t') ?_
    h ⟨t, ht, hsettles⟩
  rintro now m₁ m₂ ⟨touch, rfl, hstep⟩ ⟨t₁, ht₁, hsettles₁⟩
  rcases hstep.get_some ht₁ with hget | ⟨t', hmove, hget⟩ | ⟨_, hresolved, -⟩
  · exact ⟨t₁, hget, hsettles₁⟩
  · refine ⟨t', hget, ?_⟩
    -- only a task that is still as it was waits for something
    have hsame : t₁.status = .blocked → t₁ = y ∧ y.status = .blocked := by
      intro hb
      rcases hsettles₁ with rfl | ⟨-, rfl | ⟨_, _, _, rfl⟩⟩
      · exact ⟨rfl, hb⟩
      · cases hb
      · cases hb
    cases hmove with
    | outlive hs _ =>
        rcases hsettles₁ with rfl | ⟨-, rfl | ⟨_, _, _, rfl⟩⟩
        · rcases hy with hy | hy <;> simp [hs] at hy
        · cases hs
        · cases hs
    | putOut hs _ =>
        obtain ⟨rfl, hblocked⟩ := hsame hs
        exact Or.inr ⟨hblocked, Or.inr ⟨_, _, _, rfl⟩⟩
    | release hs =>
        obtain ⟨rfl, hblocked⟩ := hsame hs
        exact Or.inr ⟨hblocked, Or.inl rfl⟩
  · cases hresolved

end Derived

/-- The copy holds the executed task as its execution ended it, and what the execution added
unless that failed. -/
structure CarriesWork (w taskId : Uuid) (added : List Task) (ended : Task) (job : Job) :
    Prop where
  executed : job.task? taskId = some ended
  resolved : ended.isResolved = true
  owner : ended.processingByWorker = some w
  dropped : ended.status = .failed → ∀ y ∈ added, job.task? y.id = none
  kept : ended.status ≠ .failed → ∀ y ∈ added, ∃ y', job.task? y.id = some y' ∧ Settles y y'

namespace CarriesWork

variable {w taskId : Uuid} {added : List Task} {ended : Task} {job job' : Job}

/-- A resolved task neither runs nor waits. -/
theorem idle (h : CarriesWork w taskId added ended job) :
    ended.status ≠ .started ∧ ended.status ≠ .blocked := by
  rcases Task.isResolved_eq_true.mp h.resolved with hs | hs | ⟨cause, hs⟩ <;> simp [hs]

/-- What the state implies leaves the work of the execution on the copy. -/
theorem derived {lo hi : Nat} (h : CarriesWork w taskId added ended job)
    (hadded : AddedBy w taskId added)
    (hrun : DerivedRun κ w lo hi job.tasksById job'.tasksById) :
    CarriesWork w taskId added ended job' where
  executed := DerivedRun.keeps hrun h.executed h.idle.1 h.idle.2
  resolved := h.resolved
  owner := h.owner
  dropped := by
    intro hfailed y hy
    cases hget : job'.task? y.id with
    | none => rfl
    | some t =>
        rcases LocalRun.holds hrun y.id t hget with ⟨t₀, ht₀⟩ | ⟨p, hp⟩
        · rw [show job.tasksById.get y.id = none from h.dropped hfailed y hy] at ht₀
          cases ht₀
        · cases hp
  kept := by
    intro hfailed y hy
    obtain ⟨y', hy', hsettles⟩ := h.kept hfailed y hy
    exact DerivedRun.settles hrun (hadded.status hy) hy' hsettles

/-- The filter of the merge lets the whole work of the execution through. -/
theorem carry {saved base : Job} (h : CarriesWork w taskId added ended job)
    (hadded : AddedBy w taskId added) (hlacks : ∀ y ∈ added, saved.task? y.id = none)
    (htasks : base.tasksById = (saved.carryTasks job w).tasksById) :
    CarriesWork w taskId added ended base := by
  have hget : ∀ id, base.task? id = (saved.carryTasks job w).task? id := by
    intro id
    rw [Job.task?, htasks, Job.task?]
  refine ⟨?_, h.resolved, h.owner, ?_, ?_⟩
  · rw [hget, Job.get_carryTasks, h.executed]
    simp [Job.isCarried, Job.isProcessedNow, h.owner]
  · intro hfailed y hy
    rw [hget, Job.get_carryTasks, h.dropped hfailed y hy]
    exact hlacks y hy
  · intro hfailed y hy
    obtain ⟨y', hy', hsettles⟩ := h.kept hfailed y hy
    obtain ⟨-, taskDef, resolved, hnew⟩ := hadded y hy
    have hcreated : y'.createdByWorker = w := by
      rw [hsettles.createdByWorker, hnew]
      rfl
    have hfree : y'.processingByWorker = none := by
      rw [hsettles.processingByWorker, hnew]
      rfl
    have habsent : saved.tasksById.get y'.id = none := by
      rw [Job.id_of_task? hy']
      exact hlacks y hy
    refine ⟨y', ?_, hsettles⟩
    rw [hget, Job.get_carryTasks, hy']
    simp [Job.isCarried, Job.isCreatedNow, hcreated, hfree, habsent]

end CarriesWork

/-! ## Every action -/

namespace Execution

/-- The save carries the work of the execution, and nothing was written in the worker's name
since its task ended. -/
def SavesWork (w taskId : Uuid) (x : Execution) (h : History) (job : Job) : Prop :=
  ∃ ended before newer, x.ended = some (ended, before) ∧ h = newer ++ before ∧
    (∀ e ∈ newer, e.writer ≠ w) ∧ CarriesWork w taskId x.added ended job

/-- What holds of the worker of an execution, by what it is doing. -/
def InPhase (w taskId : Uuid) (x : Execution) (h : History) : Phase → Prop
  | .executing job id => id = taskId ∧ HasWork w taskId x.added job
  | .saving job purpose => purpose = .result taskId ∧ x.SavesWork w taskId h job
  | .conflicted job purpose => purpose = .result taskId ∧ x.SavesWork w taskId h job
  | .merging job _ purpose => purpose = .result taskId ∧ x.SavesWork w taskId h job
  | _ => False

/-- The invariant of a followed execution. -/
structure Ok (w taskId : Uuid) (s : System) (x : Execution) : Prop where
  added : AddedBy w taskId x.added
  known : ∀ y ∈ x.added, KnownOnlyTo s w y.id
  phase : x.InPhase w taskId s.history (s.workers w).phase

variable {w taskId : Uuid} {x : Execution} {h : History} {p : Phase}

theorem InPhase.ofExecution (hphase : x.InPhase w taskId h p) : p.OfExecution taskId := by
  cases p with
  | executing job id => exact hphase.1
  | saving job purpose => exact hphase.1
  | conflicted job purpose => exact hphase.1
  | merging job saved purpose => exact hphase.1
  | _ => exact hphase.elim

/-- A write of another worker touches nothing of it. -/
theorem InPhase.cons {e : Entry} (hphase : x.InPhase w taskId h p) (he : e.writer ≠ w) :
    x.InPhase w taskId (e :: h) p := by
  have hsaves : ∀ {job : Job}, x.SavesWork w taskId h job → x.SavesWork w taskId (e :: h) job := by
    rintro job ⟨ended, before, newer, hended, rfl, hothers, hwork⟩
    refine ⟨ended, before, e :: newer, hended, rfl, ?_, hwork⟩
    intro e' he'
    rcases List.mem_cons.mp he' with rfl | he'
    · exact he
    · exact hothers e' he'
  cases p with
  | executing job id => exact hphase
  | saving job purpose => exact ⟨hphase.1, hsaves hphase.2⟩
  | conflicted job purpose => exact ⟨hphase.1, hsaves hphase.2⟩
  | merging job saved purpose => exact ⟨hphase.1, hsaves hphase.2⟩
  | _ => exact hphase.elim

end Execution

section Actions

variable {jobDef : JobDefinition} {g : Pedigree} {w taskId : Uuid} {s s' : System}
  {x x' : Execution} {a : Action}

/-- What an action of another worker leaves of a worker. -/
theorem step_other (ha : a.actor ≠ some w) (hstep : step κ jobDef s a = some s') :
    s'.workers w = s.workers w ∧
      (s'.history = s.history ∨ ∃ e, s'.history = e :: s.history ∧ e.writer ≠ w) := by
  rcases step_cases hstep with ⟨elapsed, rfl, rfl⟩ | ⟨w', action, phase, ids, rfl, hmoves, rfl⟩ |
    ⟨w', version, delivered, job, purpose, rfl, hphase, -, -, rfl⟩
  · exact ⟨rfl, Or.inl rfl⟩
  · exact ⟨System.enter_of_ne _ _ _ _ fun heq => ha (congrArg some heq.symm), Or.inl rfl⟩
  · exact ⟨System.commit_of_ne _ _ _ _ fun heq => ha (congrArg some heq.symm),
      Or.inr ⟨_, rfl, fun heq => ha (congrArg some heq)⟩⟩

/-- Every action keeps the invariant of a followed execution. -/
theorem Execution.Ok.advance (hinv : Inv κ jobDef g s) (hok : x.Ok w taskId s)
    (hadv : Advances κ jobDef w taskId s x s' x') : x'.Ok w taskId s' := by
  have hphase := hok.phase
  cases hadv with
  | other ha hstep =>
      obtain ⟨hworker, hhistory⟩ := step_other ha hstep
      refine ⟨hok.added, fun y hy => (hok.known y hy).other hinv ha hstep, ?_⟩
      rw [hworker]
      rcases hhistory with hsame | ⟨e, hcons, he⟩
      · rw [hsame]
        exact hphase
      · rw [hcons]
        exact hphase.cons he
  | @call job job' now call hworker hfresh hserve =>
      rw [hworker] at hphase
      have hwork := hinv.workers w
      rw [hworker] at hwork
      have hminted : ∀ y ∈ x.added, y.id ∉ call.minted := fun y hy hid =>
        mem_of_areFresh hfresh hid (hok.known y hy).minted
      obtain ⟨hhas, hadded, -⟩ :=
        hphase.2.serve hok.added (hwork.1.lacks_fresh hfresh) hminted hserve
      refine ⟨hadded, ?_, ?_⟩
      · intro y hy
        rcases List.mem_append.mp hy with hy | hy
        · obtain ⟨id, hid, hget⟩ := List.mem_filterMap.mp hy
          obtain rfl := Job.id_of_task? hget
          exact .of_fresh hinv (mem_of_areFresh hfresh hid) _ hid
        · exact (hok.known y hy).enter _ _
      · rw [System.enter_self]
        exact ⟨rfl, hhas⟩
  | callRefused hworker =>
      rw [hworker] at hphase
      refine ⟨hok.added, fun y hy => (hok.known y hy).enter _ _, ?_⟩
      rw [System.enter_self]
      exact hphase
  | @finish job job₁ t outcome now settleAt r hworker happly ht =>
      rw [hworker] at hphase
      obtain ⟨hhas, -, t', ht', hresolved⟩ := hphase.2.applyExecutorOutcome hok.added happly
      obtain ⟨howner, -, hadded⟩ := hhas t ht
      rw [ht] at ht'
      cases ht'
      have hwork : CarriesWork w taskId x.added t job₁ := by
        refine ⟨ht, hresolved, howner, ?_, ?_⟩
        · intro hfailed y hy
          rw [hadded y hy, if_pos hfailed]
        · intro hfailed y hy
          exact ⟨y, by rw [hadded y hy, if_neg hfailed], Or.inl rfl⟩
      have hfrom : Job.SettledFrom job₁ w settleAt (Job.trySettleIteration w settleAt job₁).2 :=
        Job.settledFrom_of_trySettleIteration rfl
      refine ⟨hok.added, fun y hy => (hok.known y hy).enter _ _, ?_⟩
      rw [System.enter_self]
      exact ⟨rfl, t, s.history, [], rfl, rfl, by simp, hwork.derived hok.added hfrom.run⟩
  | refused hworker =>
      rw [hworker] at hphase
      refine ⟨hok.added, fun y hy => (hok.known y hy).enter _ _, ?_⟩
      rw [System.enter_self]
      exact hphase
  | reread hworker _ =>
      rw [hworker] at hphase
      refine ⟨hok.added, fun y hy => (hok.known y hy).enter _ _, ?_⟩
      rw [System.enter_self]
      exact hphase
  | @merge job saved job' now r hworker hmerge hgoes =>
      rw [hworker] at hphase
      have hsaved := hinv.workers w
      rw [hworker] at hsaved
      obtain ⟨-, -, -, -, e, he, hloaded⟩ := hsaved
      obtain ⟨-, ended, before, newer, hended, hhistory, hothers, hwork⟩ := hphase
      obtain ⟨-, -, base, htasks, -, -, hfrom, -⟩ := Job.mergeWithProcessedTask_end hmerge hgoes
      have hlacks : ∀ y ∈ x.added, saved.task? y.id = none := by
        intro y hy
        have hnone := (hok.known y hy).stored e he
        rwa [← hloaded.tasks, Option.map_eq_none_iff] at hnone
      refine ⟨hok.added, fun y hy => (hok.known y hy).enter _ _, ?_⟩
      rw [System.enter_self]
      exact ⟨rfl, ended, before, newer, hended, hhistory, hothers,
        (hwork.carry hok.added hlacks htasks).derived hok.added hfrom.run⟩

/-- A write puts one version on top of the history. -/
theorem history_of_put {version : String} {delivered : Bool}
    (hput : step κ jobDef s (.put w version delivered) = some s') :
    ∃ e, s'.history = e :: s.history := by
  rcases step_cases hput with ⟨_, ha, -⟩ | ⟨_, _, _, _, ha, -⟩ | ⟨_, _, _, _, _, -, -, -, -, rfl⟩
  · cases ha
  · cases ha
  · exact ⟨_, rfl⟩

/-- What an acknowledged write that leads into an execution wrote. -/
theorem executing_of_put {version : String} {job : Job}
    (hput : step κ jobDef s (.put w version true) = some s')
    (hphase : (s'.workers w).phase = .executing job taskId) :
    ∃ job₀, (s.workers w).phase = .saving job₀ (.start taskId) ∧
      job = job₀.updateVersion version ∧
      s'.history = .ofJob job₀ version w (.start taskId) s.clock :: s.history := by
  rcases step_cases hput with ⟨_, ha, -⟩ | ⟨_, _, _, _, ha, -⟩ |
    ⟨_, _, _, job₀, purpose, ha, hsaving, -, -, rfl⟩
  · cases ha
  · cases ha
  · cases ha
    rw [System.commit_self] at hphase
    cases purpose with
    | start taskId' =>
        cases hphase
        exact ⟨job₀, hsaving, rfl, rfl⟩
    | create => cases hphase
    | nextIteration readyAt => cases hphase
    | result taskId' => cases hphase
    | settle => cases hphase

/-- A start whose write was acknowledged begins an execution. -/
theorem Execution.ok_begin (hinv : Inv κ jobDef g s) {version : String} {job : Job}
    (hput : step κ jobDef s (.put w version true) = some s')
    (hphase : (s'.workers w).phase = .executing job taskId) :
    (Execution.begin job).Ok w taskId s' := by
  refine ⟨by simp [AddedBy, Execution.begin], by simp [Execution.begin], ?_⟩
  rw [hphase]
  obtain ⟨job₀, hsaving, rfl, -⟩ := executing_of_put hput hphase
  have hok := hinv.workers w
  rw [hsaving] at hok
  obtain ⟨hcopy, -, -, -, t, ht, -, howner⟩ := hok
  refine ⟨rfl, fun t' ht' => ?_⟩
  rw [show job₀.task? taskId = some t' from ht'] at ht
  cases ht
  exact ⟨howner, hcopy.fits.parents taskId _ ht', by simp [Execution.begin]⟩

/-- The invariant of a followed execution holds throughout. -/
theorem Executes.ok (hdef : jobDef.WellFormed) (h : Executes κ jobDef w taskId s x) :
    x.Ok w taskId s := by
  induction h with
  | begin hreach hput hphase =>
      obtain ⟨g, hinv⟩ := reachable_inv hdef hreach
      exact Execution.ok_begin hinv hput hphase
  | next hexec hstep hafter ih =>
      obtain ⟨g, hinv⟩ := reachable_inv hdef hexec.reachable
      exact ih.advance hinv (advances_of_after ih.phase.ofExecution hstep hafter)

end Actions

/-! ## Saved results -/

/-- The version holds the resolution, the reason and the output the execution ended its task
with, and what the execution added unless that failed. -/
structure HoldsWork (w taskId : Uuid) (added : List Task) (ended : Task) (e : Entry) : Prop where
  executed : ∃ t, e.tasks.get taskId = some t ∧ t.status = ended.status ∧
    t.resolutionReason = ended.resolutionReason ∧ t.output = ended.output ∧
    t.processingByWorker = some w
  dropped : ended.status = .failed → ∀ y ∈ added, e.tasks.get y.id = none
  kept : ended.status ≠ .failed → ∀ y ∈ added, ∃ y', e.tasks.get y.id = some y' ∧
    Settles y.persisted y'

theorem CarriesWork.holdsWork {w taskId : Uuid} {added : List Task} {ended : Task} {job : Job}
    (h : CarriesWork w taskId added ended job) (version : String) (purpose : Purpose)
    (now : Nat) : HoldsWork w taskId added ended (.ofJob job version w purpose now) where
  executed := by
    refine ⟨ended.persisted, ?_, rfl, rfl, rfl, h.owner⟩
    rw [get_ofJob, h.executed]
    rfl
  dropped := by
    intro hfailed y hy
    rw [get_ofJob, h.dropped hfailed y hy]
    rfl
  kept := by
    intro hfailed y hy
    obtain ⟨y', hy', hsettles⟩ := h.kept hfailed y hy
    refine ⟨y'.persisted, ?_, hsettles.persisted⟩
    rw [get_ofJob, hy']
    rfl

/-- A saved result is durable: however often its save was merged, the version that saves it
holds it and what the execution added, or nothing of what it added if the task failed; and a
save that ends without a write has changed nothing since the task ended. -/
theorem saved_result_durable {jobDef : JobDefinition} (hdef : jobDef.Accepted) {w taskId : Uuid}
    {s : System} {x : Execution} (h : Executes κ jobDef w taskId s x) :
    (∀ job version s', (s.workers w).phase = .saving job (.result taskId) →
      step κ jobDef s (.put w version true) = some s' →
      ∃ e ended before, s'.history = e :: s.history ∧ x.ended = some (ended, before) ∧
        ended.isResolved = true ∧ HoldsWork w taskId x.added ended e) ∧
    ∀ first second s', step κ jobDef s (.move w (.merge first second)) = some s' →
      (s'.workers w).phase = .idle →
      ∃ ended before newer, x.ended = some (ended, before) ∧ s'.history = newer ++ before ∧
        ∀ e ∈ newer, e.writer ≠ w := by
  have hphase := (h.ok hdef.wellFormed).phase
  constructor
  · intro job version s' hsaving hput
    rw [hsaving] at hphase
    obtain ⟨-, ended, before, newer, hended, -, -, hwork⟩ := hphase
    rcases step_cases hput with ⟨_, ha, -⟩ | ⟨_, _, _, _, ha, -⟩ |
      ⟨_, _, _, job₀, purpose, ha, hworker, -, -, rfl⟩
    · cases ha
    · cases ha
    · cases ha
      rw [hsaving] at hworker
      cases hworker
      exact ⟨_, ended, before, rfl, hended, hwork.resolved, hwork.holdsWork ..⟩
  · intro first second s' hmerge _
    obtain ⟨phase, ids, hmove, rfl⟩ := step_move hmerge
    cases hworker : (s.workers w).phase with
    | merging job saved purpose =>
        rw [hworker] at hphase
        obtain ⟨-, ended, before, newer, hended, hhistory, hothers, -⟩ := hphase
        exact ⟨ended, before, newer, hended, hhistory, hothers⟩
    | _ =>
        rw [hworker] at hmove
        cases hmove

/-! ## Following a run -/

/-- Follow an execution along a list of actions. -/
def follow (κ : Clocks) (jobDef : JobDefinition) (w taskId : Uuid) :
    System → Execution → List Action → Option (System × Execution)
  | s, x, [] => some (s, x)
  | s, x, a :: as =>
      (step κ jobDef s a).bind fun s' =>
        (x.after w taskId s a).bind fun x' => follow κ jobDef w taskId s' x' as

/-- Run some actions, begin an execution with the write of its start, and follow it. -/
def runExecution (κ : Clocks) (jobDef : JobDefinition) (w taskId : Uuid) (before : List Action)
    (version : String) (as : List Action) : Option (System × Execution) :=
  (runActions (step κ jobDef) System.init before).bind fun s =>
    (step κ jobDef s (.put w version true)).bind fun s' =>
      match (s'.workers w).phase with
      | .executing job id =>
          if id = taskId then follow κ jobDef w taskId s' (.begin job) as else none
      | _ => none

/-- Following the actions follows the execution. -/
theorem executes_of_follow {jobDef : JobDefinition} {w taskId : Uuid} {as : List Action} :
    ∀ {s s' : System} {x x' : Execution}, Executes κ jobDef w taskId s x →
      follow κ jobDef w taskId s x as = some (s', x') → Executes κ jobDef w taskId s' x' := by
  induction as with
  | nil =>
      intro s s' x x' hexec h
      cases h
      exact hexec
  | cons a as ih =>
      intro s s' x x' hexec h
      rw [follow, Option.bind_eq_some_iff] at h
      obtain ⟨s₁, hstep, h⟩ := h
      rw [Option.bind_eq_some_iff] at h
      obtain ⟨x₁, hafter, h⟩ := h
      exact ih (hexec.next hstep hafter) h

theorem executes_of_runExecution {jobDef : JobDefinition} {w taskId : Uuid}
    {before as : List Action} {version : String} {s : System} {x : Execution}
    (h : runExecution κ jobDef w taskId before version as = some (s, x)) :
    Executes κ jobDef w taskId s x := by
  rw [runExecution, Option.bind_eq_some_iff] at h
  obtain ⟨s₀, hbefore, h⟩ := h
  rw [Option.bind_eq_some_iff] at h
  obtain ⟨s₁, hput, h⟩ := h
  split at h
  · rename_i job id hphase
    split at h
    · rename_i hid
      subst hid
      exact executes_of_follow (.begin (reachable_of_runActions .init hbefore) hput hphase) h
    · cases h
  · cases h

/-- The first worker adds a task and completes its own; the second worker's start in between
has the save merged. -/
def pairHandoff : List Action :=
  [.move 101 (.call 0 (.addTask (.new "right" (milliseconds 100000)) 3)),
    .move 102 (.read 1 none), .move 102 (.pick (.at 0 [2, 1]) 0), .put 102 "v3" true,
    .move 101 (.finish (.completed [7]) 0 0), .move 101 .refused, .move 101 (.reread 1 none),
    .move 101 (.merge 0 0)]

/-- Whether the worker's save of the result is about to be accepted. -/
def savesResult (jobDef : JobDefinition) (w taskId : Uuid) (version : String) (s : System) :
    Bool :=
  (step .shared jobDef s (.put w version true)).isSome &&
    match (s.workers w).phase with
    | .saving _ purpose => purpose = .result taskId
    | _ => false

theorem exists_of_savesResult {jobDef : JobDefinition} {w taskId : Uuid} {version : String}
    {s : System} (h : savesResult jobDef w taskId version s = true) :
    ∃ job s', (s.workers w).phase = .saving job (.result taskId) ∧
      step .shared jobDef s (.put w version true) = some s' := by
  rw [savesResult, Bool.and_eq_true] at h
  obtain ⟨s', hput⟩ := Option.isSome_iff_exists.mp h.1
  have hsaving := h.2
  split at hsaving
  · rename_i job purpose hphase
    rw [decide_eq_true_eq] at hsaving
    subst hsaving
    exact ⟨job, s', hphase, hput⟩
  · cases hsaving

theorem pairHandoff_durable :
    ∃ s x s' e ended before, Executes .shared pairDefinition 101 1 s x ∧ x.added.length = 1 ∧
      x.met.length = 1 ∧ step .shared pairDefinition s (.put 101 "v4" true) = some s' ∧
      s'.history = e :: s.history ∧ x.ended = some (ended, before) ∧
      HoldsWork 101 1 x.added ended e := by
  have hruns : (runExecution .shared pairDefinition 101 1 (pairRace.take 4) "v2"
      pairHandoff).any (fun (s, x) => savesResult pairDefinition 101 1 "v4" s &&
        x.added.length = 1 && x.met.length = 1) = true := by
    decide +kernel
  obtain ⟨⟨s, x⟩, hs, hcheck⟩ := (Option.any_eq_true _ _).mp hruns
  simp only [Bool.and_eq_true, decide_eq_true_eq] at hcheck
  obtain ⟨⟨hsaves, hadded⟩, hmet⟩ := hcheck
  obtain ⟨job, s', hphase, hput⟩ := exists_of_savesResult hsaves
  have hexec := executes_of_runExecution hs
  obtain ⟨e, ended, before, hhistory, hended, -, hwork⟩ :=
    (saved_result_durable pairDefinition_accepted hexec).1 job "v4" s' hphase hput
  exact ⟨s, x, s', e, ended, before, hexec, hadded, hmet, hput, hhistory, hended, hwork⟩

end JobManager
