import JobManager.Protocol.Saving

/-!
# The moment of the next iteration

An execution may set the moment the next iteration starts at.  A merge of its result takes
the moment of its copy wherever that has one, without asking whether the execution set it; so
a save writes the last moment the execution set, or else the first one among the copy it
began with and the stored states it met that has one at all.

Main results:

- Theorem {lit}`Executes.moments`: which moment the copy of a followed execution carries.
- Theorem {lit}`next_start_at_kept_iff`: exactly when a save loses no update of the moment.
-/

namespace JobManager

variable {κ : Clocks}

namespace Execution

/-- The earliest moment among the copy the execution began with and the stored states its
save was merged into. -/
def firstMoment (x : Execution) : Option Nat :=
  (x.begun :: x.met.reverse).findSome? (·.nextStartAt)

/-- The first moment met stays the first. -/
theorem firstMoment_merge (x : Execution) (saved : Job) :
    firstMoment { x with met := saved :: x.met } = x.firstMoment.or saved.nextStartAt := by
  unfold firstMoment
  rw [List.reverse_cons, ← List.cons_append, List.findSome?_append]
  simp

/-- The copy carries the moment the execution set, or else the first one met. -/
def CarriesMoment (x : Execution) (taskId : Uuid) : Phase → Prop
  | .executing job id => id = taskId ∧ job.nextStartAt = x.nextStartAt.or x.firstMoment
  | .saving job purpose =>
      purpose = .result taskId ∧ job.nextStartAt = x.nextStartAt.or x.firstMoment
  | .conflicted job purpose =>
      purpose = .result taskId ∧ job.nextStartAt = x.nextStartAt.or x.firstMoment
  | .merging job _ purpose =>
      purpose = .result taskId ∧ job.nextStartAt = x.nextStartAt.or x.firstMoment
  | _ => False

end Execution

/-- A settlement leaves the start of the next iteration alone. -/
theorem trySettleIteration_nextStartAt (w : Uuid) (now : Nat) (job : Job) :
    (Job.trySettleIteration w now job).2.nextStartAt = job.nextStartAt := by
  obtain ⟨m, -, -, -, hend⟩ := Job.trySettleIteration_end w now job
  generalize Job.trySettleIteration w now job = result at hend
  cases hend <;> rfl

section Actions

variable {jobDef : JobDefinition} {g : Pedigree} {w taskId : Uuid} {s s' : System}
  {x x' : Execution}

/-- Every action keeps track of the moment on the copy. -/
theorem Execution.CarriesMoment.advance (hinv : Inv κ jobDef g s) (hok : x.Ok w taskId s)
    (hmoment : x.CarriesMoment taskId (s.workers w).phase)
    (hadv : Advances κ jobDef w taskId s x s' x') :
    x'.CarriesMoment taskId (s'.workers w).phase := by
  have hphase := hok.phase
  cases hadv with
  | other ha hstep =>
      rw [(step_other ha hstep).1]
      exact hmoment
  | @call job job' now call hworker hfresh hserve =>
      have hcopy := hinv.workers w
      rw [hworker] at hphase hmoment hcopy
      have hminted : ∀ y ∈ x.added, y.id ∉ call.minted := fun y hy hid =>
        mem_of_areFresh hfresh hid (hok.known y hy).minted
      obtain ⟨-, -, hnext⟩ :=
        hphase.2.serve hok.added (hcopy.1.lacks_fresh hfresh) hminted hserve
      rw [System.enter_self]
      refine ⟨rfl, ?_⟩
      rw [hnext, hmoment.2, ← Option.or_assoc]
      rfl
  | callRefused hworker =>
      rw [hworker] at hmoment
      rw [System.enter_self]
      exact hmoment
  | @finish job job₁ t outcome now settleAt r hworker happly ht =>
      rw [hworker] at hphase hmoment
      obtain ⟨-, hnext, -⟩ := hphase.2.applyExecutorOutcome hok.added happly
      rw [System.enter_self]
      exact ⟨rfl, (trySettleIteration_nextStartAt w settleAt job₁).trans
        (hnext.trans hmoment.2)⟩
  | refused hworker =>
      rw [hworker] at hmoment
      rw [System.enter_self]
      exact hmoment
  | reread hworker _ =>
      rw [hworker] at hmoment
      rw [System.enter_self]
      exact hmoment
  | @merge job saved job' now r hworker hmerge hgoes =>
      rw [hworker] at hmoment
      obtain ⟨hid, hstolen, hopen⟩ := Job.mergeWithProcessedTask_goes hmerge hgoes
      have hnext := (Job.mergeWithProcessedTask_state now hid hstolen hopen).2
      rw [hmerge] at hnext
      rw [System.enter_self]
      refine ⟨rfl, ?_⟩
      rw [firstMoment_merge, ← Option.or_assoc, ← hmoment.2]
      exact hnext

/-- Which moment the copy of a followed execution carries. -/
theorem Executes.moments (hdef : jobDef.WellFormed) (h : Executes κ jobDef w taskId s x) :
    x.CarriesMoment taskId (s.workers w).phase := by
  induction h with
  | begin hreach hput hphase =>
      rw [hphase]
      refine ⟨rfl, ?_⟩
      simp [Execution.begin, Execution.firstMoment]
  | next hexec hstep hafter ih =>
      obtain ⟨g, hinv⟩ := reachable_inv hdef hexec.reachable
      exact ih.advance hinv (hexec.ok hdef)
        (advances_of_after (hexec.ok hdef).phase.ofExecution hstep hafter)

end Actions

/-! ## Updates of the moment -/

/-- The write keeps the moment of the version it replaces, or puts the one the execution set
in its place. -/
def KeepsMoment (set : Option Nat) (replaced written : Entry) : Prop :=
  (∀ moment, set = some moment → written.state.nextStartAt = some moment) ∧
    (set = none → written.state.nextStartAt = replaced.state.nextStartAt)

/-- A save loses no update of the moment if and only if its execution set one, or the first
moment among the copy it began with and the states its save met is the one of the version it
replaces. -/
theorem next_start_at_kept_iff {jobDef : JobDefinition} (hdef : jobDef.Accepted)
    {w taskId : Uuid} {s s' : System} {x : Execution} (h : Executes κ jobDef w taskId s x)
    {job : Job} (hphase : (s.workers w).phase = .saving job (.result taskId)) {version : String}
    {delivered : Bool} (hput : step κ jobDef s (.put w version delivered) = some s') :
    ∃ written replaced, s'.history = written :: s.history ∧
      s.history.current written.iterNum = some replaced ∧
      (KeepsMoment x.nextStartAt replaced written ↔
        x.nextStartAt.isSome = true ∨ x.firstMoment = replaced.state.nextStartAt) := by
  have hmoment := h.moments hdef.wellFormed
  obtain ⟨g, hinv⟩ := reachable_inv hdef.wellFormed h.reachable
  have hok := hinv.workers w
  rw [hphase] at hmoment hok
  obtain ⟨-, hcarried⟩ := hmoment
  obtain ⟨-, -, ⟨e, he, hbased⟩, -⟩ := hok
  rcases step_cases hput with ⟨_, ha, -⟩ | ⟨_, _, _, _, ha, -⟩ |
    ⟨_, _, _, job₀, purpose, ha, hworker, -, -, rfl⟩
  · cases ha
  · cases ha
  · cases ha
    rw [hphase] at hworker
    cases hworker
    obtain ⟨c, hc⟩ := current_of_mem he
    rw [hbased.iter] at hc
    refine ⟨_, c, rfl, hc, ?_⟩
    have hwritten : (Entry.ofJob job version w (.result taskId) s.clock).state.nextStartAt =
        x.nextStartAt.or x.firstMoment := hcarried
    unfold KeepsMoment
    rw [hwritten]
    cases x.nextStartAt with
    | some moment => simp
    | none => simp

/-! ## Two schedules of one job -/

/-- The first worker sets a moment while it completes the gate; the second worker picks the
task aside. -/
def gateScheduled : List Action :=
  [.move 101 .readNothing, .move 101 (.create 0 900 [1, 2, 3]), .put 101 "v1" true,
    .move 101 (.pick (.at 0 [1, 2, 3]) 0), .put 101 "v2" true,
    .move 101 (.call 0 (.setNextStartAt 1000)),
    .move 101 (.finish (.completed []) 0 0), .put 101 "v3" true,
    .move 102 (.read 1 none), .move 102 (.pick (.at 0 [3, 2, 1]) 0)]

/-- The first worker then sets a later moment while it completes the passage, and the second
one's save of the task aside, with the given calls before it, is merged. -/
def gateRescheduled (calls : List Action) : List Action :=
  [.move 101 (.read 1 none), .move 101 (.pick (.at 0 [2, 3, 1]) 0), .put 101 "v5" true,
    .move 101 (.call 0 (.setNextStartAt 2000)),
    .move 101 (.finish (.completed []) 0 0), .put 101 "v6" true] ++ calls ++
  [.move 102 (.finish (.completed []) 0 0), .move 102 .refused, .move 102 (.reread 1 none),
    .move 102 (.merge 0 0)]

theorem gateRescheduled_keeps :
    ∃ s x s' written replaced, Executes .shared gateDefinition 102 3 s x ∧ x.met.length = 1 ∧
      step .shared gateDefinition s (.put 102 "v7" true) = some s' ∧
      s'.history = written :: s.history ∧
      s.history.current written.iterNum = some replaced ∧
      KeepsMoment x.nextStartAt replaced written := by
  have hruns : (runExecution .shared gateDefinition 102 3 gateScheduled "v4"
      (gateRescheduled [.move 102 (.call 0 (.setNextStartAt 3000))])).any
      (fun (s, x) => savesResult gateDefinition 102 3 "v7" s && x.met.length = 1 &&
        x.nextStartAt.isSome) = true := by
    decide +kernel
  obtain ⟨⟨s, x⟩, hs, hcheck⟩ := (Option.any_eq_true _ _).mp hruns
  simp only [Bool.and_eq_true, decide_eq_true_eq] at hcheck
  obtain ⟨⟨hsaves, hmet⟩, hset⟩ := hcheck
  obtain ⟨job, s', hphase, hput⟩ := exists_of_savesResult hsaves
  have hexec := executes_of_runExecution hs
  obtain ⟨written, replaced, hhistory, hcurrent, hiff⟩ :=
    next_start_at_kept_iff gateDefinition_accepted hexec hphase hput
  exact ⟨s, x, s', written, replaced, hexec, hmet, hput, hhistory, hcurrent,
    hiff.mpr (Or.inl hset)⟩

/-- A save whose execution set nothing puts the older schedule over the newer one. -/
theorem next_start_at_lost : gateDefinition.Accepted ∧
    ∃ s x s' written replaced, Executes .shared gateDefinition 102 3 s x ∧
      x.nextStartAt = none ∧ step .shared gateDefinition s (.put 102 "v7" true) = some s' ∧
      s'.history = written :: s.history ∧
      s.history.current written.iterNum = some replaced ∧
      replaced.state.nextStartAt = some 2000 ∧ written.state.nextStartAt = some 1000 ∧
      ¬ KeepsMoment x.nextStartAt replaced written := by
  refine ⟨gateDefinition_accepted, ?_⟩
  have hruns : (runExecution .shared gateDefinition 102 3 gateScheduled "v4"
      (gateRescheduled [])).any (fun (s, x) => x.nextStartAt = none &&
        (step .shared gateDefinition s (.put 102 "v7" true)).any fun s' =>
          s'.history.head?.any fun written => written.state.nextStartAt = some 1000 &&
            (s.history.current written.iterNum).any (·.state.nextStartAt = some 2000)) =
      true := by
    decide +kernel
  obtain ⟨⟨s, x⟩, hs, hcheck⟩ := (Option.any_eq_true _ _).mp hruns
  simp only [Bool.and_eq_true, decide_eq_true_eq, Option.any_eq_true] at hcheck
  obtain ⟨hunset, s', hput, written, hhead, hwritten, replaced, hcurrent, hreplaced⟩ := hcheck
  obtain ⟨e, hhistory⟩ := history_of_put hput
  rw [hhistory] at hhead
  cases hhead
  refine ⟨s, x, s', _, replaced, executes_of_runExecution hs, hunset, hput, hhistory, hcurrent,
    hreplaced, hwritten, ?_⟩
  rintro ⟨-, hkept⟩
  rw [hkept hunset, hreplaced] at hwritten
  cases hwritten

end JobManager
