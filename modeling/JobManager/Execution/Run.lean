import JobManager.Core.Registry
import JobManager.Library.Transition
import JobManager.Protocol.SaveLoop

/-!
# The run of an executor

An executor reaches the job it works on through a handle, which whoever it gave a copy to may
still use after the executor returned.  The worker closes the handle then, and takes the job
back.  Three tokens tell the executor to stop: a shutdown of the pool cancels all of them, the
deadline of the task those below it, and the executor its own.

Calls, the deadline, a shutdown and the steps of the worker come in any order that the steps of
the worker allow.

Main results:

- Theorem {lit}`TaskExecution.run_around`: what happens around the worker changes the job
  by the calls served while the handle was open, and nothing else.
- Theorem {lit}`executor_run_exact`: what an execution ends with, from the order of events.
-/

namespace JobManager

/-! ## The job handle -/

/-- The job an executor works on, with whether its handle is still open. -/
structure JobHandleState where
  job : Job
  isOpen : Bool

namespace JobHandleState

variable {α : Type}

def new (job : Job) : JobHandleState where
  job := job
  isOpen := true

def close (state : JobHandleState) : JobHandleState :=
  { state with isOpen := false }

def checkOpen (state : JobHandleState) : Except Error Unit :=
  if state.isOpen then .ok ()
  else
    .error (.other
      "job handle is no longer valid: the task execution it belongs to has finished")

/-- Apply a change to the job, and only while the handle is open. -/
def writeJob (writer : JobM α) : Mutation JobHandleState Error α := fun state =>
  match state.checkOpen with
  | .error e => (.error e, state)
  | .ok () =>
      match writer state.job with
      | (.ok a, job) => (.ok a, { state with job := job })
      | (.error e, job) => (.error (.other e.toText), { state with job := job })

/-- An open handle passes its check. -/
theorem checkOpen_of_open {state : JobHandleState} (h : state.isOpen = true) :
    state.checkOpen = .ok () := if_pos h

/-- A closed one does not. -/
theorem checkOpen_of_closed {state : JobHandleState} (h : state.isOpen = false) :
    ∃ e, state.checkOpen = .error e :=
  ⟨_, if_neg (by rw [h]; exact Bool.false_ne_true)⟩

/-- A closed handle answers with an error, and leaves the job to the worker. -/
theorem writeJob_of_closed {state : JobHandleState} (h : state.isOpen = false)
    (writer : JobM α) : ∃ e, writeJob writer state = (.error e, state) := by
  obtain ⟨e, he⟩ := checkOpen_of_closed h
  exact ⟨e, by rw [writeJob, he]⟩

/-- A call of an open handle works on its job. -/
theorem writeJob_of_open {state : JobHandleState} (h : state.isOpen = true) (writer : JobM α) :
    (writeJob writer state).2 = { state with job := (writer state.job).2 } := by
  rw [writeJob, checkOpen_of_open h]
  dsimp only
  rcases writer state.job with ⟨r, job⟩
  cases r <;> rfl

end JobHandleState

/-- The handle an executor is given: the worker and the task its calls are made for. -/
structure JobHandleImpl where
  workerId : Uuid
  taskId : Uuid
deriving DecidableEq

namespace JobHandleImpl

open JobHandleState

variable (handle : JobHandleImpl)

def addTask (taskDef : TaskDefinition) (mintedId : Uuid) :
    Mutation JobHandleState Error TaskRef :=
  writeJob do
    let id ← Job.addTask taskDef handle.workerId (some handle.taskId) mintedId
    return .created id

def completeTask (taskId : Uuid) (output : Bytes) (now : Nat) :
    Mutation JobHandleState Error Unit :=
  writeJob (Job.completeTask taskId output handle.workerId now)

def failTask (taskId : Uuid) (errorMsg : String) (retry : TaskRetry) (now : Nat) :
    Mutation JobHandleState Error Unit :=
  writeJob do
    let _ ← Job.failTask taskId errorMsg retry handle.workerId now
    return ()

def skipTaskBranch (reason : String) (now : Nat) : Mutation JobHandleState Error Unit :=
  writeJob (Job.skipTaskByExecutor handle.taskId reason handle.workerId now)

def setNextStartAt (nextStartAt : Nat) : Mutation JobHandleState Error Unit :=
  writeJob (Job.setNextStartAt nextStartAt)

/-- A call as the handle takes it; the reference to a task it creates is dropped. -/
def take (now : Nat) : HandleCall → Mutation JobHandleState Error Unit
  | .addTask taskDef mintedId => do
      let _ ← handle.addTask taskDef mintedId
      return ()
  | .completeTask id output => handle.completeTask id output now
  | .failTask id errorMsg retry => handle.failTask id errorMsg retry now
  | .skipTaskBranch reason => handle.skipTaskBranch reason now
  | .setNextStartAt nextStartAt => setNextStartAt nextStartAt

end JobHandleImpl

section Calls

open JobHandleState

variable {α β : Type}

/-- What a call returns does not matter to the job. -/
theorem JobHandleState.writeJob_bind_pure (writer : JobM α) (b : β) (state : JobHandleState) :
    ((writeJob writer >>= fun _ => pure b : Mutation JobHandleState Error β) state).2 =
      (writeJob writer state).2 := by
  rw [Mutation.bind_apply]
  rcases writeJob writer state with ⟨r, state'⟩
  cases r <;> rfl

variable {handle : JobHandleImpl} {state : JobHandleState} (now : Nat) (call : HandleCall)

/-- Every call of a handle works on its job. -/
theorem JobHandleImpl.take_eq_writeJob :
    (handle.take now call state).2 =
      (writeJob (call.serve handle.workerId handle.taskId now) state).2 := by
  cases call with
  | addTask taskDef mintedId =>
      unfold take addTask
      rw [writeJob_bind_pure]
      cases hopen : state.isOpen with
      | false =>
          obtain ⟨e, he⟩ := writeJob_of_closed hopen (do
            let id ← Job.addTask taskDef handle.workerId (some handle.taskId) mintedId
            return TaskRef.created id)
          obtain ⟨e', he'⟩ := writeJob_of_closed hopen
            ((HandleCall.addTask taskDef mintedId).serve handle.workerId handle.taskId now)
          rw [he, he']
      | true =>
          rw [writeJob_of_open hopen, writeJob_of_open hopen, HandleCall.serve, bind_pure_state]
          congr 1
          rw [Mutation.bind_apply]
          rcases Job.addTask taskDef handle.workerId (some handle.taskId) mintedId state.job with
            ⟨r, job⟩
          cases r <;> rfl
  | completeTask id output => rfl
  | failTask id errorMsg retry => rfl
  | skipTaskBranch reason => rfl
  | setNextStartAt nextStartAt => rfl

/-- A call on an open handle changes the job as the call does. -/
theorem JobHandleImpl.take_of_open (h : state.isOpen = true) :
    (handle.take now call state).2 =
      { state with job := (call.serve handle.workerId handle.taskId now state.job).2 } := by
  rw [take_eq_writeJob, writeJob_of_open h]

/-- A call on a closed handle changes nothing. -/
theorem JobHandleImpl.take_of_closed (h : state.isOpen = false) :
    (handle.take now call state).2 = state := by
  obtain ⟨e, he⟩ :=
    writeJob_of_closed h (call.serve handle.workerId handle.taskId now)
  rw [take_eq_writeJob, he]

end Calls

/-! ## The execution of a task -/

/-- How the run of an executor ended: with an outcome, or released by the deadline of its
task. -/
inductive ExecutorResult where
  | returned (outcome : ExecutorOutcome)
  | releasedByDeadline
deriving DecidableEq

/-- What the run of an executor left. -/
structure ExecutorRun where
  job : Job
  result : ExecutorResult

/-- Where the worker that runs an executor is: it waits for the executor, and for a deadline
while that is awaited too; or it holds what the executor returned, closes the handle, looks for
a shutdown and takes the job back. -/
inductive ExecutionStage where
  | running (awaited : Option Nat)
  | returned (outcome : ExecutorOutcome)
  | closed (outcome : ExecutorOutcome)
  | unstopped (outcome : ExecutorOutcome)
  | ended (result : Except InternalError ExecutorRun)

/-- The execution of a task: the job behind its handle, which tokens were cancelled themselves,
and where the worker is. -/
structure TaskExecution where
  handle : JobHandleImpl
  state : JobHandleState
  isPoolCancelled : Bool
  isDeadlineCancelled : Bool
  isExecutorCancelled : Bool
  stage : ExecutionStage

/-- What may happen to an execution; the last four are the steps of the worker. -/
inductive ExecutionEvent where
  | call (now : Nat) (call : HandleCall)
  | cancelSelf
  | shutdown
  | reachDeadline (now : Nat)
  | finish (outcome : ExecutorOutcome)
  | close
  | checkShutdown
  | reclaim
deriving DecidableEq

/-- The steps the worker takes; everything else happens around it. -/
def ExecutionEvent.isOfWorker : ExecutionEvent → Bool
  | .finish _ | .close | .checkShutdown | .reclaim => true
  | .call _ _ | .cancelSelf | .shutdown | .reachDeadline _ => false

namespace TaskExecution

/-- Begin to execute a task: its executor and the moment its token is cancelled at. -/
def start (registry : JobRegistry) (w : Uuid) (job : Job) (taskId : Uuid) :
    Except InternalError (Uuid × TaskExecution) := do
  let task ← (job.findTask taskId).mapError .job
  match registry.getTaskExecutor job.code task.code with
  | .error (.other message) => .error (.other message)
  | .ok executor =>
      return (executor,
        { handle := ⟨w, taskId⟩
          state := .new job
          isPoolCancelled := false
          isDeadlineCancelled := false
          isExecutorCancelled := false
          stage := .running task.deadlineAt })

/-- Whether the token of the deadline is cancelled, by itself or by the one above it. -/
def deadlineTokenCancelled (x : TaskExecution) : Bool :=
  x.isDeadlineCancelled || x.isPoolCancelled

/-- Whether the token the executor was given is cancelled. -/
def executorTokenCancelled (x : TaskExecution) : Bool :=
  x.isExecutorCancelled || x.deadlineTokenCancelled

/-- What the worker makes of what the executor returned. -/
def classify (x : TaskExecution) (outcome : ExecutorOutcome) : ExecutorResult :=
  if outcome = .cancelled ∧ x.deadlineTokenCancelled = true then .releasedByDeadline
  else .returned outcome

/-- Only an executor whose token told it to stop is released by the deadline. -/
theorem executorTokenCancelled_of_released {x : TaskExecution} {outcome : ExecutorOutcome}
    (h : x.classify outcome = .releasedByDeadline) : x.executorTokenCancelled = true := by
  rw [classify] at h
  split at h <;> rename_i hcancelled
  · rw [executorTokenCancelled, hcancelled.2, Bool.or_true]
  · cases h

/-- One event of an execution; a step of the worker that is not its next one is refused. -/
def step (x : TaskExecution) : ExecutionEvent → Option TaskExecution
  | .call now call => some { x with state := (x.handle.take now call x.state).2 }
  | .cancelSelf => some { x with isExecutorCancelled := true }
  | .shutdown => some { x with isPoolCancelled := true }
  | .reachDeadline now =>
      match x.stage with
      | .running (some deadlineAt) =>
          if deadlineAt ≤ now then
            some { x with isDeadlineCancelled := true, stage := .running none }
          else none
      | _ => none
  | .finish outcome =>
      match x.stage with
      | .running _ => some { x with stage := .returned outcome }
      | _ => none
  | .close =>
      match x.stage with
      | .returned outcome => some { x with state := x.state.close, stage := .closed outcome }
      | _ => none
  | .checkShutdown =>
      match x.stage with
      | .closed outcome =>
          some { x with
            stage := if x.isPoolCancelled then .ended (.error .cancelled) else .unstopped outcome }
      | _ => none
  -- A handle that is still held elsewhere has the job copied instead of taken.
  | .reclaim =>
      match x.stage with
      | .unstopped outcome =>
          some { x with stage := .ended (.ok ⟨x.state.job, x.classify outcome⟩) }
      | _ => none

/-- Run an execution along a list of events. -/
abbrev run (x : TaskExecution) (events : List ExecutionEvent) : Option TaskExecution :=
  runActions step x events

end TaskExecution

/-! ## What happens around the worker -/

/-- Serve the calls among the events, in their order. -/
@[simp] def serveCalls (handle : JobHandleImpl) (job : Job) : List ExecutionEvent → Job
  | [] => job
  | .call now call :: events =>
      serveCalls handle (call.serve handle.workerId handle.taskId now job).2 events
  | _ :: events => serveCalls handle job events

namespace ExecutionEvent

@[simp] def isSelfCancellation : ExecutionEvent → Bool
  | .cancelSelf => true
  | _ => false

@[simp] def isShutdown : ExecutionEvent → Bool
  | .shutdown => true
  | _ => false

@[simp] def isDeadline : ExecutionEvent → Bool
  | .reachDeadline _ => true
  | _ => false

end ExecutionEvent

open ExecutionEvent

/-- The job behind a handle after events around the worker. -/
def JobHandleState.after (handle : JobHandleImpl) (state : JobHandleState)
    (events : List ExecutionEvent) : JobHandleState :=
  if state.isOpen then { state with job := serveCalls handle state.job events } else state

/-- What the worker awaits once the deadline was reached or not. -/
@[simp] def ExecutionStage.past (reached : Bool) : ExecutionStage → ExecutionStage
  | .running awaited => .running (if reached then none else awaited)
  | stage => stage

namespace TaskExecution

variable {x x' : TaskExecution} {event : ExecutionEvent} {events rest : List ExecutionEvent}

/-- An execution after events around the worker. -/
def after (x : TaskExecution) (events : List ExecutionEvent) : TaskExecution where
  handle := x.handle
  state := x.state.after x.handle events
  isPoolCancelled := x.isPoolCancelled || events.any isShutdown
  isDeadlineCancelled := x.isDeadlineCancelled || events.any isDeadline
  isExecutorCancelled := x.isExecutorCancelled || events.any isSelfCancellation
  stage := x.stage.past (events.any isDeadline)

@[simp] theorem run_nil : x.run [] = some x := rfl

@[simp] theorem run_cons :
    x.run (event :: events) = (x.step event).bind fun x' => x'.run events := rfl

/-- Nothing happens around a worker in no events. -/
theorem after_nil : x.after [] = x := by
  rcases x with ⟨handle, ⟨job, isOpen⟩, isPoolCancelled, isDeadlineCancelled,
    isExecutorCancelled, stage⟩
  cases stage <;> cases isOpen <;> simp [after, JobHandleState.after]

/-- Events happen one after the other. -/
theorem after_cons : (x.after [event]).after events = x.after (event :: events) := by
  rcases x with ⟨handle, ⟨job, isOpen⟩, isPoolCancelled, isDeadlineCancelled,
    isExecutorCancelled, stage⟩
  cases stage <;> cases isOpen <;> cases event <;>
    simp [after, JobHandleState.after]

/-- One event around the worker: a call is served while the handle is open, a token is
cancelled, or the deadline is reached. -/
theorem step_around (haround : event.isOfWorker = false) (h : x.step event = some x') :
    x' = x.after [event] := by
  rcases x with ⟨handle, ⟨job, isOpen⟩, isPoolCancelled, isDeadlineCancelled,
    isExecutorCancelled, stage⟩
  cases event with
  | call now call =>
      cases h
      cases isOpen with
      | false =>
          rw [JobHandleImpl.take_of_closed now call rfl]
          cases stage <;> simp [after, JobHandleState.after]
      | true =>
          rw [JobHandleImpl.take_of_open now call rfl]
          cases stage <;> simp [after, JobHandleState.after]
  | cancelSelf =>
      cases h
      cases stage <;> cases isOpen <;> simp [after, JobHandleState.after]
  | shutdown =>
      cases h
      cases stage <;> cases isOpen <;> simp [after, JobHandleState.after]
  | reachDeadline now =>
      rcases stage with (_ | deadlineAt) | _ | _ | _ | _ <;> simp [step] at h
      obtain ⟨-, rfl⟩ := h
      cases isOpen <;> simp [after, JobHandleState.after]
  | finish outcome => cases haround
  | close => cases haround
  | checkShutdown => cases haround
  | reclaim => cases haround

/-- What happens around the worker changes the job by the calls served while the handle was
open, and nothing else. -/
theorem run_around (haround : ∀ event ∈ events, event.isOfWorker = false)
    (h : x.run events = some x') : x' = x.after events := by
  induction events generalizing x with
  | nil =>
      cases h
      exact after_nil.symm
  | cons event events ih =>
      rw [run_cons, Option.bind_eq_some_iff] at h
      obtain ⟨x₁, hstep, hrun⟩ := h
      obtain rfl := step_around (haround event List.mem_cons_self) hstep
      rw [ih (fun e he => haround e (List.mem_cons_of_mem _ he)) hrun, after_cons]

/-- The deadline is reached once at most, by the worker that awaits it, and not early. -/
theorem deadline_awaited {now : Nat} (haround : ∀ event ∈ events, event.isOfWorker = false)
    (h : x.run events = some x') (hmem : .reachDeadline now ∈ events) :
    ∃ deadlineAt, x.stage = .running (some deadlineAt) ∧ deadlineAt ≤ now := by
  induction events generalizing x with
  | nil => cases hmem
  | cons event events ih =>
      rw [run_cons, Option.bind_eq_some_iff] at h
      obtain ⟨x₁, hstep, hrun⟩ := h
      rcases List.mem_cons.mp hmem with rfl | hmem
      · unfold step at hstep
        dsimp only at hstep
        split at hstep
        · rename_i deadlineAt hstage
          split at hstep
          · exact ⟨deadlineAt, hstage, ‹_›⟩
          · cases hstep
        · cases hstep
      · obtain ⟨deadlineAt, hstage, hle⟩ :=
          ih (fun e he => haround e (List.mem_cons_of_mem _ he)) hrun hmem
        obtain rfl := step_around (haround event List.mem_cons_self) hstep
        refine ⟨deadlineAt, ?_, hle⟩
        cases hx : x.stage with
        | running awaited =>
            rw [after, hx, ExecutionStage.past, ExecutionStage.running.injEq] at hstage
            split at hstage
            · cases hstage
            · rw [hstage]
        | returned outcome => rw [after, hx] at hstage; cases hstage
        | closed outcome => rw [after, hx] at hstage; cases hstage
        | unstopped outcome => rw [after, hx] at hstage; cases hstage
        | ended result => rw [after, hx] at hstage; cases hstage

/-! ## The steps of the worker -/

/-- A step of the worker is the next one of its stage. -/
theorem step_of_worker (hworker : event.isOfWorker = true) (h : x.step event = some x') :
    (∃ awaited outcome, x.stage = .running awaited ∧ event = .finish outcome ∧
      x' = { x with stage := .returned outcome }) ∨
    (∃ outcome, x.stage = .returned outcome ∧ event = .close ∧
      x' = { x with state := x.state.close, stage := .closed outcome }) ∨
    (∃ outcome, x.stage = .closed outcome ∧ event = .checkShutdown ∧
      x' = { x with
        stage := if x.isPoolCancelled then .ended (.error .cancelled) else .unstopped outcome }) ∨
    (∃ outcome, x.stage = .unstopped outcome ∧ event = .reclaim ∧
      x' = { x with stage := .ended (.ok ⟨x.state.job, x.classify outcome⟩) }) := by
  cases event with
  | finish outcome =>
      unfold step at h
      dsimp only at h
      split at h
      · exact .inl ⟨_, outcome, ‹_›, rfl, (Option.some.inj h).symm⟩
      · cases h
  | close =>
      unfold step at h
      dsimp only at h
      split at h
      · exact .inr (.inl ⟨_, ‹_›, rfl, (Option.some.inj h).symm⟩)
      · cases h
  | checkShutdown =>
      unfold step at h
      dsimp only at h
      split at h
      · exact .inr (.inr (.inl ⟨_, ‹_›, rfl, (Option.some.inj h).symm⟩))
      · cases h
  | reclaim =>
      unfold step at h
      dsimp only at h
      split at h
      · exact .inr (.inr (.inr ⟨_, ‹_›, rfl, (Option.some.inj h).symm⟩))
      · cases h
  | call now call => cases hworker
  | cancelSelf => cases hworker
  | shutdown => cases hworker
  | reachDeadline now => cases hworker

/-- A run takes no step of the worker, or has a first one. -/
theorem run_split (h : x.run events = some x') :
    ((∀ event ∈ events, event.isOfWorker = false) ∧ x' = x.after events) ∨
    ∃ before event rest x₁, events = before ++ event :: rest ∧
      (∀ event ∈ before, event.isOfWorker = false) ∧ x.run before = some (x.after before) ∧
      event.isOfWorker = true ∧ (x.after before).step event = some x₁ ∧
      x₁.run rest = some x' := by
  induction events generalizing x with
  | nil =>
      cases h
      exact .inl ⟨by simp, after_nil.symm⟩
  | cons event events ih =>
      rw [run_cons, Option.bind_eq_some_iff] at h
      obtain ⟨x₁, hstep, hrun⟩ := h
      cases hworker : event.isOfWorker with
      | true =>
          refine .inr ⟨[], event, events, x₁, rfl, by simp, ?_, hworker, ?_, hrun⟩
          · rw [after_nil, run_nil]
          · rw [after_nil, hstep]
      | false =>
          obtain rfl := step_around hworker hstep
          rcases ih hrun with ⟨haround, rfl⟩ | ⟨before, first, rest, x₂, rfl, haround, hbefore,
            hfirst, hstep', hrest⟩
          · refine .inl ⟨?_, after_cons⟩
            rw [List.forall_mem_cons]
            exact ⟨hworker, haround⟩
          · refine .inr ⟨event :: before, first, rest, x₂, rfl, ?_, ?_, hfirst, ?_, hrest⟩
            · rw [List.forall_mem_cons]
              exact ⟨hworker, haround⟩
            · rw [run_cons, hstep, Option.bind_some, hbefore, after_cons]
            · rwa [← after_cons]

/-- Once it ended, an execution takes no step of the worker any more. -/
theorem run_ended {result : Except InternalError ExecutorRun} (hstage : x.stage = .ended result)
    (h : x.run events = some x') :
    (∀ event ∈ events, event.isOfWorker = false) ∧ x' = x.after events := by
  rcases run_split h with h | ⟨before, event, rest, x₁, rfl, -, -, hworker, hstep, -⟩
  · exact h
  · rcases step_of_worker hworker hstep with ⟨_, _, hafter, -⟩ | ⟨_, hafter, -⟩ |
      ⟨_, hafter, -⟩ | ⟨_, hafter, -⟩ <;> rw [after, hstage] at hafter <;> cases hafter

/-- The deadline is not reached any more once the executor returned. -/
theorem deadline_unawaited (haround : ∀ event ∈ events, event.isOfWorker = false)
    (h : x.run events = some x') (hstage : ∀ awaited, x.stage ≠ .running awaited) :
    events.any isDeadline = false := by
  refine List.any_eq_false.mpr fun event hevent hdeadline => ?_
  cases event with
  | reachDeadline now =>
      obtain ⟨deadlineAt, hrunning, -⟩ := deadline_awaited haround h hevent
      exact hstage _ hrunning
  | _ => cases hdeadline

section Ends

variable {result : Except InternalError ExecutorRun} {outcome : ExecutorOutcome}

/-- The last stretch: the worker takes the job back. -/
theorem run_unstopped (hstage : x.stage = .unstopped outcome) (h : x.run events = some x')
    (hend : x'.stage = .ended result) :
    ∃ last rest, events = last ++ .reclaim :: rest ∧
      (∀ event ∈ last, event.isOfWorker = false) ∧ last.any isDeadline = false ∧
      (∀ event ∈ rest, event.isOfWorker = false) ∧
      result = .ok ⟨(x.after last).state.job, (x.after last).classify outcome⟩ ∧
      x'.state = (x.after last).state.after x.handle rest := by
  rcases run_split h with ⟨-, rfl⟩ | ⟨last, event, rest, x₁, rfl, haround, hlast, hworker, hstep,
    hrun⟩
  · rw [after, hstage] at hend
    cases hend
  rcases step_of_worker hworker hstep with ⟨_, _, hafter, -⟩ | ⟨_, hafter, -⟩ |
    ⟨_, hafter, -⟩ | ⟨outcome', hafter, rfl, rfl⟩ <;>
    rw [after, hstage] at hafter <;> cases hafter
  obtain ⟨hrest, rfl⟩ := run_ended rfl hrun
  cases hend
  refine ⟨last, rest, rfl, haround, deadline_unawaited haround hlast ?_, hrest, rfl, rfl⟩
  simp [hstage]

/-- Before it, the worker looks for a shutdown. -/
theorem run_closed (hstage : x.stage = .closed outcome) (h : x.run events = some x')
    (hend : x'.stage = .ended result) :
    ∃ late rest x₁, events = late ++ .checkShutdown :: rest ∧
      (∀ event ∈ late, event.isOfWorker = false) ∧ late.any isDeadline = false ∧
      x₁.run rest = some x' ∧
      x₁ = { x.after late with
        stage := if (x.after late).isPoolCancelled then .ended (.error .cancelled)
          else .unstopped outcome } := by
  rcases run_split h with ⟨-, rfl⟩ | ⟨late, event, rest, x₁, rfl, haround, hlate, hworker, hstep,
    hrun⟩
  · rw [after, hstage] at hend
    cases hend
  rcases step_of_worker hworker hstep with ⟨_, _, hafter, -⟩ | ⟨_, hafter, -⟩ |
    ⟨outcome', hafter, rfl, rfl⟩ | ⟨_, hafter, -⟩ <;>
    rw [after, hstage] at hafter <;> cases hafter
  refine ⟨late, rest, _, rfl, haround, deadline_unawaited haround hlate ?_, hrun, rfl⟩
  simp [hstage]

/-- Before that, it closes the handle. -/
theorem run_returned (hstage : x.stage = .returned outcome) (h : x.run events = some x')
    (hend : x'.stage = .ended result) :
    ∃ after rest x₁, events = after ++ .close :: rest ∧
      (∀ event ∈ after, event.isOfWorker = false) ∧ after.any isDeadline = false ∧
      x₁.run rest = some x' ∧
      x₁ = { x.after after with
        state := (x.after after).state.close, stage := .closed outcome } := by
  rcases run_split h with ⟨-, rfl⟩ | ⟨after, event, rest, x₁, rfl, haround, hafterRun, hworker,
    hstep, hrun⟩
  · rw [after, hstage] at hend
    cases hend
  rcases step_of_worker hworker hstep with ⟨_, _, hafter, -⟩ | ⟨outcome', hafter, rfl, rfl⟩ |
    ⟨_, hafter, -⟩ | ⟨_, hafter, -⟩ <;>
    rw [TaskExecution.after, hstage] at hafter <;> cases hafter
  refine ⟨after, rest, _, rfl, haround, deadline_unawaited haround hafterRun ?_, hrun, rfl⟩
  simp [hstage]

/-- And first the executor returns. -/
theorem run_running {awaited : Option Nat} (hstage : x.stage = .running awaited)
    (h : x.run events = some x') (hend : x'.stage = .ended result) :
    ∃ before outcome rest x₁, events = before ++ .finish outcome :: rest ∧
      (∀ event ∈ before, event.isOfWorker = false) ∧ x.run before = some (x.after before) ∧
      x₁.run rest = some x' ∧ x₁ = { x.after before with stage := .returned outcome } := by
  rcases run_split h with ⟨-, rfl⟩ | ⟨before, event, rest, x₁, rfl, haround, hbefore, hworker,
    hstep, hrun⟩
  · rw [after, hstage] at hend
    cases hend
  rcases step_of_worker hworker hstep with ⟨_, outcome, hafter, rfl, rfl⟩ | ⟨_, hafter, -⟩ |
    ⟨_, hafter, -⟩ | ⟨_, hafter, -⟩ <;>
    rw [after, hstage] at hafter <;> cases hafter
  exact ⟨before, outcome, rest, _, rfl, haround, hbefore, hrun, rfl⟩

end Ends

end TaskExecution

/-- Calls are served one after the other. -/
theorem serveCalls_append (handle : JobHandleImpl) (job : Job)
    (events rest : List ExecutionEvent) :
    serveCalls handle job (events ++ rest) =
      serveCalls handle (serveCalls handle job events) rest := by
  induction events generalizing job with
  | nil => rfl
  | cons event events ih => cases event <;> exact ih _

/-- A closed handle keeps the job as it is. -/
theorem JobHandleState.after_of_closed (handle : JobHandleImpl) (job : Job)
    (events : List ExecutionEvent) :
    JobHandleState.after handle ⟨job, false⟩ events = ⟨job, false⟩ := rfl

/-- An execution starts on a task the job holds and an executor knows. -/
theorem TaskExecution.start_eq_ok {registry : JobRegistry} {w taskId executor : Uuid} {job : Job}
    {x : TaskExecution} (h : TaskExecution.start registry w job taskId = .ok (executor, x)) :
    ∃ task, job.task? taskId = some task ∧
      registry.getTaskExecutor job.code task.code = .ok executor ∧
      x = ⟨⟨w, taskId⟩, .new job, false, false, false, .running task.deadlineAt⟩ := by
  rw [TaskExecution.start] at h
  obtain ⟨task, htask, h⟩ := bind_eq_ok.mp h
  rw [Job.findTask] at htask
  cases hfound : job.task? taskId with
  | none =>
      rw [hfound] at htask
      cases htask
  | some task' =>
      rw [hfound] at htask
      obtain rfl : task' = task := Except.ok.inj htask
      split at h
      · cases h
      · rename_i executor' hexecutor
        cases h
        exact ⟨task', rfl, hexecutor, rfl⟩

/-- An execution until the worker looked for a shutdown: the job behind the closed handle, and
what was cancelled by then. -/
theorem TaskExecution.run_until_checked {handle : JobHandleImpl} {job : Job}
    {awaited : Option Nat} {x' : TaskExecution} {events : List ExecutionEvent}
    {result : Except InternalError ExecutorRun}
    (hrun : TaskExecution.run ⟨handle, .new job, false, false, false, .running awaited⟩ events =
      some x') (hend : x'.stage = .ended result) :
    ∃ before outcome after late rest isExecutorCancelled,
      events = before ++ .finish outcome :: (after ++ .close :: (late ++ .checkShutdown :: rest)) ∧
      (∀ event ∈ before ++ after ++ late, event.isOfWorker = false) ∧
      (∀ now, .reachDeadline now ∈ before →
        ∃ deadlineAt, awaited = some deadlineAt ∧ deadlineAt ≤ now) ∧
      TaskExecution.run
        { handle := handle
          state := ⟨serveCalls handle job (before ++ after), false⟩
          isPoolCancelled := (before ++ after ++ late).any isShutdown
          isDeadlineCancelled := before.any isDeadline
          isExecutorCancelled := isExecutorCancelled
          stage := if (before ++ after ++ late).any isShutdown then .ended (.error .cancelled)
            else .unstopped outcome } rest = some x' := by
  obtain ⟨before, outcome, rest₁, x₁, rfl, hbefore, hrunBefore, hrun₁, rfl⟩ :=
    run_running rfl hrun hend
  obtain ⟨after, rest₂, x₂, rfl, hafter, hunreached, hrun₂, rfl⟩ := run_returned rfl hrun₁ hend
  obtain ⟨late, rest, x₃, rfl, hlate, hunreached', hrun₃, hx₃⟩ := run_closed rfl hrun₂ hend
  refine ⟨before, outcome, after, late, rest, x₃.isExecutorCancelled, rfl, ?_, ?_, ?_⟩
  · simp only [List.forall_mem_append]
    exact ⟨⟨hbefore, hafter⟩, hlate⟩
  · intro now hnow
    obtain ⟨deadlineAt, hstage, hle⟩ := deadline_awaited hbefore hrunBefore hnow
    exact ⟨deadlineAt, ExecutionStage.running.inj hstage, hle⟩
  · rw [← hrun₃]
    congr 1
    rw [hx₃]
    simp [TaskExecution.after, JobHandleState.after, JobHandleState.close, JobHandleState.new,
      serveCalls_append, hunreached, hunreached', Bool.or_assoc]

/-- What an execution ends with, from the order of events: the executor returns, the handle is
closed, a shutdown is looked for, and the job is taken back.  A shutdown until then drops
whatever the executor returned.  Otherwise the job is the one the execution began with after
the calls until the handle was closed, in their order and no later one; and the result is what
the executor returned, unless it returned a cancellation and its deadline had been reached, or
a shutdown came after all. -/
theorem executor_run_exact {registry : JobRegistry} {w taskId executor : Uuid} {job : Job}
    {x x' : TaskExecution} {events : List ExecutionEvent}
    {result : Except InternalError ExecutorRun}
    (hstart : TaskExecution.start registry w job taskId = .ok (executor, x))
    (hrun : x.run events = some x') (hend : x'.stage = .ended result) :
    ∃ before outcome after late rest,
      events = before ++ .finish outcome :: (after ++ .close :: (late ++ .checkShutdown :: rest)) ∧
      (∀ event ∈ before ++ after ++ late, event.isOfWorker = false) ∧
      (∀ now, .reachDeadline now ∈ before → ∃ task deadlineAt, job.task? taskId = some task ∧
        task.deadlineAt = some deadlineAt ∧ deadlineAt ≤ now) ∧
      x'.state = ⟨serveCalls ⟨w, taskId⟩ job (before ++ after), false⟩ ∧
      ((before ++ after ++ late).any isShutdown = true → result = .error .cancelled) ∧
      ((before ++ after ++ late).any isShutdown = false →
        ∃ last rest', rest = last ++ .reclaim :: rest' ∧
          result = .ok
            { job := serveCalls ⟨w, taskId⟩ job (before ++ after)
              result :=
                if outcome = .cancelled ∧
                    (before.any isDeadline = true ∨ last.any isShutdown = true) then
                  .releasedByDeadline
                else .returned outcome }) := by
  obtain ⟨task, htask, -, rfl⟩ := TaskExecution.start_eq_ok hstart
  obtain ⟨before, outcome, after, late, rest, isExecutorCancelled, rfl, haround, hreached,
    hrest⟩ := TaskExecution.run_until_checked hrun hend
  refine ⟨before, outcome, after, late, rest, rfl, haround, fun now hnow => ?_, ?_⟩
  · obtain ⟨deadlineAt, hawaited, hle⟩ := hreached now hnow
    exact ⟨task, deadlineAt, htask, hawaited, hle⟩
  cases hstopped : (before ++ after ++ late).any isShutdown with
  | true =>
      rw [hstopped, if_pos rfl] at hrest
      obtain ⟨-, rfl⟩ := TaskExecution.run_ended rfl hrest
      refine ⟨rfl, fun _ => ?_, fun h => by cases h⟩
      exact (ExecutionStage.ended.inj hend).symm
  | false =>
      rw [hstopped, if_neg Bool.false_ne_true] at hrest
      obtain ⟨last, rest', rfl, -, hunreached, -, rfl, hstate⟩ :=
        TaskExecution.run_unstopped rfl hrest hend
      refine ⟨?_, fun h => Bool.noConfusion h, fun _ => ⟨last, rest', rfl, ?_⟩⟩
      · rw [hstate]
        rfl
      · simp only [TaskExecution.after, JobHandleState.after_of_closed, TaskExecution.classify,
          TaskExecution.deadlineTokenCancelled, hunreached, Bool.or_false, Bool.false_or,
          Bool.or_eq_true]

/-- The result an execution ended with. -/
def ExecutionStage.result? : ExecutionStage → Option ExecutorResult
  | .ended (.ok run) => some run.result
  | _ => none

/-- An execution of the only task of a job, begun and run along the given events. -/
def soloExecution (events : List ExecutionEvent) : Option (TaskExecution × TaskExecution) := do
  let registry ← (JobRegistry.new [soloDefinition "a"]).toOption
  let job ← (Job.new (soloDefinition "a") [] 101 900 [1] 0).toOption
  let (_, x) ← (TaskExecution.start registry 101 (Job.startTask 1 101 5 job).2 1).toOption
  let x' ← x.run events
  return (x, x')

/-- An executor moves the next iteration, is told to stop by its deadline and returns a
cancellation; a copy of its handle is used after it was closed. -/
theorem executor_released :
    ∃ x x', soloExecution [.call 6 (.setNextStartAt 70), .reachDeadline 200000000000,
        .finish .cancelled, .close, .call 7 (.setNextStartAt 80), .checkShutdown, .reclaim] =
          some (x, x') ∧
      x'.stage.result? = some .releasedByDeadline ∧ x'.state.isOpen = false := by
  have hsome : ((soloExecution [.call 6 (.setNextStartAt 70), .reachDeadline 200000000000,
      .finish .cancelled, .close, .call 7 (.setNextStartAt 80), .checkShutdown,
      .reclaim]).bind fun p => p.2.stage.result?) = some .releasedByDeadline := by
    decide +kernel
  obtain ⟨⟨x, x'⟩, hx, hresult⟩ := Option.bind_eq_some_iff.mp hsome
  refine ⟨x, x', hx, hresult, ?_⟩
  unfold soloExecution at hx
  simp only [Option.bind_eq_bind, Option.bind_eq_some_iff] at hx
  obtain ⟨registry, -, job, -, ⟨executor, x₀⟩, hstart, x₁, hrun, hpair⟩ := hx
  cases hpair
  unfold ExecutionStage.result? at hresult
  split at hresult
  · obtain ⟨_, _, _, _, _, -, -, -, hstate, -⟩ :=
      executor_run_exact (toOption_eq_some.mp hstart) hrun ‹_›
    rw [hstate]
  · cases hresult

end JobManager
