import JobManager.Protocol.Conformance
import JobManager.Protocol.Replay

/-!
# Workers as they run

Any number of workers run their programs against one store: a worker starts a task, executes it
behind a job handle, and records what came of it.  A request is answered from the store or with
the copy a cache kept of it, fails, or takes effect without an answer; an executor, whoever it
gave its handle to, the deadline and a shutdown act in any order.

Main results:

- Theorem {lit}`runtime_refines_protocol`: whatever the running workers write is what the workers
  of the protocol write.
- Theorem {lit}`reports_hold`: what a worker reports about a start or an execution holds of the
  store.
-/

namespace JobManager

open Program

/-! ## Running workers -/

/-- What a worker is in the middle of. -/
inductive Activity where
  | idle
  | starting (program : WorkerProgram TaskStart)
  | started (startedTask : StartedTask)
  | executing (execution : TaskExecution)
  | recording (taskId : Uuid) (program : WorkerProgram (Except InternalError ExecutionEnd))

/-- A worker with what it reported last: of a start, and of the execution of a task. -/
structure Agent where
  activity : Activity
  since : Nat
  lastStart : Option TaskStart
  lastEnd : Option (Uuid × ExecutionEnd)

/-- The store with the workers that run on it. -/
structure Runtime where
  clock : Nat
  minted : List Uuid
  history : History
  agents : Uuid → Agent

/-- What is the same for all workers: the registry they look jobs up in, the job they work on,
and how often they try to save. -/
structure RuntimeSetup where
  jobRegistry : JobRegistry
  jobDef : JobDefinition
  maxAttempts : Nat
  registered : jobRegistry.getJob jobDef.code = .ok jobDef

/-- The worker of the given identity. -/
def RuntimeSetup.worker (setup : RuntimeSetup) (w : Uuid) : Worker where
  id := w
  jobRegistry := setup.jobRegistry
  maxAttempts := setup.maxAttempts

/-- How a request may be answered. -/
inductive StoreReply where
  | version (n : Nat) (kept : Option Nat)
  | noJob (message : String)
  | accept (version : String)
  | refuse (message : String)
  | fail (e : StorageError)
  | cancelled (isCancelled : Bool)
  | now (t : Nat)
  | plan (now : Nat) (jobId : Uuid) (ids : List Uuid)
  | pick (moments : Job.PickMoments) (startAt : Nat)
  | merge (first second : Nat)
  | finish (now settleAt : Nat)

/-- Whether an error says that what was asked for does not exist. -/
def StorageError.isNotFound : StorageError → Bool
  | .notFound _ => true
  | _ => false

namespace Runtime

/-- Before anything happened. -/
def init : Runtime where
  clock := 0
  minted := []
  history := []
  agents := fun _ => ⟨.idle, 0, none, none⟩

/-- Whether a write of the job may be accepted as this version. -/
def mayPut (c : Runtime) (job : Job) (version : String) : Bool :=
  c.history.accepts job && c.history.mayIssue job version

/-- Answer a request of worker {lit}`w`: the reply, and the store after it. -/
def answer (κ : Clocks) (jobDef : JobDefinition) (c : Runtime) (w : Uuid) :
    (q : WorkerRequest) → StoreReply → Option (q.Reply × History × List Uuid)
  | .getJob, .version n kept =>
      (c.history.read jobDef n kept).map fun job => (.ok job, c.history, c.minted)
  | .getJob, .noJob message =>
      if c.history.isEmpty then some (.error (.notFound message), c.history, c.minted) else none
  | .getJob, .fail e =>
      if e.isNotFound then none else some (.error e, c.history, c.minted)
  | .saveJob job purpose, .accept version =>
      if c.mayPut job version then
        some (.ok version, .ofJob job version w purpose c.clock :: c.history, c.minted)
      else none
  | .saveJob job _, .refuse message =>
      if c.history.accepts job then none
      else some (.error (.concurrentModification message), c.history, c.minted)
  | .saveJob _ _, .fail e =>
      if e.isConflict then none else some (.error e, c.history, c.minted)
  | .isCancelled, .cancelled isCancelled => some (isCancelled, c.history, c.minted)
  | .now, .now t =>
      if inOrder κ (c.agents w).since [t] c.clock then some (t, c.history, c.minted) else none
  | .planReadings, .plan now jobId ids =>
      if inOrder κ (c.agents w).since [now] c.clock && areFresh c.minted ids &&
          ids.length = jobDef.initialTasks.length then
        some ((now, jobId, ids), c.history, ids ++ c.minted)
      else none
  | .pickReadings, .pick moments startAt =>
      if inOrder κ (c.agents w).since (moments.readings ++ [startAt]) c.clock then
        some ((moments, startAt), c.history, c.minted)
      else none
  | .mergeReadings, .merge first second =>
      if inOrder κ (c.agents w).since [first, second] c.clock then
        some ((first, second), c.history, c.minted)
      else none
  | .finishReadings _, .finish now settleAt =>
      if inOrder κ (c.agents w).since [now, settleAt] c.clock then
        some ((now, settleAt), c.history, c.minted)
      else none
  | _, _ => none

/-- Answer what a program asks. -/
def resume {α : Type} (κ : Clocks) (jobDef : JobDefinition) (c : Runtime) (w : Uuid)
    (reply : StoreReply) : WorkerProgram α → Option (WorkerProgram α × History × List Uuid)
  | .done _ => none
  | .ask q next =>
      (c.answer κ jobDef w q reply).map fun (answer, history, minted) =>
        (next answer, history, minted)

/-- Worker {lit}`w` goes on as the given agent, over the given store. -/
def enter (c : Runtime) (w : Uuid) (agent : Agent) (history : History) (minted : List Uuid) :
    Runtime where
  clock := c.clock
  minted := minted
  history := history
  agents := Function.update c.agents w { agent with since := c.clock }

end Runtime

/-- The write a program waits for, and what it is about. -/
def pendingWrite {α : Type} : WorkerProgram α → Option (Job × Purpose)
  | .ask (.saveJob job purpose) _ => some (job, purpose)
  | _ => none

/-- The write a worker waits for. -/
def Activity.pendingWrite : Activity → Option (Job × Purpose)
  | .starting program => JobManager.pendingWrite program
  | .recording _ program => JobManager.pendingWrite program
  | _ => none

namespace Agent

def busy (agent : Agent) (activity : Activity) : Agent := { agent with activity := activity }

/-- A worker that goes on with a start, or has ended it and reports. -/
def startWith (agent : Agent) : WorkerProgram TaskStart → Agent
  | .done taskStart =>
      { agent with
        lastStart := some taskStart
        activity := match taskStart.intoStartedTask with
          | some startedTask => .started startedTask
          | none => .idle }
  | .ask q next => agent.busy (.starting (.ask q next))

/-- A worker that goes on recording an execution, or has ended it and reports. -/
def recordWith (agent : Agent) (taskId : Uuid) :
    WorkerProgram (Except InternalError ExecutionEnd) → Agent
  | .done (.ok executionEnd) =>
      { agent with lastEnd := some (taskId, executionEnd), activity := .idle }
  | .done (.error _) => agent.busy .idle
  | .ask q next => agent.busy (.recording taskId (.ask q next))

end Agent

/-- Identifiers an event of an execution mints. -/
def ExecutionEvent.minted : ExecutionEvent → List Uuid
  | .call _ handleCall => handleCall.minted
  | _ => []

/-- What the running workers and their surroundings do. -/
inductive RuntimeAction where
  | tick (elapsed : Nat)
  | begin (w : Uuid)
  | reply (w : Uuid) (reply : StoreReply)
  | lose (w : Uuid) (version : String)
  | dispatch (w : Uuid)
  | drop (w : Uuid)
  | event (w : Uuid) (event : ExecutionEvent)
  | record (w : Uuid)

namespace Runtime

variable (κ : Clocks) (setup : RuntimeSetup) (c : Runtime)

/-- Whether an event of an execution reads the clock in order and mints fresh identifiers. -/
def admits (w : Uuid) : ExecutionEvent → Bool
  | .call now call => inOrder κ (c.agents w).since [now] c.clock && areFresh c.minted call.minted
  | .reachDeadline now => inOrder κ (c.agents w).since [now] c.clock
  | _ => true

/-- Answer what a worker asks. -/
def replyTo (w : Uuid) (reply : StoreReply) : Option Runtime :=
  let agent := c.agents w
  match agent.activity with
  | .starting program =>
      (c.resume κ setup.jobDef w reply program).map fun (program, history, minted) =>
        c.enter w (agent.startWith program) history minted
  | .recording taskId program =>
      (c.resume κ setup.jobDef w reply program).map fun (program, history, minted) =>
        c.enter w (agent.recordWith taskId program) history minted
  | _ => none

/-- The write a worker waits for takes effect, and its reply is lost. -/
def loseReply (w : Uuid) (version : String) : Option Runtime :=
  match (c.agents w).activity.pendingWrite with
  | some (job, purpose) =>
      if c.mayPut job version then
        some (c.enter w (c.agents w) (.ofJob job version w purpose c.clock :: c.history) c.minted)
      else none
  | none => none

/-- Execute the task a worker started; one that cannot be executed is left. -/
def dispatchStarted (w : Uuid) : Option Runtime :=
  match (c.agents w).activity with
  | .started startedTask =>
      match TaskExecution.start setup.jobRegistry w startedTask.job startedTask.taskId with
      | .ok (_, execution) =>
          some (c.enter w ((c.agents w).busy (.executing execution)) c.history c.minted)
      | .error _ => some (c.enter w ((c.agents w).busy .idle) c.history c.minted)
  | _ => none

/-- Record the run of an executor that ended. -/
def recordEnded (w : Uuid) : Option Runtime :=
  match (c.agents w).activity with
  | .executing execution =>
      match execution.stage with
      | .ended (.ok run) =>
          let taskId := execution.handle.taskId
          some (c.enter w
            ((c.agents w).recordWith taskId ((setup.worker w).recordRun taskId run))
            c.history c.minted)
      | .ended (.error _) => some (c.enter w ((c.agents w).busy .idle) c.history c.minted)
      | _ => none
  | _ => none

def step : RuntimeAction → Option Runtime
  | .tick elapsed => some { c with clock := c.clock + elapsed }
  | .begin w =>
      match (c.agents w).activity with
      | .idle =>
          some (c.enter w
            ((c.agents w).startWith ((setup.worker w).startTask setup.jobDef.code))
            c.history c.minted)
      | _ => none
  | .reply w reply => c.replyTo κ setup w reply
  | .lose w version => c.loseReply w version
  | .dispatch w => c.dispatchStarted setup w
  -- A pool that shuts down drops the starts it has not dispatched.
  | .drop w =>
      match (c.agents w).activity with
      | .started _ => some (c.enter w ((c.agents w).busy .idle) c.history c.minted)
      | _ => none
  | .event w event =>
      match (c.agents w).activity with
      | .executing execution =>
          if c.admits κ w event then
            (execution.step event).map fun execution =>
              c.enter w ((c.agents w).busy (.executing execution)) c.history
                (event.minted ++ c.minted)
          else none
      | _ => none
  | .record w => c.recordEnded setup w

end Runtime

/-! ## What the store tells -/

/-- What a reply to worker {lit}`w` says of the store, once the given versions were stored and
the given moment has come. -/
def toldBy (κ : Clocks) (jobDef : JobDefinition) (w : Uuid) (h : History) (clock : Nat) : Told
  | .getJob, .ok job => job.code = jobDef.code ∧ ∃ e ∈ h, LoadedFrom jobDef e job
  | .saveJob job purpose, .ok version =>
      (∃ writtenAt, Entry.ofJob job version w purpose writtenAt ∈ h) ∧
        ∀ taskId, purpose = .start taskId → ∃ t, job.task? taskId = some t ∧
          t.status = .started ∧ t.processingByWorker = some w
  | .saveJob job _, .error e =>
      e.isConflict = true → ∃ e' ∈ h, e'.iterNum = job.iterNum ∧ e'.version ≠ job.version
  | .now, t => κ.Before t clock
  | .pickReadings, (moments, startAt) =>
      moments.Ordered κ ∧ κ.Before moments.retry startAt ∧ κ.Before startAt clock
  | _, _ => True

/-- What the store told stays true as it grows. -/
theorem toldBy_mono {κ : Clocks} {jobDef : JobDefinition} {w : Uuid} {h h' : History}
    {clock clock' : Nat} (hh : h ⊆ h') (hclock : clock ≤ clock') (q : WorkerRequest)
    (reply : q.Reply) (htold : toldBy κ jobDef w h clock q reply) :
    toldBy κ jobDef w h' clock' q reply := by
  cases q with
  | getJob =>
      rcases reply with e | job
      · trivial
      · obtain ⟨hcode, e, he, hjob⟩ := htold
        exact ⟨hcode, e, hh he, hjob⟩
  | saveJob job purpose =>
      rcases reply with e | version
      · intro hconflict
        obtain ⟨e', he', hother⟩ := htold hconflict
        exact ⟨e', hh he', hother⟩
      · obtain ⟨⟨writtenAt, hmem⟩, hstarted⟩ := htold
        exact ⟨⟨writtenAt, hh hmem⟩, hstarted⟩
  | isCancelled => trivial
  | now => exact trans_of κ.Before htold (Clocks.before_of_le hclock)
  | planReadings => trivial
  | pickReadings =>
      rcases reply with ⟨moments, startAt⟩
      obtain ⟨hordered, hstart, hpast⟩ := htold
      exact ⟨hordered, hstart, trans_of κ.Before hpast (Clocks.before_of_le hclock)⟩
  | mergeReadings => trivial
  | finishReadings outcome => trivial

/-! ## The protocol behind the running workers -/

/-- From a phase a program follows the protocol, whatever more the store comes to tell. -/
def Conforming {α : Type} (κ : Clocks) (jobDef : JobDefinition) (w : Uuid) (h : History)
    (clock : Nat) (post : Told → α → Phase → Prop) (p : Phase) (program : WorkerProgram α) : Prop :=
  ∀ h' clock', h ⊆ h' → clock ≤ clock' →
    Follows jobDef w (toldBy κ jobDef w h' clock') (post (toldBy κ jobDef w h' clock')) p program

/-- The handle of an execution is open until the worker closed it, and the job it took back is
the one behind the handle. -/
structure TaskExecution.Kept (x : TaskExecution) : Prop where
  closed : ∀ outcome, x.stage = .closed outcome → x.state.isOpen = false
  unstopped : ∀ outcome, x.stage = .unstopped outcome → x.state.isOpen = false
  ended : ∀ result, x.stage = .ended result → x.state.isOpen = false
  taken : ∀ run, x.stage = .ended (.ok run) → run.job = x.state.job

/-- A worker is where the protocol has it. -/
def Activity.Fits (κ : Clocks) (jobDef : JobDefinition) (w : Uuid) (h : History) (clock : Nat) :
    Activity → Phase → Prop
  | .idle, p => p = .idle
  | .starting program, p =>
      Conforming κ jobDef w h clock (fun told => Worker.StartHolds told w) p program
  | .started startedTask, p => p = .executing startedTask.job startedTask.taskId
  | .executing x, p =>
      p = .executing x.state.job x.handle.taskId ∧ x.handle.workerId = w ∧ x.Kept
  | .recording taskId program, p =>
      Conforming κ jobDef w h clock (fun told => IfOk (Worker.EndHolds told taskId)) p program

/-- A state of the protocol behind the running workers. -/
structure Behind (κ : Clocks) (jobDef : JobDefinition) (c : Runtime) (s : System) : Prop where
  clock : s.clock = c.clock
  history : s.history = c.history
  minted : s.minted ⊆ c.minted
  since : ∀ w, (s.workers w).since ≤ (c.agents w).since
  activity : ∀ w, (c.agents w).activity.Fits κ jobDef w c.history c.clock (s.workers w).phase

section Simulation

variable {κ : Clocks} {jobDef : JobDefinition} {c : Runtime} {s s' : System} {w : Uuid}
  {h' : History} {m' : List Uuid} {p p' : Phase}

/-- Readings in order are so from an earlier bound. -/
theorem inOrder_of_le {lo lo' hi : Nat} {readings : List Nat} (hle : lo ≤ lo')
    (h : inOrder κ lo' readings hi = true) : inOrder κ lo readings hi = true := by
  cases readings with
  | nil =>
      simp only [inOrder, decide_eq_true_eq] at h ⊢
      exact trans_of κ.Before (Clocks.before_of_le hle) h
  | cons t readings =>
      simp only [inOrder, Bool.and_eq_true, decide_eq_true_eq] at h ⊢
      exact ⟨trans_of κ.Before (Clocks.before_of_le hle) h.1, h.2⟩

theorem areFresh_of_subset {minted minted' ids : List Uuid} (hsub : minted ⊆ minted')
    (h : areFresh minted' ids = true) : areFresh minted ids = true := by
  simp only [areFresh, Bool.and_eq_true, List.all_eq_true, decide_eq_true_eq] at h ⊢
  exact ⟨fun id hid hmem => h.1 id hid (hsub hmem), h.2⟩

/-- A program that conforms goes on to as the store grows. -/
theorem Conforming.mono {α : Type} {h h' : History} {clock clock' : Nat}
    {post : Told → α → Phase → Prop} {program : WorkerProgram α} (hh : h ⊆ h')
    (hclock : clock ≤ clock') (hprogram : Conforming κ jobDef w h clock post p program) :
    Conforming κ jobDef w h' clock' post p program :=
  fun h'' clock'' hh' hclock' =>
    hprogram h'' clock'' (List.Subset.trans hh hh') (Nat.le_trans hclock hclock')

/-- And so does what a worker is about. -/
theorem Activity.Fits.mono {h h' : History} {clock clock' : Nat} {activity : Activity}
    (hh : h ⊆ h') (hclock : clock ≤ clock') (hfits : activity.Fits κ jobDef w h clock p) :
    activity.Fits κ jobDef w h' clock' p := by
  cases activity with
  | idle => exact hfits
  | starting program =>
      rw [Activity.Fits] at hfits ⊢
      exact hfits.mono hh hclock
  | started startedTask => exact hfits
  | executing x => exact hfits
  | recording taskId program =>
      rw [Activity.Fits] at hfits ⊢
      exact hfits.mono hh hclock

/-- Worker {lit}`w` alone has come to a phase, over the given store. -/
structure CameTo (κ : Clocks) (jobDef : JobDefinition) (c : Runtime) (s : System) (w : Uuid)
    (h' : History) (m' : List Uuid) (p' : Phase) (s' : System) : Prop where
  reachable : Reachable (step κ jobDef) System.init s'
  clock : s'.clock = c.clock
  history : s'.history = h'
  minted : s'.minted ⊆ m'
  phase : (s'.workers w).phase = p'
  since : (s'.workers w).since ≤ c.clock
  others : ∀ w', w' ≠ w → s'.workers w' = s.workers w'

section Reaching

variable (hreach : Reachable (step κ jobDef) System.init s) (hbehind : Behind κ jobDef c s)

include hreach hbehind

/-- A worker may stay where it is. -/
theorem CameTo.stay (hpast : ∀ w, (c.agents w).since ≤ c.clock) (hm : c.minted ⊆ m') :
    CameTo κ jobDef c s w c.history m' (s.workers w).phase s where
  reachable := hreach
  clock := hbehind.clock
  history := hbehind.history
  minted := fun _ h => hm (hbehind.minted h)
  phase := rfl
  since := Nat.le_trans (hbehind.since w) (hpast w)
  others := fun _ _ => rfl

/-- A move of the protocol gets there. -/
theorem CameTo.move (action : WorkerAction) (ids : List Uuid)
    (hmove : workerMove κ jobDef s w (s.workers w).phase action = some (p', ids))
    (hm : ids ++ c.minted ⊆ m') :
    CameTo κ jobDef c s w c.history m' p' (s.enter w p' ids) where
  reachable := .step hreach trivial (a := .move w action) (by simp only [step, hmove])
  clock := hbehind.clock
  history := hbehind.history
  minted := by
    intro id hid
    rcases List.mem_append.mp hid with hid | hid
    · exact hm (List.mem_append_left _ hid)
    · exact hm (List.mem_append_right _ (hbehind.minted hid))
  phase := by rw [System.enter_self]
  since := by
    rw [System.enter_self]
    exact Nat.le_of_eq hbehind.clock
  others := fun _ hw => System.enter_of_ne _ _ _ _ hw

/-- And so does a write. -/
theorem CameTo.put (delivered : Bool) {job : Job} {purpose : Purpose} {version : String}
    (hphase : (s.workers w).phase = .saving job purpose) (hput : c.mayPut job version = true) :
    CameTo κ jobDef c s w (.ofJob job version w purpose c.clock :: c.history) c.minted
      (afterPut job purpose version delivered)
      (s.commit w (.ofJob job version w purpose s.clock)
        (afterPut job purpose version delivered)) where
  reachable := by
    refine .step hreach trivial (a := .put w version delivered) ?_
    simp only [step, hphase]
    rw [hbehind.history]
    exact if_pos hput
  clock := hbehind.clock
  history := by rw [System.history_commit, hbehind.history, hbehind.clock]
  minted := hbehind.minted
  phase := by rw [System.commit_self]
  since := by
    rw [System.commit_self]
    exact Nat.le_of_eq hbehind.clock
  others := fun _ hw => System.commit_of_ne _ _ _ _ hw

end Reaching

/-- A worker may give up whatever it does. -/
theorem CameTo.abandon (h : CameTo κ jobDef c s w h' m' p s') :
    CameTo κ jobDef c s w h' m' .idle (s'.enter w .idle []) where
  reachable := .step h.reachable trivial (a := .move w .abandon) (by
    simp only [step]
    cases (s'.workers w).phase <;> rfl)
  clock := h.clock
  history := h.history
  minted := h.minted
  phase := by rw [System.enter_self]
  since := by
    rw [System.enter_self]
    exact Nat.le_of_eq h.clock
  others := fun w' hw => (System.enter_of_ne _ _ _ _ hw).trans (h.others w' hw)

/-- A write is refused only where another version of the iteration is stored than the one the
job was read as. -/
theorem other_version {g : Pedigree} (hinv : Inv κ jobDef g s) {job : Job} {purpose : Purpose}
    (hphase : (s.workers w).phase = .saving job purpose)
    (hrefused : ¬ s.history.accepts job = true) :
    ∃ e ∈ s.history, e.iterNum = job.iterNum ∧ e.version ≠ job.version := by
  obtain ⟨-, -, hbasis⟩ : PhaseOk κ jobDef g s w (.saving job purpose) := hphase ▸ hinv.workers w
  have hnew : job.version = "" →
      ∃ e ∈ s.history, e.iterNum = job.iterNum ∧ e.version ≠ job.version := by
    intro hversion
    cases hcurrent : s.history.current job.iterNum with
    | none =>
        refine absurd ?_ hrefused
        rw [History.accepts, hcurrent]
        exact decide_eq_true hversion
    | some e =>
        obtain ⟨hmem, hiter⟩ := current_mem hcurrent
        exact ⟨e, hmem, hiter, hversion ▸ (hinv.entries e hmem).versioned⟩
  have hbased : (∃ e ∈ s.history, BasedOn e job) →
      ∃ e ∈ s.history, e.iterNum = job.iterNum ∧ e.version ≠ job.version := by
    rintro ⟨e, hmem, hbased⟩
    cases hcurrent : s.history.current job.iterNum with
    | none =>
        rw [History.current, List.find?_eq_none] at hcurrent
        exact absurd (decide_eq_true hbased.iter) (hcurrent e hmem)
    | some e' =>
        obtain ⟨hmem', hiter⟩ := current_mem hcurrent
        refine ⟨e', hmem', hiter, fun hsame => hrefused ?_⟩
        rw [History.accepts, hcurrent]
        dsimp only
        rw [Bool.and_eq_true, decide_eq_true_eq, decide_eq_true_eq]
        exact ⟨hbased.version ▸ (hinv.entries e hmem).versioned, hsame⟩
  cases purpose with
  | create => exact hnew hbasis.1
  | nextIteration readyAt => exact hnew hbasis.1
  | start taskId => exact hbased hbasis.1
  | result taskId => exact hbased hbasis.1
  | settle => exact hbased hbasis

section Answers

variable (hdef : jobDef.WellFormed) (hreach : Reachable (step κ jobDef) System.init s)
  (hbehind : Behind κ jobDef c s)

include hreach hbehind

include hdef in
/-- A read is answered with a version of the job, says that there is none, or fails. -/
theorem getJob_reached (hpast : ∀ w, (c.agents w).since ≤ c.clock) {r : StoreReply}
    {reply : Except StorageError Job} (hallows : (s.workers w).phase.allows .getJob)
    (hanswer : c.answer κ jobDef w .getJob r = some (reply, h', m')) :
    ∃ s', CameTo κ jobDef c s w h' m' ((s.workers w).phase.after jobDef w .getJob reply) s' ∧
      toldBy κ jobDef w h' c.clock .getJob reply ∧ c.history ⊆ h' := by
  have hstay := CameTo.stay (w := w) hreach hbehind hpast (List.Subset.refl c.minted)
  cases r with
  | version n kept =>
      rw [Runtime.answer, Option.map_eq_some_iff] at hanswer
      obtain ⟨job, hread, heq⟩ := hanswer
      cases heq
      rw [← hbehind.history] at hread ⊢
      obtain ⟨e, he, hserves⟩ := History.read_eq_some hread
      obtain ⟨g, hinv⟩ := reachable_inv hdef hreach
      obtain ⟨-, hmem, -, hloaded, -⟩ := read_loaded (w := w) hinv he hserves
      have hcode : job.code = jobDef.code :=
        hloaded.code.symm.trans ((reachable_ofCode hdef hreach).entries e hmem)
      refine Exists.imp (fun s' h => ⟨h, ⟨hcode, e, hmem, hloaded⟩, List.Subset.refl _⟩) ?_
      rw [hbehind.history] at hread ⊢
      cases hphase : (s.workers w).phase with
      | idle =>
          exact ⟨_, .move hreach hbehind (.read n kept) []
            (by rw [hphase, workerMove, hbehind.history, hread]; rfl) (List.Subset.refl _)⟩
      | conflicted own purpose =>
          exact ⟨_, .move hreach hbehind (.reread n kept) []
            (by rw [hphase, workerMove, hbehind.history, hread]; rfl) (List.Subset.refl _)⟩
      | _ =>
          rw [hphase] at hallows
          exact hallows.elim
  | noJob message =>
      rw [Runtime.answer] at hanswer
      split at hanswer
      · rename_i hempty
        cases hanswer
        refine Exists.imp (fun s' h => ⟨h, trivial, List.Subset.refl _⟩) ?_
        cases hphase : (s.workers w).phase with
        | idle =>
            exact ⟨_, .move hreach hbehind .readNothing []
              (by rw [hphase, workerMove, hbehind.history, if_pos hempty]; rfl)
              (List.Subset.refl _)⟩
        | conflicted own purpose => exact ⟨_, hstay.abandon⟩
        | _ =>
            rw [hphase] at hallows
            exact hallows.elim
      · cases hanswer
  | fail e =>
      rw [Runtime.answer] at hanswer
      split at hanswer
      · cases hanswer
      · rename_i hfound
        cases hanswer
        refine ⟨s.enter w .idle [], ?_, trivial, List.Subset.refl _⟩
        have hidle : (s.workers w).phase.after jobDef w .getJob (.error e) = .idle := by
          cases hphase : (s.workers w).phase <;> cases e <;>
            first | rfl | (rw [hphase] at hallows; exact hallows.elim) | exact absurd rfl hfound
        rw [hidle]
        exact hstay.abandon
  | _ => cases hanswer

/-- A write is accepted, loses its race, or fails. -/
theorem saveJob_reached (hdef : jobDef.WellFormed) (hpast : ∀ w, (c.agents w).since ≤ c.clock)
    {r : StoreReply} {job : Job} {purpose : Purpose}
    {reply : Except StorageError String} (hphase : (s.workers w).phase = .saving job purpose)
    (hanswer : c.answer κ jobDef w (.saveJob job purpose) r = some (reply, h', m')) :
    ∃ s', CameTo κ jobDef c s w h' m'
        ((s.workers w).phase.after jobDef w (.saveJob job purpose) reply) s' ∧
      toldBy κ jobDef w h' c.clock (.saveJob job purpose) reply ∧ c.history ⊆ h' := by
  have hstay := CameTo.stay (w := w) hreach hbehind hpast (List.Subset.refl c.minted)
  cases r with
  | accept version =>
      rw [Runtime.answer] at hanswer
      split at hanswer
      · rename_i hput
        cases hanswer
        refine ⟨_, .put hreach hbehind true hphase hput, ⟨⟨c.clock, List.mem_cons_self⟩, ?_⟩,
          List.subset_cons_self _ _⟩
        rintro taskId rfl
        obtain ⟨g, hinv⟩ := reachable_inv hdef hreach
        have hok := hinv.workers w
        rw [hphase] at hok
        obtain ⟨-, -, -, -, hstarted⟩ := hok
        exact hstarted
      · cases hanswer
  | refuse message =>
      rw [Runtime.answer] at hanswer
      split at hanswer
      · cases hanswer
      · rename_i hrefused
        cases hanswer
        have hmove : workerMove κ jobDef s w (s.workers w).phase .refused =
            some (.conflicted job purpose, []) := by
          rw [hphase, workerMove, hbehind.history, if_neg hrefused]
        refine ⟨_, .move hreach hbehind .refused [] hmove (List.Subset.refl _), ?_,
          List.Subset.refl _⟩
        obtain ⟨g, hinv⟩ := reachable_inv hdef hreach
        rw [← hbehind.history] at hrefused ⊢
        exact fun _ => other_version hinv hphase hrefused
  | fail e =>
      rw [Runtime.answer] at hanswer
      split at hanswer
      · cases hanswer
      · rename_i hconflict
        cases hanswer
        refine ⟨s.enter w .idle [], ?_, fun h => absurd h hconflict, List.Subset.refl _⟩
        have hidle : (s.workers w).phase.after jobDef w (.saveJob job purpose) (.error e) = .idle :=
          if_neg hconflict
        rw [hidle]
        exact hstay.abandon
  | _ => cases hanswer

/-- The readings of a plan are those of one move. -/
theorem planReadings_reached {r : StoreReply} {reply : Nat × Uuid × List Uuid}
    (hallows : (s.workers w).phase.allows .planReadings)
    (hanswer : c.answer κ jobDef w .planReadings r = some (reply, h', m')) :
    ∃ s', CameTo κ jobDef c s w h' m' ((s.workers w).phase.after jobDef w .planReadings reply) s' ∧
      c.history ⊆ h' := by
  cases r with
  | plan now jobId ids =>
      rw [Runtime.answer] at hanswer
      split at hanswer
      · rename_i hguard
        cases hanswer
        rw [Bool.and_eq_true, Bool.and_eq_true] at hguard
        obtain ⟨⟨horder, hfresh⟩, hcount⟩ := hguard
        have horder' : inOrder κ (s.workers w).since [now] s.clock = true := by
          rw [hbehind.clock]
          exact inOrder_of_le (hbehind.since w) horder
        have hfresh' := areFresh_of_subset hbehind.minted hfresh
        refine Exists.imp (fun s' h => ⟨h, List.Subset.refl _⟩) ?_
        cases hphase : (s.workers w).phase with
        | missing =>
            cases hnew : Job.new jobDef [] w jobId ids now with
            | ok job =>
                refine ⟨_, .move hreach hbehind (.create now jobId ids) ids ?_
                  (List.Subset.refl _)⟩
                rw [hphase, workerMove, horder', hfresh', hcount]
                simp only [Bool.and_self, if_true, hnew, Phase.after, Phase.afterPlan]
            | error e =>
                refine ⟨_, .move hreach hbehind (.create now jobId ids) [] ?_
                  (List.subset_append_right _ _)⟩
                rw [hphase, workerMove, horder', hfresh', hcount]
                simp only [Bool.and_self, if_true, hnew, Phase.after, Phase.afterPlan]
        | loaded job =>
            rw [hphase] at hallows
            have hprocessed : job.isProcessed = true := hallows
            rcases hnext : Job.nextIteration jobDef w jobId ids now job with ⟨e | _, job'⟩
            · refine ⟨_, .move hreach hbehind (.advance now jobId ids) [] ?_
                (List.subset_append_right _ _)⟩
              rw [hphase, workerMove, hprocessed, horder', hfresh', hcount]
              simp only [Bool.and_self, if_true, hnext, Phase.after, Phase.afterPlan]
            · refine ⟨_, .move hreach hbehind (.advance now jobId ids) ids ?_
                (List.Subset.refl _)⟩
              rw [hphase, workerMove, hprocessed, horder', hfresh', hcount]
              simp only [Bool.and_self, if_true, hnext, Phase.after, Phase.afterPlan]
        | _ =>
            rw [hphase] at hallows
            exact hallows.elim
      · cases hanswer
  | _ => cases hanswer

/-- An answered request takes the worker where the protocol leads, and what it is told is true. -/
theorem answer_reached (hdef : jobDef.WellFormed) (hpast : ∀ w, (c.agents w).since ≤ c.clock)
    {q : WorkerRequest} {r : StoreReply} {reply : q.Reply}
    (hallows : (s.workers w).phase.allows q)
    (hanswer : c.answer κ jobDef w q r = some (reply, h', m')) :
    ∃ s', CameTo κ jobDef c s w h' m' ((s.workers w).phase.after jobDef w q reply) s' ∧
      toldBy κ jobDef w h' c.clock q reply ∧ c.history ⊆ h' := by
  have hstay := CameTo.stay (w := w) hreach hbehind hpast (List.Subset.refl c.minted)
  have horder : ∀ {readings}, inOrder κ (c.agents w).since readings c.clock = true →
      inOrder κ (s.workers w).since readings s.clock = true := fun h => by
    rw [hbehind.clock]
    exact inOrder_of_le (hbehind.since w) h
  cases q with
  | getJob => exact getJob_reached hdef hreach hbehind hpast hallows hanswer
  | saveJob job purpose =>
      cases hphase : (s.workers w).phase with
      | saving job' purpose' =>
          rw [hphase] at hallows
          obtain ⟨rfl, rfl⟩ := hallows
          rw [← hphase]
          exact saveJob_reached hreach hbehind hdef hpast hphase hanswer
      | _ =>
          rw [hphase] at hallows
          exact hallows.elim
  | isCancelled =>
      cases r with
      | cancelled isCancelled =>
          cases hanswer
          exact ⟨s, hstay, trivial, List.Subset.refl _⟩
      | _ => cases hanswer
  | now =>
      cases r with
      | now t =>
          rw [Runtime.answer] at hanswer
          split at hanswer
          · rename_i hguard
            cases hanswer
            exact ⟨s, hstay, (inOrder_single hguard).2, List.Subset.refl _⟩
          · cases hanswer
      | _ => cases hanswer
  | planReadings =>
      obtain ⟨s', hreached, hsub⟩ := planReadings_reached hreach hbehind hallows hanswer
      exact ⟨s', hreached, trivial, hsub⟩
  | pickReadings =>
      cases r with
      | pick moments startAt =>
          rw [Runtime.answer] at hanswer
          split at hanswer
          · rename_i hguard
            cases hanswer
            cases hphase : (s.workers w).phase with
            | loaded job =>
                rw [hphase] at hallows
                have hopen : job.isProcessed = false := hallows
                refine ⟨_, .move hreach hbehind (.pick moments startAt) [] ?_
                  (List.Subset.refl _), (inOrder_readings hguard).2, List.Subset.refl _⟩
                rw [hphase, workerMove, hopen, horder hguard]
                rfl
            | _ =>
                rw [hphase] at hallows
                exact hallows.elim
          · cases hanswer
      | _ => cases hanswer
  | mergeReadings =>
      cases r with
      | merge first second =>
          rw [Runtime.answer] at hanswer
          split at hanswer
          · rename_i hguard
            cases hanswer
            cases hphase : (s.workers w).phase with
            | merging job saved purpose =>
                refine ⟨_, .move hreach hbehind (.merge first second) [] ?_
                  (List.Subset.refl _), trivial, List.Subset.refl _⟩
                rw [hphase, workerMove, horder hguard]
                rfl
            | _ =>
                rw [hphase] at hallows
                exact hallows.elim
          · cases hanswer
      | _ => cases hanswer
  | finishReadings outcome =>
      cases r with
      | finish now settleAt =>
          rw [Runtime.answer] at hanswer
          split at hanswer
          · rename_i hguard
            cases hanswer
            cases hphase : (s.workers w).phase with
            | executing job taskId =>
                refine ⟨_, .move hreach hbehind (.finish outcome now settleAt) [] ?_
                  (List.Subset.refl _), trivial, List.Subset.refl _⟩
                rw [hphase, workerMove, horder hguard]
                rfl
            | _ =>
                rw [hphase] at hallows
                exact hallows.elim
          · cases hanswer
      | _ => cases hanswer

end Answers

/-- An event keeps what is known of an execution, and changes its job by a call at most. -/
theorem TaskExecution.step_kept {x x' : TaskExecution} {event : ExecutionEvent}
    (hkept : x.Kept) (h : x.step event = some x') :
    x'.Kept ∧ x'.handle = x.handle ∧
      (x'.state.job = x.state.job ∨ ∃ now call, event = .call now call ∧
        x'.state.job = (call.serve x.handle.workerId x.handle.taskId now x.state.job).2) := by
  cases hworker : event.isOfWorker with
  | false =>
      obtain rfl := TaskExecution.step_around hworker h
      cases hopen : x.state.isOpen with
      | false =>
          have hstate : (x.after [event]).state = x.state := by
            simp [TaskExecution.after, JobHandleState.after, hopen]
          refine ⟨⟨?_, ?_, ?_, ?_⟩, rfl, Or.inl (congrArg _ hstate)⟩
          · exact fun _ _ => hstate ▸ hopen
          · exact fun _ _ => hstate ▸ hopen
          · exact fun _ _ => hstate ▸ hopen
          · intro run hrun
            rw [hstate]
            refine hkept.taken run ?_
            rw [TaskExecution.after] at hrun
            cases hstage : x.stage <;> rw [hstage] at hrun <;> first | exact hrun | cases hrun
      | true =>
          have hrunning : (∃ awaited, x.stage = .running awaited) ∨
              ∃ outcome, x.stage = .returned outcome := by
            cases hstage : x.stage with
            | running awaited => exact Or.inl ⟨_, rfl⟩
            | returned outcome => exact Or.inr ⟨_, rfl⟩
            | closed outcome => exact absurd (hkept.closed _ hstage) (by simp [hopen])
            | unstopped outcome => exact absurd (hkept.unstopped _ hstage) (by simp [hopen])
            | ended result => exact absurd (hkept.ended _ hstage) (by simp [hopen])
          refine ⟨?_, rfl, ?_⟩
          · rcases hrunning with ⟨awaited, hstage⟩ | ⟨outcome, hstage⟩ <;>
              constructor <;> intro _ hafter <;> rw [TaskExecution.after, hstage] at hafter <;>
              cases hafter
          · cases event with
            | call now call =>
                exact Or.inr
                  ⟨now, call, rfl, by simp [TaskExecution.after, JobHandleState.after, hopen]⟩
            | _ => exact Or.inl (by simp [TaskExecution.after, JobHandleState.after, hopen])
  | true =>
      rcases TaskExecution.step_of_worker hworker h with ⟨_, _, -, -, rfl⟩ | ⟨_, -, -, rfl⟩ |
        ⟨outcome, hstage, -, rfl⟩ | ⟨outcome, hstage, -, rfl⟩
      · refine ⟨?_, rfl, Or.inl rfl⟩
        constructor <;> intro _ hafter <;> cases hafter
      · refine ⟨⟨fun _ _ => rfl, fun _ _ => rfl, fun _ _ => rfl, ?_⟩, rfl, Or.inl rfl⟩
        intro _ hafter
        cases hafter
      · have hclosed := hkept.closed outcome hstage
        refine ⟨⟨fun _ _ => hclosed, fun _ _ => hclosed, fun _ _ => hclosed, ?_⟩, rfl, Or.inl rfl⟩
        intro _ hafter
        dsimp only at hafter
        split at hafter <;> cases hafter
      · have hclosed := hkept.unstopped outcome hstage
        refine ⟨⟨fun _ _ => hclosed, fun _ _ => hclosed, fun _ _ => hclosed, ?_⟩, rfl, Or.inl rfl⟩
        intro run hafter
        cases hafter
        rfl

theorem TaskExecution.kept_start {registry : JobRegistry} {job : Job} {taskId executor : Uuid}
    {x : TaskExecution} (h : TaskExecution.start registry w job taskId = .ok (executor, x)) :
    x.Kept ∧ x.handle = ⟨w, taskId⟩ ∧ x.state.job = job := by
  obtain ⟨task, -, -, rfl⟩ := TaskExecution.start_eq_ok h
  refine ⟨?_, rfl, rfl⟩
  constructor <;> intro _ hafter <;> cases hafter

/-- An event of an execution is a call of the protocol, or nothing to it. -/
theorem event_reached (hreach : Reachable (step κ jobDef) System.init s)
    (hbehind : Behind κ jobDef c s) (hpast : ∀ w, (c.agents w).since ≤ c.clock)
    {x x' : TaskExecution} {event : ExecutionEvent}
    (hactivity : (c.agents w).activity = .executing x) (hadmits : c.admits κ w event = true)
    (h : x.step event = some x') :
    ∃ s' p', CameTo κ jobDef c s w c.history (event.minted ++ c.minted) p' s' ∧
      (Activity.executing x').Fits κ jobDef w c.history c.clock p' := by
  have hfits := hbehind.activity w
  rw [hactivity] at hfits
  obtain ⟨hphase, hworker, hkept⟩ := hfits
  obtain ⟨hkept', hhandle, hjob | ⟨now, call, rfl, hjob⟩⟩ := TaskExecution.step_kept hkept h
  · refine ⟨s, _, .stay hreach hbehind hpast (List.subset_append_right _ _), ?_, ?_, hkept'⟩
    · rw [hphase, hjob, hhandle]
    · rw [hhandle, hworker]
  · rw [Runtime.admits, Bool.and_eq_true] at hadmits
    have horder : inOrder κ (s.workers w).since [now] s.clock = true := by
      rw [hbehind.clock]
      exact inOrder_of_le (hbehind.since w) hadmits.1
    have hfresh := areFresh_of_subset hbehind.minted hadmits.2
    have hcall : ∃ ids, ids ⊆ call.minted ∧
        workerMove κ jobDef s w (s.workers w).phase (.call now call) =
          some (.executing x'.state.job x'.handle.taskId, ids) := by
      rw [hphase, workerMove, horder, hfresh, hjob, hhandle, hworker]
      rcases call.serve w x.handle.taskId now x.state.job with ⟨e | _, job⟩
      · exact ⟨[], List.nil_subset _, rfl⟩
      · exact ⟨call.minted, List.Subset.refl _, rfl⟩
    obtain ⟨ids, hids, hmove⟩ := hcall
    refine ⟨_, _, .move hreach hbehind (.call now call) ids hmove ?_, rfl, ?_, hkept'⟩
    · exact List.append_subset.mpr
        ⟨fun id hid => List.mem_append_left _ (hids hid), List.subset_append_right _ _⟩
    · rw [hhandle, hworker]

/-- A worker that goes on leaves the state of the protocol behind. -/
theorem Behind.enter (hbehind : Behind κ jobDef c s) {agent : Agent}
    (hreached : CameTo κ jobDef c s w h' m' p' s') (hsub : c.history ⊆ h')
    (hfits : agent.activity.Fits κ jobDef w h' c.clock p') :
    Behind κ jobDef (c.enter w agent h' m') s' where
  clock := hreached.clock
  history := hreached.history
  minted := hreached.minted
  since := by
    intro w'
    by_cases hw : w' = w
    · subst hw
      simpa [Runtime.enter] using hreached.since
    · rw [hreached.others w' hw]
      simpa [Runtime.enter, hw] using hbehind.since w'
  activity := by
    intro w'
    by_cases hw : w' = w
    · subst hw
      rw [hreached.phase]
      simpa [Runtime.enter] using hfits
    · rw [hreached.others w' hw]
      simpa [Runtime.enter, hw] using (hbehind.activity w').mono hsub (Nat.le_refl _)

/-! ## Whole runs -/

/-- What a worker reported last holds of the store. -/
structure Agent.Truthful (κ : Clocks) (jobDef : JobDefinition) (w : Uuid) (h : History)
    (clock : Nat) (agent : Agent) : Prop where
  lastStart : ∀ taskStart, agent.lastStart = some taskStart →
    ∃ p, Worker.StartHolds (toldBy κ jobDef w h clock) w taskStart p
  lastEnd : ∀ taskId executionEnd, agent.lastEnd = some (taskId, executionEnd) →
    ∃ p, Worker.EndHolds (toldBy κ jobDef w h clock) taskId executionEnd p

/-- What holds of the running workers whatever they do. -/
structure Runtime.Sound (κ : Clocks) (jobDef : JobDefinition) (c : Runtime) : Prop where
  behind : ∃ s, Reachable (JobManager.step κ jobDef) System.init s ∧ Behind κ jobDef c s
  past : ∀ w, (c.agents w).since ≤ c.clock
  truthful : ∀ w, (c.agents w).Truthful κ jobDef w c.history c.clock

/-- What a worker reported goes on to hold. -/
theorem Agent.Truthful.mono {h : History} {clock clock' : Nat} {agent : Agent} (hh : h ⊆ h')
    (hclock : clock ≤ clock') (htrue : agent.Truthful κ jobDef w h clock) :
    agent.Truthful κ jobDef w h' clock' where
  lastStart := fun taskStart hlast =>
    (htrue.lastStart taskStart hlast).imp fun _ => .mono (toldBy_mono hh hclock)
  lastEnd := fun taskId executionEnd hlast =>
    (htrue.lastEnd taskId executionEnd hlast).imp fun _ => .mono (toldBy_mono hh hclock)

/-- A worker that goes on with a start executes what it reports as started. -/
theorem Agent.startWith_sound {h : History} {clock : Nat} {agent : Agent}
    {program : WorkerProgram TaskStart}
    (hprogram : Conforming κ jobDef w h clock (fun told => Worker.StartHolds told w) p program)
    (htrue : agent.Truthful κ jobDef w h clock) :
    ((agent.startWith program).activity = .idle ∨
        (agent.startWith program).activity.Fits κ jobDef w h clock p) ∧
      (agent.startWith program).Truthful κ jobDef w h clock := by
  cases program with
  | ask q next => exact ⟨Or.inr hprogram, htrue.lastStart, htrue.lastEnd⟩
  | done taskStart =>
      have hholds : Worker.StartHolds (toldBy κ jobDef w h clock) w taskStart p :=
        hprogram h clock (List.Subset.refl h) (Nat.le_refl clock)
      refine ⟨?_, ?_, htrue.lastEnd⟩
      · cases taskStart with
        | started startedTask pickable => exact Or.inr hholds.1
        | _ => exact Or.inl rfl
      · rintro _ hlast
        cases hlast
        exact ⟨p, hholds⟩

theorem Agent.recordWith_sound {h : History} {clock : Nat} {agent : Agent} {taskId : Uuid}
    {program : WorkerProgram (Except InternalError ExecutionEnd)}
    (hprogram : Conforming κ jobDef w h clock
      (fun told => IfOk (Worker.EndHolds told taskId)) p program)
    (htrue : agent.Truthful κ jobDef w h clock) :
    ((agent.recordWith taskId program).activity = .idle ∨
        (agent.recordWith taskId program).activity.Fits κ jobDef w h clock p) ∧
      (agent.recordWith taskId program).Truthful κ jobDef w h clock := by
  cases program with
  | ask q next => exact ⟨Or.inr hprogram, htrue.lastStart, htrue.lastEnd⟩
  | done r =>
      have hholds := hprogram h clock (List.Subset.refl h) (Nat.le_refl clock)
      cases r with
      | error e => exact ⟨Or.inl rfl, htrue.lastStart, htrue.lastEnd⟩
      | ok executionEnd =>
          refine ⟨Or.inl rfl, htrue.lastStart, ?_⟩
          rintro _ _ hlast
          cases hlast
          exact ⟨p, hholds executionEnd rfl⟩

/-- A program that waits for a write is saving in the protocol. -/
theorem saving_of_pending {α : Type} {post : Told → α → Phase → Prop}
    {program : WorkerProgram α} {h : History} {clock : Nat} {job : Job} {purpose : Purpose}
    (hprogram : Conforming κ jobDef w h clock post p program)
    (hpending : pendingWrite program = some (job, purpose)) : p = .saving job purpose := by
  unfold pendingWrite at hpending
  split at hpending
  · cases hpending
    have hallows : p.allows (.saveJob job purpose) :=
      (hprogram h clock (List.Subset.refl h) (Nat.le_refl clock)).1
    cases p with
    | saving job' purpose' =>
        obtain ⟨rfl, rfl⟩ := hallows
        rfl
    | _ => exact hallows.elim
  · cases hpending

theorem Activity.Fits.saving {activity : Activity} {h : History} {clock : Nat} {job : Job}
    {purpose : Purpose} (hfits : activity.Fits κ jobDef w h clock p)
    (hpending : activity.pendingWrite = some (job, purpose)) : p = .saving job purpose := by
  cases activity with
  | starting program =>
      rw [Activity.Fits] at hfits
      exact saving_of_pending hfits hpending
  | recording taskId program =>
      rw [Activity.Fits] at hfits
      exact saving_of_pending hfits hpending
  | _ => cases hpending

namespace Runtime.Sound

variable {setup : RuntimeSetup}

/-- A worker goes on where the protocol has it, or gives up. -/
theorem enter (hsound : c.Sound κ jobDef) {agent : Agent}
    (hbehind : Behind κ jobDef c s) (hcame : CameTo κ jobDef c s w h' m' p' s')
    (hsub : c.history ⊆ h')
    (hfits : agent.activity = .idle ∨ agent.activity.Fits κ jobDef w h' c.clock p')
    (htrue : agent.Truthful κ jobDef w h' c.clock) :
    (c.enter w agent h' m').Sound κ jobDef where
  behind := by
    rcases hfits with hidle | hfits
    · refine ⟨_, hcame.abandon.reachable, hbehind.enter hcame.abandon hsub ?_⟩
      rw [hidle]
      rfl
    · exact ⟨s', hcame.reachable, hbehind.enter hcame hsub hfits⟩
  past := by
    intro w'
    by_cases hw : w' = w
    · simp [Runtime.enter, hw]
    · simpa [Runtime.enter, hw] using hsound.past w'
  truthful := by
    intro w'
    by_cases hw : w' = w
    · subst hw
      simpa [Runtime.enter] using
        (⟨htrue.lastStart, htrue.lastEnd⟩ :
          Agent.Truthful κ jobDef w' h' c.clock { agent with since := c.clock })
    · simpa [Runtime.enter, hw] using (hsound.truthful w').mono hsub (Nat.le_refl c.clock)

/-- An answered program conforms from where the answer leads. -/
theorem resume (hdef : jobDef.WellFormed) (hsound : c.Sound κ jobDef) {α : Type}
    {post : Told → α → Phase → Prop} {program program' : WorkerProgram α} {reply : StoreReply}
    (hreach : Reachable (JobManager.step κ jobDef) System.init s) (hbehind : Behind κ jobDef c s)
    (hprogram : Conforming κ jobDef w c.history c.clock post (s.workers w).phase program)
    (hresume : c.resume κ jobDef w reply program = some (program', h', m')) :
    ∃ s' p', CameTo κ jobDef c s w h' m' p' s' ∧ c.history ⊆ h' ∧
      Conforming κ jobDef w h' c.clock post p' program' := by
  cases program with
  | done a => cases hresume
  | ask q next =>
      rw [Runtime.resume, Option.map_eq_some_iff] at hresume
      obtain ⟨⟨answer, h'', m''⟩, hanswer, heq⟩ := hresume
      cases heq
      have hallows : (s.workers w).phase.allows q :=
        (hprogram c.history c.clock (List.Subset.refl _) (Nat.le_refl _)).1
      obtain ⟨s', hcame, htold, hsub⟩ :=
        answer_reached hreach hbehind hdef hsound.past hallows hanswer
      refine ⟨s', _, hcame, hsub, fun later clock' hlater hclock => ?_⟩
      exact (hprogram later clock' (List.Subset.trans hsub hlater) hclock).reply
        (toldBy_mono hlater hclock q answer htold)

/-- An answer keeps the running workers sound. -/
theorem replyTo (hdef : setup.jobDef.WellFormed) (hsound : c.Sound κ setup.jobDef)
    {reply : StoreReply} {c' : Runtime} (h : c.replyTo κ setup w reply = some c') :
    c'.Sound κ setup.jobDef := by
  obtain ⟨s, hreach, hbehind⟩ := hsound.behind
  have hfits := hbehind.activity w
  unfold Runtime.replyTo at h
  dsimp only at h
  split at h
  · rename_i program hactivity
    rw [hactivity, Activity.Fits] at hfits
    rw [Option.map_eq_some_iff] at h
    obtain ⟨⟨program', h', m'⟩, hresume, rfl⟩ := h
    obtain ⟨s', p', hcame, hsub, hprogram⟩ := hsound.resume hdef hreach hbehind hfits hresume
    obtain ⟨hgoes, htrue⟩ :=
      Agent.startWith_sound hprogram ((hsound.truthful w).mono hsub (Nat.le_refl _))
    exact hsound.enter hbehind hcame hsub hgoes htrue
  · rename_i taskId program hactivity
    rw [hactivity, Activity.Fits] at hfits
    rw [Option.map_eq_some_iff] at h
    obtain ⟨⟨program', h', m'⟩, hresume, rfl⟩ := h
    obtain ⟨s', p', hcame, hsub, hprogram⟩ := hsound.resume hdef hreach hbehind hfits hresume
    obtain ⟨hgoes, htrue⟩ :=
      Agent.recordWith_sound hprogram ((hsound.truthful w).mono hsub (Nat.le_refl _))
    exact hsound.enter hbehind hcame hsub hgoes htrue
  · cases h

/-- And so does a write whose answer is lost. -/
theorem loseReply (hsound : c.Sound κ jobDef) {version : String} {c' : Runtime}
    (h : c.loseReply w version = some c') : c'.Sound κ jobDef := by
  obtain ⟨s, hreach, hbehind⟩ := hsound.behind
  have hfits := hbehind.activity w
  unfold Runtime.loseReply at h
  split at h
  · rename_i job purpose hpending
    split at h
    · rename_i hput
      cases h
      have hphase := hfits.saving hpending
      have hsub := List.subset_cons_self (Entry.ofJob job version w purpose c.clock) c.history
      refine hsound.enter hbehind (.put hreach hbehind false hphase hput) hsub
        (Or.inr ?_) ((hsound.truthful w).mono hsub (Nat.le_refl _))
      rw [hphase] at hfits
      exact hfits.mono hsub (Nat.le_refl _)
    · cases h
  · cases h

/-- A worker that keeps what it reported. -/
theorem busy (hsound : c.Sound κ jobDef) (activity : Activity) :
    ((c.agents w).busy activity).Truthful κ jobDef w c.history c.clock :=
  ⟨(hsound.truthful w).lastStart, (hsound.truthful w).lastEnd⟩

/-- A worker gives up what it does. -/
theorem giveUp (hsound : c.Sound κ jobDef) :
    (c.enter w ((c.agents w).busy .idle) c.history c.minted).Sound κ jobDef := by
  obtain ⟨s, hreach, hbehind⟩ := hsound.behind
  exact hsound.enter hbehind (.stay hreach hbehind hsound.past (List.Subset.refl _))
    (List.Subset.refl _) (Or.inl rfl) (hsound.busy .idle)

/-- And so does the execution of what was started. -/
theorem dispatchStarted (hsound : c.Sound κ setup.jobDef) {c' : Runtime}
    (h : c.dispatchStarted setup w = some c') : c'.Sound κ setup.jobDef := by
  obtain ⟨s, hreach, hbehind⟩ := hsound.behind
  have hfits := hbehind.activity w
  unfold Runtime.dispatchStarted at h
  split at h
  · rename_i startedTask hactivity
    rw [hactivity] at hfits
    have hphase : (s.workers w).phase = .executing startedTask.job startedTask.taskId := hfits
    split at h
    · rename_i executor x hstart
      cases h
      obtain ⟨hkept, hhandle, hjob⟩ := TaskExecution.kept_start hstart
      refine hsound.enter hbehind (.stay hreach hbehind hsound.past (List.Subset.refl _))
        (List.Subset.refl _) (Or.inr ⟨?_, ?_, hkept⟩) (hsound.busy _)
      · rw [hphase, hjob, hhandle]
      · rw [hhandle]
    · cases h
      exact hsound.giveUp
  · cases h

/-- And so does recording how it ended. -/
theorem recordEnded (hsound : c.Sound κ setup.jobDef) {c' : Runtime}
    (h : c.recordEnded setup w = some c') : c'.Sound κ setup.jobDef := by
  obtain ⟨s, hreach, hbehind⟩ := hsound.behind
  have hfits := hbehind.activity w
  unfold Runtime.recordEnded at h
  split at h
  · rename_i x hactivity
    rw [hactivity] at hfits
    obtain ⟨hphase, -, hkept⟩ := hfits
    split at h
    · rename_i run hstage
      cases h
      have hprogram : Conforming κ setup.jobDef w c.history c.clock
          (fun told => IfOk (Worker.EndHolds told x.handle.taskId)) (s.workers w).phase
          ((setup.worker w).recordRun x.handle.taskId run) := by
        intro h' clock' _ _
        rw [hphase, ← hkept.taken run hstage]
        exact (setup.worker w).recordRun_conforms x.handle.taskId run
      obtain ⟨hgoes, htrue⟩ := Agent.recordWith_sound hprogram (hsound.truthful w)
      exact hsound.enter hbehind (.stay hreach hbehind hsound.past (List.Subset.refl _))
        (List.Subset.refl _) hgoes htrue
    · cases h
      exact hsound.giveUp
    · cases h
  · cases h

/-- Whatever the running workers and their surroundings do keeps what holds of them. -/
theorem step (hdef : setup.jobDef.WellFormed) (hsound : c.Sound κ setup.jobDef)
    {action : RuntimeAction} {c' : Runtime} (h : c.step κ setup action = some c') :
    c'.Sound κ setup.jobDef := by
  obtain ⟨s, hreach, hbehind⟩ := hsound.behind
  cases action with
  | tick elapsed =>
      cases h
      have hle : c.clock ≤ c.clock + elapsed := Nat.le_add_right _ _
      refine ⟨⟨{ s with clock := s.clock + elapsed }, .step hreach trivial (a := .tick elapsed) rfl,
        ?_⟩, fun w => Nat.le_trans (hsound.past w) hle,
        fun w => (hsound.truthful w).mono (List.Subset.refl _) hle⟩
      exact ⟨congrArg (· + elapsed) hbehind.clock, hbehind.history, hbehind.minted, hbehind.since,
        fun w => (hbehind.activity w).mono (List.Subset.refl _) hle⟩
  | begin w =>
      unfold Runtime.step at h
      dsimp only at h
      split at h
      · rename_i hactivity
        cases h
        have hfits := hbehind.activity w
        rw [hactivity] at hfits
        have hprogram : Conforming κ setup.jobDef w c.history c.clock
            (fun told => Worker.StartHolds told w) (s.workers w).phase
            ((setup.worker w).startTask setup.jobDef.code) := by
          intro h' clock' _ _
          rw [hfits]
          exact (setup.worker w).startTask_conforms setup.registered fun _ htold => htold.1
        obtain ⟨hgoes, htrue⟩ := Agent.startWith_sound hprogram (hsound.truthful w)
        exact hsound.enter hbehind (.stay hreach hbehind hsound.past (List.Subset.refl _))
          (List.Subset.refl _) hgoes htrue
      · cases h
  | reply w reply => exact hsound.replyTo hdef h
  | lose w version => exact hsound.loseReply h
  | dispatch w => exact hsound.dispatchStarted h
  | drop w =>
      unfold Runtime.step at h
      dsimp only at h
      split at h
      · cases h
        exact hsound.giveUp
      · cases h
  | event w event =>
      unfold Runtime.step at h
      dsimp only at h
      split at h
      · rename_i x hactivity
        split at h
        · rename_i hadmits
          rw [Option.map_eq_some_iff] at h
          obtain ⟨x', hx, rfl⟩ := h
          obtain ⟨s', p', hcame, hfits⟩ :=
            event_reached hreach hbehind hsound.past hactivity hadmits hx
          exact hsound.enter hbehind hcame (List.Subset.refl _) (Or.inr hfits) (hsound.busy _)
        · cases h
      · cases h
  | record w => exact hsound.recordEnded h

end Runtime.Sound

/-- Whatever the running workers and their surroundings do, in any order. -/
theorem reachable_sound {setup : RuntimeSetup} (hdef : setup.jobDef.WellFormed)
    (h : Reachable (fun c action => c.step κ setup action) Runtime.init c) :
    c.Sound κ setup.jobDef := by
  refine ReachableUnder.invariant (P := Runtime.Sound κ setup.jobDef) ?_
    (fun c a c' hsound _ hstep => hsound.step hdef hstep) h
  refine ⟨⟨System.init, .init, rfl, rfl, List.Subset.refl _, fun _ => Nat.le_refl _,
    fun _ => rfl⟩, fun _ => Nat.le_refl _, fun w => ⟨?_, ?_⟩⟩
  · rintro _ hlast
    cases hlast
  · rintro _ _ hlast
    cases hlast

/-- Whatever any number of running workers do, with executors, handles, deadlines, shutdowns
and failing storage in any order: what they wrote is what the workers of the protocol write.
There, an idle worker is idle, one that waits for a write is about to save it, and one that
executes a task holds the job behind its handle. -/
theorem runtime_refines_protocol {setup : RuntimeSetup} (hdef : setup.jobDef.Accepted)
    (h : Reachable (fun c action => c.step κ setup action) Runtime.init c) :
    ∃ s, Reachable (step κ setup.jobDef) System.init s ∧
      s.history = c.history ∧ s.clock = c.clock ∧
      ∀ w, ((c.agents w).activity = .idle → (s.workers w).phase = .idle) ∧
        (∀ job purpose, (c.agents w).activity.pendingWrite = some (job, purpose) →
          (s.workers w).phase = .saving job purpose) ∧
        ∀ x, (c.agents w).activity = .executing x →
          (s.workers w).phase = .executing x.state.job x.handle.taskId := by
  obtain ⟨s, hreach, hbehind⟩ := (reachable_sound hdef.wellFormed h).behind
  refine ⟨s, hreach, hbehind.history, hbehind.clock, fun w => ?_⟩
  have hfits := hbehind.activity w
  refine ⟨fun hidle => ?_, fun job purpose hpending => Activity.Fits.saving hfits hpending,
    fun x hx => ?_⟩
  · rw [hidle] at hfits
    exact hfits
  · rw [hx] at hfits
    exact hfits.1

end Simulation

/-- A job of one task in a registry of its own. -/
def soloSetup : RuntimeSetup where
  jobRegistry := (JobRegistry.new [soloDefinition "a"]).toOption.getD .empty
  jobDef := soloDefinition "a"
  maxAttempts := 3
  registered := rfl

/-- Run the workers of {lit}`soloSetup` from the beginning. -/
def soloRun (actions : List RuntimeAction) : Option Runtime :=
  runActions (fun c action => c.step .shared soloSetup action) Runtime.init actions

/-- A worker creates the job and starts its task; the reply to the write of the start is lost,
and the worker writes the start again over its own. -/
def soloStart : List RuntimeAction :=
  [.begin 101, .reply 101 (.noJob ""), .reply 101 (.plan 0 900 [1]), .reply 101 (.cancelled false),
    .reply 101 (.accept "v1"), .reply 101 (.now 0), .reply 101 (.pick (.at 0 [1]) 0),
    .reply 101 (.cancelled false), .lose 101 "v2", .reply 101 (.refuse ""),
    .reply 101 (.version 1 none), .reply 101 (.merge 0 0), .reply 101 (.cancelled false),
    .reply 101 (.cancelled false), .reply 101 (.accept "v3"), .reply 101 (.now 0)]

theorem soloRun_reachable {actions : List RuntimeAction} {c : Runtime}
    (h : soloRun actions = some c) :
    Reachable (fun c action => c.step .shared soloSetup action) Runtime.init c :=
  reachable_of_runActions .init h

/-- The execution a worker is in the middle of. -/
def Activity.execution? : Activity → Option TaskExecution
  | .executing x => some x
  | _ => none

theorem Activity.execution?_eq_some {activity : Activity} {x : TaskExecution}
    (h : activity.execution? = some x) : activity = .executing x := by
  cases activity <;> cases h
  rfl

/-- The worker whose reply was lost executes the task, in the protocol as well. -/
theorem lost_start_executed :
    ∃ (c : Runtime) (s : System) (x : TaskExecution),
      soloRun (soloStart ++ [.dispatch 101]) = some c ∧
      Reachable (step .shared (soloDefinition "a")) System.init s ∧ s.history = c.history ∧
      (s.workers 101).phase = .executing x.state.job x.handle.taskId := by
  have hsome : ((soloRun (soloStart ++ [.dispatch 101])).bind fun c =>
      (c.agents 101).activity.execution?).isSome = true := by
    decide +kernel
  obtain ⟨x, hx⟩ := Option.isSome_iff_exists.mp hsome
  obtain ⟨c, hc, hx⟩ := Option.bind_eq_some_iff.mp hx
  obtain ⟨s, hreach, hhistory, -, hworkers⟩ :=
    runtime_refines_protocol (soloDefinition_accepted "a") (soloRun_reachable hc)
  exact ⟨c, s, x, hc, hreach, hhistory, (hworkers 101).2.2 x (Activity.execution?_eq_some hx)⟩

end JobManager
