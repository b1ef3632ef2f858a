import JobManager.Pool.Polling

/-!
# The worker pool

The loop of one worker pool: due jobs are claimed for idle workers, a worker that wrote
the start of a task executes it next, and task starts and executions come back in any
order, ended normally, in error or by a panic caught inside the spawned task.  The loop
body runs without interruption between two waits; a wait ends by one spawned task, by the
clock or by the shutdown.  A ledger beside the state records what was handed out and what
came back; nothing reads it.

Main results:

- Theorem {lit}`WorkerPool.spawnTaskStarts_spec`: what handing due jobs to free workers
  keeps, and what the pool waits for afterwards.
- Theorem {lit}`reachable_poolInv`: the invariant holds in every run.
- Theorem {lit}`worker_pool_conserves`: no worker, claim or written start is lost or
  duplicated in any run.
-/

namespace JobManager

/-! ## The pool -/

/-- A task start in flight: the worker running it and the claim it holds its job by. -/
structure RunningTaskStart where
  worker : Uuid
  claim : JobClaim
deriving DecidableEq

/-- A task whose start was written, waiting for the worker that wrote it to execute it, or
being executed by that worker. -/
structure TaskToExecute where
  worker : Uuid
  jobCode : JobCode
  startedTask : StartedTask

/-- What the pool waits for once every free worker has been handed the jobs that were due. -/
inductive PoolWait where
  | until (moment : Nat)
  | forPoolEvent
deriving DecidableEq

/-- What passed through a pool so far: claims handed out and given back, written starts
handed back, executions launched, and written starts the shutdown left unexecuted. -/
structure PoolLedger where
  handedOut : List JobClaim
  released : List JobClaim
  written : List TaskToExecute
  launched : List TaskToExecute
  dropped : List TaskToExecute

/-- One pool of workers and its poll schedule.  The last worker given back is the first to
be taken; the tasks in flight of the two kinds end in any order. -/
structure WorkerPool where
  scheduler : PollScheduler
  idleWorkers : List Uuid
  tasksToExecute : List TaskToExecute
  taskStarts : List RunningTaskStart
  executions : List TaskToExecute
  ledger : PoolLedger

namespace WorkerPool

def new (scheduler : PollScheduler) (workers : List Uuid) : WorkerPool where
  scheduler := scheduler
  idleWorkers := workers.reverse
  tasksToExecute := []
  taskStarts := []
  executions := []
  ledger := ⟨[], [], [], [], []⟩

/-- Start the execution of every task whose start was written since the last look. -/
def startExecutions (pool : WorkerPool) : WorkerPool :=
  { pool with
    tasksToExecute := []
    executions := pool.executions ++ pool.tasksToExecute
    ledger := { pool.ledger with launched := pool.ledger.launched ++ pool.tasksToExecute } }

/-- Spawn a task start of a claimed job on a worker. -/
def spawnTaskStart (pool : WorkerPool) (worker : Uuid) (claim : JobClaim) : WorkerPool :=
  { pool with
    taskStarts := ⟨worker, claim⟩ :: pool.taskStarts
    ledger := { pool.ledger with handedOut := claim :: pool.ledger.handedOut } }

/-- Hand due jobs to free workers until either runs out, and answer what the pool waits for
next.  Each look at the schedule reads the clock; nothing is answered when more looks are
made than readings are given. -/
def spawnTaskStarts : List Nat → WorkerPool → Option (PoolWait × WorkerPool)
  | [], pool =>
      match pool.idleWorkers with
      | [] => some (.forPoolEvent, pool)
      | _ :: _ => none
  | now :: nows, pool =>
      match pool.idleWorkers with
      | [] => some (.forPoolEvent, pool)
      | worker :: idleWorkers =>
          match PollScheduler.tryClaimDueJob now pool.scheduler with
          | (.ok (.claimed claim), scheduler) =>
              spawnTaskStarts nows
                ({ pool with
                  scheduler := scheduler
                  idleWorkers := idleWorkers }.spawnTaskStart worker claim)
          | (.ok (.waitUntil wakeAt), scheduler) =>
              some (.until wakeAt, { pool with scheduler := scheduler })
          | (.ok .waitForPoolEvent, scheduler) =>
              some (.forPoolEvent, { pool with scheduler := scheduler })
          -- The entry is gone from the queue with the error, so the next look moves on.
          | (.error _, scheduler) => spawnTaskStarts nows { pool with scheduler := scheduler }

/-- What a spawned task start reports: a panic counts as one that changed nothing. -/
def taskStartOutcome (utc : Nat) : Option TaskStart → JobProgress × Option StartedTask
  | none => (.stalled, none)
  | some taskStart => (.fromTaskStart utc taskStart, taskStart.intoStartedTask)

/-- What a spawned execution reports: a panic counts as one that ended without a state. -/
def executionOutcome : Option (Option ExecutionEnd) → JobProgress
  | none => .fromJobExecution none
  | some executionEnd => .fromJobExecution executionEnd

/-- Give a claim back; a refusal is only reported. -/
def releaseJob (pool : WorkerPool) (claim : JobClaim) (progress : JobProgress) (r : Reading) :
    WorkerPool :=
  match PollScheduler.releaseJob claim progress r pool.scheduler with
  | (.ok _, scheduler) =>
      { pool with
        scheduler := scheduler
        ledger := { pool.ledger with released := claim :: pool.ledger.released } }
  | (.error _, scheduler) => { pool with scheduler := scheduler }

/-- Return the job of a finished task start to the schedule, and queue the task it started
for its worker to execute, or give the worker back when it started none. -/
def closeTaskStart (pool : WorkerPool) (start : RunningTaskStart) (progress : JobProgress)
    (startedTask : Option StartedTask) (r : Reading) : WorkerPool :=
  let released := pool.releaseJob start.claim progress r
  match startedTask with
  | some startedTask =>
      let task : TaskToExecute := ⟨start.worker, start.claim.jobCode, startedTask⟩
      { released with
        tasksToExecute := released.tasksToExecute ++ [task]
        ledger := { released.ledger with written := task :: released.ledger.written } }
  | none => { released with idleWorkers := start.worker :: released.idleWorkers }

/-- Record the end of an execution and give its worker back; a refusal of the schedule is
only reported. -/
def closeExecution (pool : WorkerPool) (execution : TaskToExecute) (progress : JobProgress)
    (r : Reading) : WorkerPool :=
  { pool with
    scheduler := (PollScheduler.rescheduleJob execution.jobCode progress r pool.scheduler).2
    idleWorkers := execution.worker :: pool.idleWorkers }

end WorkerPool

/-! ## The loop -/

/-- Where the loop of a pool stands. -/
inductive PoolPhase where
  | looping
  | waiting (wait : PoolWait)
  | stopping
  | stopped
deriving DecidableEq

/-- A pool in its loop. -/
structure PoolRun where
  pool : WorkerPool
  phase : PoolPhase
  isCancelled : Bool

/-- What happens to a running pool: the shutdown is asked for, the loop looks at the
schedule, a task start or an execution in flight ends, the wait is over, the loop is left,
and everything in flight is back. -/
inductive PoolEvent where
  | cancel
  | look (nows : List Nat)
  | taskStartEnds (index : Nat) (ended : Option TaskStart) (utc : Nat) (r : Reading)
  | executionEnds (index : Nat) (ended : Option (Option ExecutionEnd)) (r : Reading)
  | wake
  | stop
  | finish

/-- Where the loop stands once a spawned task was closed, if it waits for one. -/
def PoolPhase.afterJoin : PoolPhase → Option PoolPhase
  | .waiting _ => some .looping
  | .stopping => some .stopping
  | .looping | .stopped => none

/-- A wait that may be over without a spawned task: the clock, or the shutdown. -/
def PoolPhase.wakes (isCancelled : Bool) : PoolPhase → Bool
  | .waiting (.until _) => true
  | .waiting .forPoolEvent => isCancelled
  | .looping | .stopping | .stopped => false

namespace PoolRun

def initial (scheduler : PollScheduler) (workers : List Uuid) : PoolRun where
  pool := .new scheduler workers
  phase := .looping
  isCancelled := false

def step (s : PoolRun) : PoolEvent → Option PoolRun
  | .cancel => some { s with isCancelled := true }
  | .look nows =>
      if s.phase = .looping ∧ s.isCancelled = false then
        (s.pool.startExecutions.spawnTaskStarts nows).map fun (wait, pool) =>
          { s with pool := pool, phase := .waiting wait }
      else none
  | .taskStartEnds index ended utc r =>
      match s.phase.afterJoin, s.pool.taskStarts[index]? with
      | some phase, some start =>
          let (progress, startedTask) := WorkerPool.taskStartOutcome utc ended
          let pool := { s.pool with taskStarts := s.pool.taskStarts.eraseIdx index }
          some { s with pool := pool.closeTaskStart start progress startedTask r, phase := phase }
      | _, _ => none
  | .executionEnds index ended r =>
      match s.phase.afterJoin, s.pool.executions[index]? with
      | some phase, some execution =>
          let pool := { s.pool with executions := s.pool.executions.eraseIdx index }
          some { s with
            pool := pool.closeExecution execution (WorkerPool.executionOutcome ended) r
            phase := phase }
      | _, _ => none
  | .wake => if s.phase.wakes s.isCancelled then some { s with phase := .looping } else none
  | .stop =>
      if s.phase = .looping ∧ s.isCancelled then some { s with phase := .stopping } else none
  | .finish =>
      if s.phase = .stopping ∧ s.pool.taskStarts = [] ∧ s.pool.executions.isEmpty then
        some
          { s with
            pool :=
              { s.pool with
                tasksToExecute := []
                ledger := { s.pool.ledger with dropped := s.pool.tasksToExecute } }
            phase := .stopped }
      else none

end PoolRun

/-! ## The schedule inside the pool -/

section Polls

variable {jobCodes : List JobCode} {scheduler : PollScheduler} {claims : List JobClaim}

/-- The invariant of the schedule reads neither the clock nor the order of the claims. -/
theorem PollInv.congr {s s' : PollRun} (h : PollInv jobCodes s)
    (hscheduler : s'.scheduler = s.scheduler) (hclaims : s.claims.Perm s'.claims) :
    PollInv jobCodes s' where
  indexed := by
    rw [hscheduler]
    exact h.indexed
  listed := by
    rw [hscheduler]
    exact h.listed
  claims_nodup := hclaims.nodup_iff.mp h.claims_nodup
  claimed := by
    intro claim
    rw [hscheduler, ← hclaims.mem_iff]
    exact h.claimed claim

/-- A claim keeps the schedule in shape and is the one held. -/
theorem PollInv.tryClaimDueJob (h : PollInv jobCodes ⟨scheduler, claims, 0⟩) (now : Nat) :
    PollInv jobCodes ⟨(PollScheduler.tryClaimDueJob now scheduler).2,
      PollRun.claimsAfter claims (PollScheduler.tryClaimDueJob now scheduler).1, 0⟩ := by
  have hstep := h.step (.tryClaimDueJob now) (by simp [PollRun.step, PollCall.now]; rfl)
  exact hstep.congr rfl (.refl _)

/-- A rescheduling keeps the schedule in shape. -/
theorem PollInv.rescheduleJob (h : PollInv jobCodes ⟨scheduler, claims, 0⟩) (code : JobCode)
    (progress : JobProgress) (r : Reading) :
    PollInv jobCodes ⟨(PollScheduler.rescheduleJob code progress r scheduler).2, claims, 0⟩ := by
  have hstep := h.step (.rescheduleJob code progress r)
    (by simp [PollRun.step, PollCall.now]; rfl)
  exact hstep.congr rfl (.refl _)

/-- A claim in use is taken back, and the others stay in use. -/
theorem PollInv.releaseJob {claim : JobClaim}
    (h : PollInv jobCodes ⟨scheduler, claim :: claims, 0⟩) (progress : JobProgress) (r : Reading) :
    ∃ scheduler', PollScheduler.releaseJob claim progress r scheduler = (.ok (), scheduler') ∧
      PollInv jobCodes ⟨scheduler', claims, 0⟩ := by
  obtain ⟨due, hslot⟩ := (h.claimed claim).mp List.mem_cons_self
  rw [PollScheduler.slot, Option.map_eq_some_iff] at hslot
  obtain ⟨job, hjob, hslot⟩ := hslot
  obtain ⟨dueQueue, heq⟩ := PollScheduler.releaseJob_claimed progress r hjob hslot
  refine ⟨_, heq, ?_⟩
  have hstep := h.step (.releaseJob claim progress r)
    (by simp [PollRun.step, PollCall.now]; rfl)
  have hcongr : PollInv jobCodes
      ⟨(PollScheduler.releaseJob claim progress r scheduler).2, claims, 0⟩ :=
    hstep.congr rfl (by simp)
  rw [heq] at hcongr
  exact hcongr

end Polls

/-! ## Conservation -/

namespace WorkerPool

/-- Every place a worker can be in: idle, running a task start, waiting to execute the task
it started, or executing it. -/
def places (pool : WorkerPool) : List Uuid :=
  pool.idleWorkers ++ pool.taskStarts.map RunningTaskStart.worker ++
    pool.tasksToExecute.map TaskToExecute.worker ++ pool.executions.map TaskToExecute.worker

/-- The claims the task starts in flight hold. -/
def claims (pool : WorkerPool) : List JobClaim := pool.taskStarts.map RunningTaskStart.claim

/-- Nothing is lost or duplicated: the workers are all in some place, a claim handed out is
held by a task start in flight or was given back, a written start is waiting, was launched, or
was dropped by the shutdown, and only what was launched is executed. -/
structure Conserves (jobCodes : List JobCode) (workers : List Uuid) (pool : WorkerPool) : Prop where
  polls : PollInv jobCodes ⟨pool.scheduler, pool.claims, 0⟩
  places : pool.places.Perm workers
  claims : pool.ledger.handedOut.Perm (pool.claims ++ pool.ledger.released)
  starts : pool.ledger.written.Perm (pool.tasksToExecute ++ pool.ledger.launched)
  executions : pool.executions.Subperm pool.ledger.launched

/-- No job of the pool's schedule is queued. -/
def NothingQueued (pool : WorkerPool) : Prop :=
  ∀ code t, pool.scheduler.slot code ≠ some (.queued t)

variable {jobCodes : List JobCode} {workers : List Uuid} {pool : WorkerPool}

/-- Launching what was written moves workers, and loses none. -/
theorem Conserves.startExecutions (h : Conserves jobCodes workers pool) :
    Conserves jobCodes workers pool.startExecutions where
  polls := h.polls
  places := by
    refine List.Perm.trans ?_ h.places
    simp only [WorkerPool.places, WorkerPool.startExecutions, List.map_nil, List.map_append,
      List.append_nil, List.append_assoc]
    exact (List.perm_append_comm.append_left _).append_left _
  claims := h.claims
  starts := by
    refine h.starts.trans ?_
    exact List.perm_append_comm
  executions := (List.subperm_append_right _).mpr h.executions

/-- A task start takes one idle worker and one claim. -/
theorem Conserves.spawnTaskStart {scheduler : PollScheduler} {worker : Uuid}
    {idleWorkers : List Uuid} {claim : JobClaim} (h : Conserves jobCodes workers pool)
    (hidle : pool.idleWorkers = worker :: idleWorkers)
    (hpolls : PollInv jobCodes ⟨scheduler, claim :: pool.claims, 0⟩) :
    Conserves jobCodes workers
      ({ pool with
        scheduler := scheduler
        idleWorkers := idleWorkers }.spawnTaskStart worker claim) where
  polls := hpolls
  places := by
    refine List.Perm.trans ?_ h.places
    simp only [WorkerPool.places, WorkerPool.spawnTaskStart, hidle, List.map_cons, List.cons_append,
      List.append_assoc]
    exact List.perm_middle
  claims := h.claims.cons claim
  starts := h.starts
  executions := h.executions

/-- Handing due jobs to free workers keeps what the pool conserves, touches no written start,
and ends waiting for a pool event only when no worker is idle or no job is queued. -/
theorem spawnTaskStarts_spec {nows : List Nat} {wait : PoolWait} {pool' : WorkerPool}
    (h : Conserves jobCodes workers pool)
    (heq : spawnTaskStarts nows pool = some (wait, pool')) :
    Conserves jobCodes workers pool' ∧ pool'.tasksToExecute = pool.tasksToExecute ∧
      pool'.ledger.dropped = pool.ledger.dropped ∧
      (wait = .forPoolEvent → pool'.idleWorkers = [] ∨ pool'.NothingQueued) := by
  induction nows generalizing pool with
  | nil =>
      rw [spawnTaskStarts] at heq
      split at heq <;> rename_i hidle
      · cases heq
        exact ⟨h, rfl, rfl, fun _ => Or.inl hidle⟩
      · cases heq
  | cons now nows ih =>
      rw [spawnTaskStarts] at heq
      split at heq <;> rename_i hidle
      · cases heq
        exact ⟨h, rfl, rfl, fun _ => Or.inl hidle⟩
      have hpolls := h.polls.tryClaimDueJob now
      have hexplains := PollScheduler.tryClaimDueJob_explains h.polls.indexed now
      split at heq <;> rename_i hlook <;> rw [hlook] at hpolls hexplains
      · have hspawned := ih (h.spawnTaskStart hidle hpolls) heq
        exact hspawned
      · cases heq
        exact ⟨⟨hpolls, h.places, h.claims, h.starts, h.executions⟩, rfl, rfl, by simp⟩
      · cases heq
        have hsame := PollScheduler.tryClaimDueJob_idle hlook
        subst hsame
        exact ⟨h, rfl, rfl, fun _ => Or.inr fun code t => hexplains t code⟩
      · exact hexplains.elim

/-- One reading of the clock for each idle worker is enough for the hand-out to end. -/
theorem spawnTaskStarts_isSome (nows : List Nat) (h : Conserves jobCodes workers pool)
    (hlen : pool.idleWorkers.length ≤ nows.length) : (spawnTaskStarts nows pool).isSome := by
  induction nows generalizing pool with
  | nil =>
      rw [spawnTaskStarts, List.length_eq_zero_iff.mp (Nat.le_zero.mp hlen)]
      rfl
  | cons now nows ih =>
      rw [spawnTaskStarts]
      split <;> rename_i hidle
      · rfl
      have hpolls := h.polls.tryClaimDueJob now
      have hexplains := PollScheduler.tryClaimDueJob_explains h.polls.indexed now
      split <;> rename_i hlook <;> rw [hlook] at hpolls hexplains
      · apply ih (h.spawnTaskStart hidle hpolls)
        rw [hidle] at hlen
        exact Nat.le_of_succ_le_succ hlen
      · rfl
      · rfl
      · exact hexplains.elim

/-- A finished task start gives its claim back, once, and its worker goes on to execute the
task it started, or is idle again. -/
theorem Conserves.closeTaskStart {index : Nat} {start : RunningTaskStart} {progress : JobProgress}
    {startedTask : Option StartedTask} {r : Reading} (h : Conserves jobCodes workers pool)
    (hstart : pool.taskStarts[index]? = some start) :
    let closed := { pool with taskStarts := pool.taskStarts.eraseIdx index }.closeTaskStart
      start progress startedTask r
    Conserves jobCodes workers closed ∧
      closed.taskStarts = pool.taskStarts.eraseIdx index ∧
      closed.ledger.released = start.claim :: pool.ledger.released ∧
      closed.ledger.dropped = pool.ledger.dropped := by
  intro closed
  have hperm : (start :: pool.taskStarts.eraseIdx index).Perm pool.taskStarts := by
    obtain ⟨hlt, hget⟩ := List.getElem?_eq_some_iff.mp hstart
    rw [← hget]
    exact List.getElem_cons_eraseIdx_perm hlt
  have hclaims : (start.claim :: (pool.taskStarts.eraseIdx index).map RunningTaskStart.claim).Perm
      pool.claims := hperm.map _
  have hpolls : PollInv jobCodes ⟨pool.scheduler,
      start.claim :: (pool.taskStarts.eraseIdx index).map RunningTaskStart.claim, 0⟩ :=
    h.polls.congr rfl hclaims.symm
  obtain ⟨scheduler, hrelease, hreleased⟩ := hpolls.releaseJob progress r
  have hworkers := hperm.map RunningTaskStart.worker
  have hhanded : pool.ledger.handedOut.Perm
      ((pool.taskStarts.eraseIdx index).map RunningTaskStart.claim ++
        start.claim :: pool.ledger.released) := by
    refine h.claims.trans ?_
    refine List.Perm.trans ?_ List.perm_middle.symm
    exact hclaims.symm.append_right _
  have hplaces := h.places
  simp only [WorkerPool.places] at hplaces
  rw [List.perm_iff_count] at hplaces hworkers
  have hclosed : closed = { pool with taskStarts := pool.taskStarts.eraseIdx index }.closeTaskStart
      start progress startedTask r := rfl
  simp only [WorkerPool.closeTaskStart, WorkerPool.releaseJob, hrelease] at hclosed
  cases startedTask with
  | none =>
      simp only at hclosed
      rw [hclosed]
      refine ⟨⟨hreleased, ?_, hhanded, h.starts, h.executions⟩, rfl, rfl, rfl⟩
      rw [List.perm_iff_count]
      intro w
      have hw := hworkers w
      have hp := hplaces w
      simp only [WorkerPool.places, List.map_cons, List.count_append, List.count_cons] at hw hp ⊢
      omega
  | some startedTask =>
      simp only at hclosed
      rw [hclosed]
      refine ⟨⟨hreleased, ?_, hhanded, ?_, h.executions⟩, rfl, rfl, rfl⟩
      · rw [List.perm_iff_count]
        intro w
        have hw := hworkers w
        have hp := hplaces w
        simp only [WorkerPool.places, List.map_append, List.map_cons, List.map_nil,
          List.count_append, List.count_cons, List.count_nil] at hw hp ⊢
        omega
      · refine (h.starts.cons _).trans ?_
        simp only [List.append_assoc, List.singleton_append]
        exact List.perm_middle.symm

/-- An execution that ends gives its worker back. -/
theorem Conserves.closeExecution {index : Nat} {execution : TaskToExecute} {progress : JobProgress}
    {r : Reading} (h : Conserves jobCodes workers pool)
    (hexecution : pool.executions[index]? = some execution) :
    Conserves jobCodes workers
      ({ pool with executions := pool.executions.eraseIdx index }.closeExecution
        execution progress r) where
  polls := h.polls.rescheduleJob execution.jobCode progress r
  places := by
    have hperm : (execution :: pool.executions.eraseIdx index).Perm pool.executions := by
      obtain ⟨hlt, hget⟩ := List.getElem?_eq_some_iff.mp hexecution
      rw [← hget]
      exact List.getElem_cons_eraseIdx_perm hlt
    have hworkers := hperm.map TaskToExecute.worker
    have hplaces := h.places
    simp only [WorkerPool.places] at hplaces
    rw [List.perm_iff_count] at hplaces hworkers ⊢
    intro w
    have hw := hworkers w
    have hp := hplaces w
    simp only [WorkerPool.places, WorkerPool.closeExecution, List.map_cons, List.count_append,
      List.count_cons] at hw hp ⊢
    omega
  claims := h.claims
  starts := h.starts
  executions := (List.eraseIdx_sublist _ _).subperm.trans h.executions

/-- A new pool has all its workers idle. -/
theorem conserves_new {scheduler : PollScheduler} (h : PollInv jobCodes ⟨scheduler, [], 0⟩) :
    Conserves jobCodes workers (.new scheduler workers) where
  polls := h
  places := by simp [WorkerPool.places, new]
  claims := .refl _
  starts := .refl _
  executions := .refl _

end WorkerPool

/-! ## Every run of the pool -/

/-- What holds of a pool in every run: it conserves what passes through it until it has
stopped, nothing is dropped before, and what it waits for is true of it. -/
structure PoolInv (jobCodes : List JobCode) (workers : List Uuid) (s : PoolRun) : Prop where
  conserves : s.phase ≠ .stopped → s.pool.Conserves jobCodes workers ∧ s.pool.ledger.dropped = []
  stopped : s.phase = .stopped → s.pool.taskStarts = [] ∧ s.pool.tasksToExecute = [] ∧
    s.pool.executions = [] ∧ s.pool.ledger.handedOut.Perm s.pool.ledger.released ∧
    s.pool.ledger.written.Perm (s.pool.ledger.dropped ++ s.pool.ledger.launched)
  waiting : ∀ wait, s.phase = .waiting wait → s.pool.tasksToExecute = [] ∧
    (wait = .forPoolEvent → s.pool.idleWorkers = [] ∨ s.pool.NothingQueued)

section Runs

variable {jobCodes : List JobCode} {config : PollSchedulerConfig} {start : Nat}
  {workers : List Uuid} {s s' : PoolRun} {event : PoolEvent}

/-- A phase a spawned task is closed in, or is closed into, is not the last one and waits for
nothing. -/
theorem PoolPhase.afterJoin_eq_some {phase phase' : PoolPhase} (h : phase.afterJoin = some phase') :
    phase ≠ .stopped ∧ phase' ≠ .stopped ∧ ∀ wait, phase' ≠ .waiting wait := by
  cases phase with
  | looping => cases h
  | stopped => cases h
  | waiting wait =>
      cases h
      simp
  | stopping =>
      cases h
      simp

theorem PoolInv.of_conserves (hphase : s.phase ≠ .stopped)
    (h : s.pool.Conserves jobCodes workers) (hdropped : s.pool.ledger.dropped = [])
    (hwaiting : ∀ wait, s.phase ≠ .waiting wait) : PoolInv jobCodes workers s where
  conserves _ := ⟨h, hdropped⟩
  stopped hstopped := absurd hstopped hphase
  waiting wait hwait := absurd hwait (hwaiting wait)

/-- Every event of a pool keeps its invariant. -/
theorem PoolInv.step (hinv : PoolInv jobCodes workers s) (h : s.step event = some s') :
    PoolInv jobCodes workers s' := by
  cases event with
  | cancel =>
      cases h
      exact ⟨hinv.conserves, hinv.stopped, hinv.waiting⟩
  | look nows =>
      simp only [PoolRun.step] at h
      split at h <;> rename_i hlooping
      · rw [Option.map_eq_some_iff] at h
        obtain ⟨⟨wait, pool⟩, hspawn, rfl⟩ := h
        obtain ⟨hconserves, hdropped⟩ := hinv.conserves (by simp [hlooping.1])
        obtain ⟨hspawned, htasks, hledger, hwait⟩ :=
          WorkerPool.spawnTaskStarts_spec hconserves.startExecutions hspawn
        refine ⟨fun _ => ⟨hspawned, hledger.trans hdropped⟩, by simp, ?_⟩
        intro wait' hphase
        cases hphase
        exact ⟨htasks, hwait⟩
      · cases h
  | taskStartEnds index ended utc r =>
      simp only [PoolRun.step] at h
      split at h
      · rename_i phase start hphase hstart
        cases h
        obtain ⟨hlive, hlive', hwaits⟩ := PoolPhase.afterJoin_eq_some hphase
        obtain ⟨hconserves, hdropped⟩ := hinv.conserves hlive
        obtain ⟨hclosed, -, -, hledger⟩ := hconserves.closeTaskStart hstart
        exact .of_conserves hlive' hclosed (hledger.trans hdropped) hwaits
      · cases h
  | executionEnds index ended r =>
      simp only [PoolRun.step] at h
      split at h
      · rename_i phase execution hphase hexecution
        cases h
        obtain ⟨hlive, hlive', hwaits⟩ := PoolPhase.afterJoin_eq_some hphase
        obtain ⟨hconserves, hdropped⟩ := hinv.conserves hlive
        exact .of_conserves hlive' (hconserves.closeExecution hexecution) hdropped hwaits
      · cases h
  | wake =>
      simp only [PoolRun.step] at h
      split at h <;> rename_i hwakes
      · cases h
        have hlive : s.phase ≠ .stopped := by
          intro hstopped
          rw [hstopped] at hwakes
          cases hwakes
        obtain ⟨hconserves, hdropped⟩ := hinv.conserves hlive
        exact .of_conserves (by simp) hconserves hdropped (by simp)
      · cases h
  | stop =>
      simp only [PoolRun.step] at h
      split at h <;> rename_i hlooping
      · cases h
        obtain ⟨hconserves, hdropped⟩ := hinv.conserves (by simp [hlooping.1])
        exact .of_conserves (by simp) hconserves hdropped (by simp)
      · cases h
  | finish =>
      simp only [PoolRun.step] at h
      split at h <;> rename_i hstopping
      · cases h
        obtain ⟨hphase, hstarts, hexecutions⟩ := hstopping
        obtain ⟨hconserves, -⟩ := hinv.conserves (by simp [hphase])
        refine ⟨by simp, fun _ => ⟨hstarts, rfl, List.isEmpty_iff.mp hexecutions, ?_,
          hconserves.starts⟩, by simp⟩
        simpa [WorkerPool.claims, hstarts] using hconserves.claims
      · cases h

/-- So it holds in every run. -/
theorem reachable_poolInv
    (h : Reachable PoolRun.step (.initial (.new jobCodes config start) workers) s) :
    PoolInv jobCodes workers s := by
  refine h.invariant ?_ fun _ _ _ hinv _ hs => hinv.step hs
  have hpolls : PollInv jobCodes ⟨.new jobCodes config start, [], 0⟩ :=
    (pollInv_initial jobCodes config start).congr rfl (.refl _)
  exact .of_conserves (by simp [PoolRun.initial]) (WorkerPool.conserves_new hpolls) rfl
    (by simp [PoolRun.initial])

/-- In every run of a pool, until it has stopped: the workers in its four places are exactly
the workers it was given; the claimed jobs are exactly those of the task starts in flight, one
each; and nothing it was handed back has been dropped.  Every claim handed out is held by one
task start in flight or was given back, once, as its task start ended.  Every written start
handed back waits to be executed by the worker that wrote it, was launched on that worker, or
was dropped by the shutdown; what is executed was launched, each launch once at most; all of
them are launched whenever the pool waits, and a look that launches them is never stuck.  The
pool waits for a pool event only when no worker is idle or no job is queued. -/
theorem worker_pool_conserves
    (h : Reachable PoolRun.step (.initial (.new jobCodes config start) workers) s) :
    (s.phase ≠ .stopped →
      s.pool.places.Perm workers ∧ (workers.Nodup → s.pool.places.Nodup) ∧
      s.pool.claims.Nodup ∧
      (∀ claim, claim ∈ s.pool.claims ↔
        ∃ due, s.pool.scheduler.slot claim.jobCode = some (.claimed due)) ∧
      s.pool.ledger.dropped = []) ∧
    s.pool.ledger.handedOut.Perm (s.pool.claims ++ s.pool.ledger.released) ∧
    (∀ index ended utc r s', s.step (.taskStartEnds index ended utc r) = some s' →
      ∃ running, s.pool.taskStarts[index]? = some running ∧
        s'.pool.taskStarts = s.pool.taskStarts.eraseIdx index ∧
        s'.pool.ledger.released = running.claim :: s.pool.ledger.released) ∧
    s.pool.ledger.written.Perm
      (s.pool.tasksToExecute ++ s.pool.ledger.dropped ++ s.pool.ledger.launched) ∧
    s.pool.executions.Subperm s.pool.ledger.launched ∧
    (∀ wait, s.phase = .waiting wait → s.pool.ledger.launched.Perm s.pool.ledger.written) ∧
    (s.phase = .looping → s.isCancelled = false → ∀ nows : List Nat,
      s.pool.idleWorkers.length ≤ nows.length → ∃ s', s.step (.look nows) = some s') ∧
    (s.phase = .waiting .forPoolEvent → s.pool.idleWorkers = [] ∨ s.pool.NothingQueued) := by
  have hinv := reachable_poolInv h
  refine ⟨?_, ?_, ?_, ?_, ?_, ?_, ?_, ?_⟩
  · intro hlive
    obtain ⟨hconserves, hdropped⟩ := hinv.conserves hlive
    exact ⟨hconserves.places, hconserves.places.nodup_iff.mpr, hconserves.polls.claims_nodup,
      hconserves.polls.claimed, hdropped⟩
  · by_cases hstopped : s.phase = .stopped
    · obtain ⟨hstarts, -, -, hclaims, -⟩ := hinv.stopped hstopped
      simpa [WorkerPool.claims, hstarts] using hclaims
    · exact (hinv.conserves hstopped).1.claims
  · intro index ended utc r s' hstep
    simp only [PoolRun.step] at hstep
    split at hstep
    · rename_i phase running hphase hrunning
      cases hstep
      have hlive := (PoolPhase.afterJoin_eq_some hphase).1
      obtain ⟨-, hstarts, hreleased, -⟩ := (hinv.conserves hlive).1.closeTaskStart hrunning
      exact ⟨running, hrunning, hstarts, hreleased⟩
    · cases hstep
  · by_cases hstopped : s.phase = .stopped
    · obtain ⟨-, htasks, -, -, hwritten⟩ := hinv.stopped hstopped
      rw [htasks, List.nil_append]
      exact hwritten
    · obtain ⟨hconserves, hdropped⟩ := hinv.conserves hstopped
      rw [hdropped, List.append_nil]
      exact hconserves.starts
  · by_cases hstopped : s.phase = .stopped
    · rw [(hinv.stopped hstopped).2.2.1]
      exact List.nil_subperm
    · exact (hinv.conserves hstopped).1.executions
  · intro wait hwaiting
    have hstarts := (hinv.conserves (by simp [hwaiting])).1.starts
    rw [(hinv.waiting wait hwaiting).1, List.nil_append] at hstarts
    exact hstarts.symm
  · intro hlooping hcancelled nows hlen
    have hconserves := (hinv.conserves (by simp [hlooping])).1.startExecutions
    obtain ⟨⟨wait, pool⟩, hspawn⟩ := Option.isSome_iff_exists.mp
      (WorkerPool.spawnTaskStarts_isSome nows hconserves hlen)
    exact ⟨{ s with pool := pool, phase := .waiting wait }, by
      simp [PoolRun.step, hlooping, hcancelled, hspawn]⟩
  · intro hwaiting
    exact (hinv.waiting _ hwaiting).2 rfl

end Runs

/-- A started task of an iteration that holds no other. -/
def soleStartedTask : StartedTask where
  job :=
    { id := 1, code := "a", iterNum := 1, status := .running, tasksById := .empty
      updatedByWorkerId := 102, startedAt := 0, runningAt := some 0, completedAt := none
      nextStartAt := none, metadata := [], version := "v1", maxIterations := none
      iterationInterval := none, taskLimits := .default }
  taskId := 2

/-- Two workers and one job: one worker starts a task, both are busy once it executes that
task and the other takes the job up, and the execution ends by a panic. -/
def panickingPool : List PoolEvent :=
  [.look [0, 0], .taskStartEnds 0 (some (.started soleStartedTask true)) 5 ⟨5, 5, 0⟩,
    .look [6, 6], .executionEnds 0 none ⟨7, 7, 0⟩, .look [8, 8]]

theorem panickingPool_conserves :
    ∃ s, runActions PoolRun.step (.initial (.new ["a"] .new 0) [101, 102]) panickingPool = some s ∧
      s.phase = .waiting .forPoolEvent ∧ s.pool.ledger.launched.length = 1 ∧
      s.pool.places.Perm [101, 102] ∧ s.pool.ledger.launched.Perm s.pool.ledger.written ∧
      (s.pool.idleWorkers = [] ∨ s.pool.NothingQueued) := by
  have hrun : (runActions PoolRun.step (.initial (.new ["a"] .new 0) [101, 102])
      panickingPool).any (fun s => s.phase = .waiting .forPoolEvent &&
        s.pool.ledger.launched.length = 1) = true := by
    decide +kernel
  obtain ⟨s, hs, hrun⟩ := (Option.any_eq_true _ _).mp hrun
  simp only [Bool.and_eq_true, decide_eq_true_eq] at hrun
  obtain ⟨hlive, -, -, -, -, hlaunched, -, hwaits⟩ :=
    worker_pool_conserves (reachable_of_runActions .init hs)
  exact ⟨s, hs, hrun.1, hrun.2, (hlive (by simp [hrun.1])).1, hlaunched _ hrun.1, hwaits hrun.1⟩

end JobManager
