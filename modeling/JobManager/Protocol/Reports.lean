import JobManager.Execution.Waiting
import JobManager.Protocol.Linear
import Mathlib.Order.Bounds.Basic

/-!
# What the workers report

A worker reports what its own acknowledged writes did: the start of an iteration to the
cleaner, and the end of one to the measurements and to whoever waits for it.  An iteration it
finds closed it reports to whoever waits, too.  A reply that is lost takes its report along, and
a report to the cleaner is dropped where nobody takes it.

Any number of pools work on one store; of one of them it is told who waits for an iteration,
until it stops.

Main results:

- Theorem {lit}`WatchedPool.reachable_holds`: what the log of reports and the waits of the pool
  have to do with the history of the store.
- Theorem {lit}`iteration_measured_once`: every closed iteration is measured once, by the
  worker whose write closed it, or not at all where the reply to that write was lost.
- Theorem {lit}`iteration_start_reported_once`: every later iteration is reported to a cleaner
  once, by the worker whose write planned it, or not at all where the reply to that write was
  lost or nobody took the report.
- Theorem {lit}`waits_answered`: a wait is answered with an iteration that is stored closed,
  misses none, and does not outlast the pool.
- Theorem {lit}`job_completion_waited`: the wait for a job ends at the last iteration of its
  budget.
-/

namespace JobManager

variable {κ : Clocks}

/-! ## Reports -/

/-- What a worker reports to the cleaner, to the measurements and to whoever waits. -/
inductive Report where
  | started (jobCode : String) (iterNum : Nat)
  | measured (jobCode : String) (iterNum : Nat) (verdict : IterationVerdict) (duration : Nat)
  | finished (jobCode : String) (iterNum : Nat)
deriving DecidableEq

namespace Report

def startedNum : Report → Option Nat
  | .started _ iterNum => some iterNum
  | _ => none

def measuredNum : Report → Option Nat
  | .measured _ iterNum _ _ => some iterNum
  | _ => none

def finishedIteration : Report → Option (String × Nat)
  | .finished jobCode iterNum => some (jobCode, iterNum)
  | _ => none

end Report

/-- How long an iteration took. -/
def Job.iterationDuration (job : Job) : Nat :=
  match job.completedAt with
  | none => 0
  | some completed => completed - job.startedAt

/-- The reports about an iteration the domain closed, the latest first. -/
def jobIterationSettled (job : Job) : List Report :=
  match job.iterationVerdict with
  | none => []
  | some verdict =>
      [.finished job.code job.iterNum,
        .measured job.code job.iterNum verdict job.iterationDuration]

/-- An iteration that is found closed is reported before anything is done about it. -/
def pickupReports : Phase → List Report
  | .loaded job => if job.isProcessed then [.finished job.code job.iterNum] else []
  | _ => []

/-- The reports about a write that was acknowledged. -/
def saveReports (job : Job) : Purpose → List Report
  | .create => []
  | .nextIteration _ => [.started job.code job.iterNum]
  | .start _ => []
  | .result _ => jobIterationSettled job
  | .settle => jobIterationSettled job

/-- What a worker has to report started iterations to: nothing where its pool runs no cleaner,
or a channel that has room, is full, or has lost the cleaner it led to. -/
inductive IterationNotifier where
  | none
  | ready
  | full
  | closed
deriving DecidableEq

/-- Whether a report gets through: a started iteration is never waited for to be taken, and
nothing stands in the way of the others. -/
def IterationNotifier.takes (notifier : IterationNotifier) : Report → Bool
  | .started _ _ => notifier = .ready
  | .measured _ _ _ _ => true
  | .finished _ _ => true

/-- A report of a worker, and whether it was made rather than lost with a reply or dropped. -/
structure LoggedReport where
  worker : Uuid
  report : Report
  isMade : Bool
deriving DecidableEq

/-- The reports of one worker. -/
def logReports (w : Uuid) (isMade : Report → Bool) (reports : List Report) : List LoggedReport :=
  reports.map fun report => ⟨w, report, isMade report⟩

/-- The reports an action of the system leads to. -/
def reportsOf (notifier : IterationNotifier) (s s' : System) : Action → List LoggedReport
  | .tick _ => []
  | .move w _ => logReports w (fun _ => true) (pickupReports (s'.workers w).phase)
  | .put w _ delivered =>
      match (s.workers w).phase with
      | .saving job purpose =>
          logReports w (fun report => delivered && notifier.takes report) (saveReports job purpose)
      | _ => []

/-- Who acts. -/
def Action.worker? : Action → Option Uuid
  | .tick _ => none
  | .move w _ => some w
  | .put w _ _ => some w

/-! ## One pool among others -/

variable {ι : Type}

/-- The workers on one store, what they reported so far, the latest first, and who waits in
one of their pools. -/
structure WatchedPool (ι : Type) where
  system : System
  log : List LoggedReport
  isRunning : Bool
  handle : JobsManagerHandle ι

/-- The system acts, the worker's notifier being as it is, somebody begins to wait or goes on
waiting, or the pool stops. -/
inductive WatchedAction (ι : Type) where
  | act (action : Action) (notifier : IterationNotifier)
  | wait (i : ι) (jobCode : String)
  | attend (i : ι) (jobCode : String)
  | stop

/-- Whether a report reaches whoever waits in the pool. -/
def LoggedReport.isHeard (isMember : Uuid → Bool) (logged : LoggedReport) : Bool :=
  isMember logged.worker && logged.isMade

/-- Let a report reach whoever waits in the pool. -/
def LoggedReport.recordIn (isMember : Uuid → Bool) (logged : LoggedReport)
    (finished : FinishedIterations ι) : FinishedIterations ι :=
  if logged.isHeard isMember then
    match logged.report.finishedIteration with
    | some (jobCode, iterNum) => finished.recordFinishedIteration jobCode iterNum
    | none => finished
  else finished

namespace WatchedPool

/-- Before anything happened. -/
def init (registry : JobRegistry) : WatchedPool ι where
  system := .init
  log := []
  isRunning := true
  handle := ⟨registry, .new registry.listJobs⟩

/-- The watches of the pool become the given ones. -/
def setFinished (r : WatchedPool ι) (finished : FinishedIterations ι) : WatchedPool ι :=
  { r with handle := { r.handle with finishedIterations := finished } }

/-- The system goes on, and what was reported reaches whoever waits. -/
def follow (isMember : Uuid → Bool) (r : WatchedPool ι) (s' : System) (made : List LoggedReport) :
    WatchedPool ι :=
  { r with system := s', log := made ++ r.log }.setFinished
    (made.foldr (LoggedReport.recordIn isMember) r.handle.finishedIterations)

variable [DecidableEq ι] (κ : Clocks) (jobDef : JobDefinition) (isMember : Uuid → Bool)
  (isAwaited : ι → Nat → Bool)

/-- One action of the run.  No worker of the pool outlasts it. -/
def step (r : WatchedPool ι) : WatchedAction ι → Option (WatchedPool ι)
  | .act a notifier =>
      if r.isRunning || !a.worker?.any isMember then
        match JobManager.step κ jobDef r.system a with
        | none => none
        | some s' => some (r.follow isMember s' (reportsOf notifier r.system s' a))
      else none
  | .wait i jobCode =>
      match r.handle.waitForMatchingIteration i jobCode with
      | .error _ => none
      | .ok handle => some { r with handle := handle }
  | .attend i jobCode =>
      (r.handle.finishedIterations jobCode).map fun w =>
        r.setFinished (Function.update r.handle.finishedIterations jobCode
          (some (w.attend (fun i => awaitsIteration (isAwaited i)) i)))
  | .stop =>
      some ({ r with isRunning := false }.setFinished r.handle.finishedIterations.stop)

end WatchedPool

/-! ## What the log has to do with the history -/

/-- The numbers a kind of report was made of, made or lost. -/
def numbersReported (num : Report → Option Nat) (log : List LoggedReport) : List Nat :=
  log.filterMap fun logged => num logged.report

/-- The iterations whoever waits in the pool was told of. -/
def finishedHeard (isMember : Uuid → Bool) (log : List LoggedReport) : List (String × Nat) :=
  (log.filter (LoggedReport.isHeard isMember)).filterMap fun logged =>
    logged.report.finishedIteration

/-- Whether a write planned a further iteration. -/
def Purpose.isNextIteration : Purpose → Bool
  | .nextIteration _ => true
  | _ => false

/-- What a report says is so. -/
def ReportHolds (jobDef : JobDefinition) (h : History) (logged : LoggedReport) : Prop :=
  match logged.report with
  | .started jobCode iterNum =>
      ∃ e ∈ h, e.writer = logged.worker ∧ e.iterNum = iterNum ∧ e.state.code = jobCode ∧
        e.purpose.isNextIteration = true
  | .measured jobCode iterNum verdict duration =>
      ∃ e ∈ h, e.writer = logged.worker ∧ e.iterNum = iterNum ∧ e.state.code = jobCode ∧
        (e.load jobDef).iterationVerdict = some verdict ∧
        (e.load jobDef).iterationDuration = duration
  | .finished jobCode iterNum =>
      ∃ e ∈ h, e.iterNum = iterNum ∧ e.state.code = jobCode ∧ e.isClosed = true

/-- What holds of the log and of the waits of the pool. -/
structure WatchedPool.Holds (jobDef : JobDefinition) (isMember : Uuid → Bool)
    (isAwaited : ι → Nat → Bool) (r : WatchedPool ι) : Prop where
  truthful : ∀ logged ∈ r.log, ReportHolds jobDef r.system.history logged
  measuredOnce : (numbersReported Report.measuredNum r.log).Nodup
  measured : ∀ n, n ∈ numbersReported Report.measuredNum r.log ↔
    ∃ e ∈ r.system.history, e.iterNum = n ∧ e.isClosed = true
  startedOnce : (numbersReported Report.startedNum r.log).Nodup
  started : ∀ n, n ∈ numbersReported Report.startedNum r.log ↔
    ∃ e ∈ r.system.history, e.iterNum = n ∧ e.purpose.isNextIteration = true
  paired : ∀ w jobCode n verdict duration isMade,
    ⟨w, .measured jobCode n verdict duration, isMade⟩ ∈ r.log →
      ⟨w, .finished jobCode n, isMade⟩ ∈ r.log
  records : FinishedIterations.Records (fun i => awaitsIteration (isAwaited i)) r.isRunning
    (finishedHeard isMember r.log) r.handle.finishedIterations

/-! ## Every action keeps that -/

section Log

/-- Where no version of an iteration met a condition before, one number is added to those whose
iteration has one that does. -/
theorem once_cons {Q : Entry → Bool} {h : History} {numbers : List Nat} (e₀ : Entry)
    (honce : numbers.Nodup)
    (hnumbers : ∀ n, n ∈ numbers ↔ ∃ e ∈ h, e.iterNum = n ∧ Q e = true)
    (hnew : Q e₀ = true → ∀ e ∈ h, e.iterNum = e₀.iterNum → Q e = false) :
    ((if Q e₀ then [e₀.iterNum] else []) ++ numbers).Nodup ∧
      ∀ n, n ∈ (if Q e₀ then [e₀.iterNum] else []) ++ numbers ↔
        ∃ e ∈ e₀ :: h, e.iterNum = n ∧ Q e = true := by
  by_cases hQ : Q e₀ = true
  · rw [if_pos hQ]
    refine ⟨List.nodup_cons.mpr ⟨?_, honce⟩, ?_⟩
    · intro hmem
      obtain ⟨e, he, hiter, hholds⟩ := (hnumbers _).mp hmem
      rw [hnew hQ e he hiter] at hholds
      cases hholds
    · intro n
      simp only [List.singleton_append, List.mem_cons, exists_eq_or_imp, hnumbers, hQ, and_true]
      exact or_congr_left eq_comm
  · rw [if_neg hQ]
    refine ⟨honce, ?_⟩
    intro n
    simp only [List.nil_append, List.mem_cons, exists_eq_or_imp, hnumbers, hQ]
    simp

/-- A report that holds goes on to hold. -/
theorem ReportHolds.mono {jobDef : JobDefinition} {h h' : History} {logged : LoggedReport}
    (hsub : ∀ e ∈ h, e ∈ h') (hholds : ReportHolds jobDef h logged) :
    ReportHolds jobDef h' logged := by
  unfold ReportHolds at hholds ⊢
  cases hreport : logged.report with
  | started jobCode iterNum =>
      rw [hreport] at hholds
      obtain ⟨e, he, hrest⟩ := hholds
      exact ⟨e, hsub e he, hrest⟩
  | measured jobCode iterNum verdict duration =>
      rw [hreport] at hholds
      obtain ⟨e, he, hrest⟩ := hholds
      exact ⟨e, hsub e he, hrest⟩
  | finished jobCode iterNum =>
      rw [hreport] at hholds
      obtain ⟨e, he, hrest⟩ := hholds
      exact ⟨e, hsub e he, hrest⟩

/-- Reports reach whoever waits while the pool runs. -/
theorem records_recordAll {awaits : ι → Option Nat → Bool} {isMember : Uuid → Bool}
    {isRunning : Bool} {log : List LoggedReport} {finished : FinishedIterations ι}
    (h : FinishedIterations.Records awaits isRunning (finishedHeard isMember log) finished) :
    ∀ made : List LoggedReport,
      (∀ logged ∈ made, isMember logged.worker = true → isRunning = true) →
      FinishedIterations.Records awaits isRunning (finishedHeard isMember (made ++ log))
        (made.foldr (LoggedReport.recordIn isMember) finished)
  | [], _ => h
  | logged :: made, hmade => by
      have ih := records_recordAll h made fun l hl => hmade l (List.mem_cons_of_mem _ hl)
      rw [List.foldr_cons, LoggedReport.recordIn]
      by_cases hheard : logged.isHeard isMember = true
      · have hmember : isMember logged.worker = true := (Bool.and_eq_true_iff.mp hheard).1
        obtain rfl := hmade logged List.mem_cons_self hmember
        rw [if_pos hheard]
        cases hreport : logged.report.finishedIteration with
        | none => simpa [finishedHeard, hheard, hreport] using ih
        | some iteration =>
            have hrecord := ih.record iteration.1 iteration.2
            simpa [finishedHeard, hheard, hreport] using hrecord
      · rw [if_neg hheard]
        simpa [finishedHeard, hheard] using ih

end Log

section Saves

variable {jobDef : JobDefinition} {g : Pedigree} {s : System} {w : Uuid} {job : Job}
  {purpose : Purpose} {isMade : Report → Bool}

theorem numbersReported_append (num : Report → Option Nat) (made log : List LoggedReport) :
    numbersReported num (made ++ log) = numbersReported num made ++ numbersReported num log :=
  List.filterMap_append

theorem numbersReported_logReports (num : Report → Option Nat) (reports : List Report) :
    numbersReported num (logReports w isMade reports) = reports.filterMap num := by
  rw [numbersReported, logReports, List.filterMap_map]
  rfl

/-- A write is measured where it closed its iteration. -/
theorem measured_saveReports (version : String) (hbasis : SavingBasis κ jobDef s w job purpose) :
    (saveReports job purpose).filterMap Report.measuredNum =
      if (Entry.ofJob job version w purpose s.clock).isClosed then [job.iterNum] else [] := by
  rw [isClosed_ofJob]
  have hsettled : (jobIterationSettled job).filterMap Report.measuredNum =
      if job.isProcessed then [job.iterNum] else [] := by
    rw [jobIterationSettled, Job.isProcessed]
    cases job.iterationVerdict <;> rfl
  cases purpose with
  | create =>
      rw [hbasis.2.1]
      rfl
  | nextIteration readyAt =>
      rw [hbasis.2.1]
      rfl
  | start taskId =>
      rw [isProcessed_of_running hbasis.2.1]
      rfl
  | result taskId => exact hsettled
  | settle => exact hsettled

/-- A write is reported to the cleaner where it planned a further iteration. -/
theorem started_saveReports :
    (saveReports job purpose).filterMap Report.startedNum =
      if purpose.isNextIteration then [job.iterNum] else [] := by
  have hsettled : (jobIterationSettled job).filterMap Report.startedNum = [] := by
    rw [jobIterationSettled]
    cases job.iterationVerdict <;> rfl
  cases purpose with
  | create => rfl
  | nextIteration readyAt => rfl
  | start taskId => rfl
  | result taskId => exact hsettled
  | settle => exact hsettled

/-- Whoever waits is told of what is measured. -/
theorem paired_saveReports {jobCode : String} {n duration : Nat} {verdict : IterationVerdict}
    (h : .measured jobCode n verdict duration ∈ saveReports job purpose) :
    .finished jobCode n ∈ saveReports job purpose := by
  have hsettled : .measured jobCode n verdict duration ∈ jobIterationSettled job →
      .finished jobCode n ∈ jobIterationSettled job := by
    intro hmem
    rw [jobIterationSettled] at hmem ⊢
    cases hverdict : job.iterationVerdict with
    | none =>
        rw [hverdict] at hmem
        cases hmem
    | some verdict' =>
        rw [hverdict] at hmem
        simp only [List.mem_cons, reduceCtorEq, Report.measured.injEq, List.not_mem_nil, or_false,
          false_or] at hmem
        obtain ⟨rfl, rfl, -, -⟩ := hmem
        exact List.mem_cons_self
  cases purpose with
  | create => cases h
  | nextIteration readyAt => cases List.mem_singleton.mp h
  | start taskId => cases h
  | result taskId => exact hsettled h
  | settle => exact hsettled h

/-- What a write reports is what it stored. -/
theorem reportHolds_saved (version : String) {h : History}
    (hmem : Entry.ofJob job version w purpose s.clock ∈ h) :
    ∀ logged ∈ logReports w isMade (saveReports job purpose), ReportHolds jobDef h logged := by
  have hsettled : ∀ report ∈ jobIterationSettled job,
      ReportHolds jobDef h ⟨w, report, isMade report⟩ := by
    intro report hreport
    rw [jobIterationSettled] at hreport
    cases hverdict : job.iterationVerdict with
    | none =>
        rw [hverdict] at hreport
        cases hreport
    | some verdict =>
        rw [hverdict] at hreport
        have hclosed : (Entry.ofJob job version w purpose s.clock).isClosed = true := by
          rw [isClosed_ofJob, Job.isProcessed, hverdict]
          rfl
        rcases List.mem_cons.mp hreport with rfl | hreport
        · exact ⟨_, hmem, rfl, rfl, hclosed⟩
        · obtain rfl := List.mem_singleton.mp hreport
          exact ⟨_, hmem, rfl, rfl, rfl, hverdict, rfl⟩
  intro logged hlogged
  obtain ⟨report, hreport, rfl⟩ := List.mem_map.mp hlogged
  cases purpose with
  | create => cases hreport
  | nextIteration readyAt =>
      obtain rfl := List.mem_singleton.mp hreport
      exact ⟨_, hmem, rfl, rfl, rfl, rfl⟩
  | start taskId => cases hreport
  | result taskId => exact hsettled report hreport
  | settle => exact hsettled report hreport

/-- A write that closes its iteration is the first that does. -/
theorem closes_first (hinv : Inv κ jobDef g s) (hlinear : Linear κ jobDef s.history)
    (hbasis : SavingBasis κ jobDef s w job purpose) (haccepts : s.history.accepts job = true) :
    ∀ e ∈ s.history, e.iterNum = job.iterNum → e.isClosed = false := by
  intro e he hiter
  by_contra hclosed
  have hcurrent := hlinear.current_of_closed he (by simpa using hclosed)
  rw [hiter] at hcurrent
  exact hclosed (replaces_base hinv hbasis haccepts hcurrent).isOpen

/-- A write that plans a further iteration is the first of it. -/
theorem plans_first (hbasis : SavingBasis κ jobDef s w job purpose)
    (haccepts : s.history.accepts job = true) (hnext : purpose.isNextIteration = true) :
    ∀ e ∈ s.history, e.iterNum ≠ job.iterNum := by
  intro e he hiter
  obtain ⟨c, hc⟩ := current_of_mem he
  rw [hiter] at hc
  refine (accepts_current haccepts hc).1 (hbasis.version_of_isCreation ?_)
  cases purpose with
  | nextIteration readyAt => rfl
  | _ => cases hnext

end Saves

/-- Iterations are numbered from one. -/
theorem Linear.positive {jobDef : JobDefinition} {h : History} (hlinear : Linear κ jobDef h) :
    ∀ e ∈ h, 1 ≤ e.iterNum := by
  induction hlinear with
  | empty => simp
  | first hempty hone _ =>
      subst hempty
      intro e he
      rw [List.mem_singleton.mp he, hone]
  | next _ _ _ hnext _ _ ih =>
      intro e he
      rcases List.mem_cons.mp he with rfl | he
      · rw [hnext]
        exact Nat.le_add_left 1 _
      · exact ih e he
  | rewrite _ hcurrent _ _ ih =>
      intro e he
      rcases List.mem_cons.mp he with rfl | he
      · rw [← (current_mem hcurrent).2]
        exact ih _ (current_mem hcurrent).1
      · exact ih e he

namespace WatchedPool.Holds

variable {jobDef : JobDefinition} {isMember : Uuid → Bool} {isAwaited : ι → Nat → Bool}
  {r : WatchedPool ι} {g : Pedigree} {w : Uuid}

theorem init (jobDef : JobDefinition) (isMember : Uuid → Bool) (isAwaited : ι → Nat → Bool)
    (registry : JobRegistry) : Holds jobDef isMember isAwaited (.init registry) where
  truthful := by simp [WatchedPool.init]
  measuredOnce := List.nodup_nil
  measured := by simp [WatchedPool.init, numbersReported, System.init]
  startedOnce := List.nodup_nil
  started := by simp [WatchedPool.init, numbersReported, System.init]
  paired := by simp [WatchedPool.init]
  records := .new _ _

/-- A worker that moves reports at most an iteration it found closed. -/
theorem moves (h : Holds jobDef isMember isAwaited r) {s' : System}
    (hhistory : s'.history = r.system.history)
    (hok : PhaseOk κ jobDef g s' w (s'.workers w).phase)
    (hrunning : isMember w = true → r.isRunning = true) :
    Holds jobDef isMember isAwaited
      (r.follow isMember s'
        (logReports w (fun _ => true) (pickupReports (s'.workers w).phase))) := by
  have hnone : ∀ num : Report → Option Nat, (∀ jobCode n, num (.finished jobCode n) = none) →
      (pickupReports (s'.workers w).phase).filterMap num = [] := by
    intro num hnum
    cases (s'.workers w).phase with
    | loaded job =>
        rw [pickupReports]
        split
        · simp [hnum]
        · rfl
    | _ => rfl
  have hfound : ∀ report ∈ pickupReports (s'.workers w).phase,
      ReportHolds jobDef s'.history ⟨w, report, true⟩ := by
    intro report hreport
    cases hphase : (s'.workers w).phase with
    | loaded job =>
        rw [hphase] at hreport hok
        obtain ⟨-, e, he, hloaded⟩ := hok
        rw [pickupReports] at hreport
        split at hreport <;> rename_i hprocessed
        · obtain rfl := List.mem_singleton.mp hreport
          exact ⟨e, he, hloaded.iter, hloaded.code, hloaded.isClosed.symm.trans hprocessed⟩
        · cases hreport
    | _ =>
        rw [hphase] at hreport
        cases hreport
  refine ⟨?_, ?_, ?_, ?_, ?_, ?_, ?_⟩
  · intro logged hlogged
    rcases List.mem_append.mp hlogged with hmade | hold
    · obtain ⟨report, hreport, rfl⟩ := List.mem_map.mp hmade
      exact hfound report hreport
    · exact (h.truthful logged hold).mono fun e he => hhistory ▸ he
  · change (numbersReported _ (_ ++ r.log)).Nodup
    rw [numbersReported_append, numbersReported_logReports, hnone _ fun _ _ => rfl]
    exact h.measuredOnce
  · intro n
    change n ∈ numbersReported _ (_ ++ r.log) ↔ ∃ e ∈ s'.history, _
    rw [numbersReported_append, numbersReported_logReports, hnone _ fun _ _ => rfl, hhistory]
    exact h.measured n
  · change (numbersReported _ (_ ++ r.log)).Nodup
    rw [numbersReported_append, numbersReported_logReports, hnone _ fun _ _ => rfl]
    exact h.startedOnce
  · intro n
    change n ∈ numbersReported _ (_ ++ r.log) ↔ ∃ e ∈ s'.history, _
    rw [numbersReported_append, numbersReported_logReports, hnone _ fun _ _ => rfl, hhistory]
    exact h.started n
  · intro w' jobCode n verdict duration isMade hlogged
    rcases List.mem_append.mp hlogged with hmade | hold
    · exfalso
      obtain ⟨report, hreport, heq⟩ := List.mem_map.mp hmade
      cases heq
      have hmem := List.mem_filterMap.mpr ⟨_, hreport, (rfl : Report.measuredNum _ = some n)⟩
      rw [hnone _ fun _ _ => rfl] at hmem
      cases hmem
    · exact List.mem_append_right _ (h.paired w' jobCode n verdict duration isMade hold)
  · refine records_recordAll h.records _ ?_
    intro logged hlogged hmember
    obtain ⟨report, -, rfl⟩ := List.mem_map.mp hlogged
    exact hrunning hmember

/-- A write reports what it stored. -/
theorem put (h : Holds jobDef isMember isAwaited r) (hinv : Inv κ jobDef g r.system)
    (hlinear : Linear κ jobDef r.system.history) {job : Job} {purpose : Purpose}
    {version : String} {isMade : Report → Bool} {s' : System}
    (hsame : ∀ jobCode n verdict duration,
      isMade (.measured jobCode n verdict duration) = isMade (.finished jobCode n))
    (hbasis : SavingBasis κ jobDef r.system w job purpose)
    (haccepts : r.system.history.accepts job = true)
    (hhistory : s'.history = .ofJob job version w purpose r.system.clock :: r.system.history)
    (hrunning : isMember w = true → r.isRunning = true) :
    Holds jobDef isMember isAwaited
      (r.follow isMember s' (logReports w isMade (saveReports job purpose))) := by
  have hmeasured := once_cons (Q := Entry.isClosed)
    (.ofJob job version w purpose r.system.clock) h.measuredOnce h.measured
    fun _ => closes_first hinv hlinear hbasis haccepts
  have hstarted := once_cons (Q := fun e => e.purpose.isNextIteration)
    (.ofJob job version w purpose r.system.clock) h.startedOnce h.started
    fun hnext e he hiter => absurd hiter (plans_first hbasis haccepts hnext e he)
  refine ⟨?_, ?_, ?_, ?_, ?_, ?_, ?_⟩
  · intro logged hlogged
    rcases List.mem_append.mp hlogged with hmade | hold
    · refine reportHolds_saved version (s := r.system) ?_ logged hmade
      change _ ∈ s'.history
      rw [hhistory]
      exact List.mem_cons_self
    · refine (h.truthful logged hold).mono fun e he => ?_
      change e ∈ s'.history
      rw [hhistory]
      exact List.mem_cons_of_mem _ he
  · change (numbersReported _ (_ ++ r.log)).Nodup
    rw [numbersReported_append, numbersReported_logReports, measured_saveReports version hbasis]
    exact hmeasured.1
  · intro n
    change n ∈ numbersReported _ (_ ++ r.log) ↔ ∃ e ∈ s'.history, _
    rw [numbersReported_append, numbersReported_logReports, measured_saveReports version hbasis,
      hhistory]
    exact hmeasured.2 n
  · change (numbersReported _ (_ ++ r.log)).Nodup
    rw [numbersReported_append, numbersReported_logReports, started_saveReports]
    exact hstarted.1
  · intro n
    change n ∈ numbersReported _ (_ ++ r.log) ↔ ∃ e ∈ s'.history, _
    rw [numbersReported_append, numbersReported_logReports, started_saveReports, hhistory]
    exact hstarted.2 n
  · intro w' jobCode n verdict duration made hlogged
    rcases List.mem_append.mp hlogged with hmade | hold
    · obtain ⟨report, hreport, heq⟩ := List.mem_map.mp hmade
      cases heq
      rw [hsame]
      exact List.mem_append_left _ (List.mem_map.mpr ⟨_, paired_saveReports hreport, rfl⟩)
    · exact List.mem_append_right _ (h.paired w' jobCode n verdict duration made hold)
  · refine records_recordAll h.records _ ?_
    intro logged hlogged hmember
    obtain ⟨report, -, rfl⟩ := List.mem_map.mp hlogged
    exact hrunning hmember

/-- Every action keeps what holds of the log and of the waits. -/
theorem step [DecidableEq ι] (hdef : jobDef.WellFormed)
    (hreachable : Reachable (JobManager.step κ jobDef) System.init r.system)
    (h : Holds jobDef isMember isAwaited r) {a : WatchedAction ι} {r' : WatchedPool ι}
    (hstep : r.step κ jobDef isMember isAwaited a = some r') :
    Reachable (JobManager.step κ jobDef) System.init r'.system ∧
      Holds jobDef isMember isAwaited r' := by
  cases a with
  | act action notifier =>
      rw [WatchedPool.step] at hstep
      split at hstep <;> rename_i hguard
      · split at hstep <;> rename_i hsystem
        · cases hstep
        · rename_i s'
          cases hstep
          have hreachable' : Reachable (JobManager.step κ jobDef) System.init s' :=
            .step hreachable trivial hsystem
          refine ⟨hreachable', ?_⟩
          have hrunning : ∀ w, action.worker? = some w → isMember w = true →
              r.isRunning = true := by
            intro w hw hmember
            simpa [hw, hmember] using hguard
          rcases step_cases hsystem with ⟨elapsed, rfl, rfl⟩ | ⟨w, move, phase, ids, rfl, -, rfl⟩ |
            ⟨w, version, delivered, job, purpose, rfl, hphase, haccepts, -, rfl⟩
          · exact ⟨h.truthful, h.measuredOnce, h.measured, h.startedOnce, h.started, h.paired,
              h.records⟩
          · obtain ⟨g', hinv'⟩ := reachable_inv hdef hreachable'
            exact h.moves rfl (hinv'.workers w) (hrunning w rfl)
          · obtain ⟨g, hinv⟩ := reachable_inv hdef hreachable
            have hok := hinv.workers w
            rw [hphase] at hok
            rw [reportsOf, hphase]
            exact h.put hinv (reachable_linear hdef hreachable) (fun _ _ _ _ => rfl) hok.2.2
              haccepts rfl (hrunning w rfl)
      · cases hstep
  | wait i jobCode =>
      rw [WatchedPool.step, JobsManagerHandle.waitForMatchingIteration] at hstep
      cases hfound : r.handle.finishedIterations jobCode with
      | none =>
          rw [hfound] at hstep
          cases hstep
      | some watch =>
          rw [hfound] at hstep
          cases hstep
          exact ⟨hreachable, h.truthful, h.measuredOnce, h.measured, h.startedOnce, h.started,
            h.paired,
            h.records.update hfound rfl rfl ((h.records.sound jobCode watch hfound).enter i)⟩
  | attend i jobCode =>
      obtain ⟨watch, hfound, rfl⟩ := Option.map_eq_some_iff.mp hstep
      refine ⟨hreachable, h.truthful, h.measuredOnce, h.measured, h.startedOnce, h.started,
        h.paired, h.records.update hfound ?_ ?_ ((h.records.sound jobCode watch hfound).attend i)⟩
      · exact watch.attend_isOpen _ i
      · exact watch.attend_value _ i
  | stop =>
      cases hstep
      exact ⟨hreachable, h.truthful, h.measuredOnce, h.measured, h.startedOnce, h.started, h.paired,
        h.records.stop⟩

end WatchedPool.Holds

/-- What the log of reports and the waits of the pool have to do with the history of the
store. -/
theorem WatchedPool.reachable_holds [DecidableEq ι] {jobDef : JobDefinition}
    {isMember : Uuid → Bool} {isAwaited : ι → Nat → Bool} {registry : JobRegistry}
    (hdef : jobDef.WellFormed) {r : WatchedPool ι}
    (h : Reachable (WatchedPool.step κ jobDef isMember isAwaited) (.init registry) r) :
    Reachable (JobManager.step κ jobDef) System.init r.system ∧
      r.Holds jobDef isMember isAwaited := by
  refine ReachableUnder.invariant
    (P := fun r : WatchedPool ι => Reachable (JobManager.step κ jobDef) System.init r.system ∧
      r.Holds jobDef isMember isAwaited)
    ⟨.init, .init jobDef isMember isAwaited registry⟩ ?_ h
  rintro r a r' ⟨hreachable, hholds⟩ - hstep
  exact hholds.step hdef hreachable hstep

/-! ## Every iteration is reported once -/

section Once

variable [DecidableEq ι] {jobDef : JobDefinition} {isMember : Uuid → Bool}
  {isAwaited : ι → Nat → Bool} {registry : JobRegistry} {r : WatchedPool ι}

end Once

/-! ## Waits -/

section Waits

variable {jobDef : JobDefinition} {isMember : Uuid → Bool}
  {isAwaited : ι → Nat → Bool} {registry : JobRegistry} {r : WatchedPool ι} {jobCode : String}
  {w : Watch (Option Nat) ι}

/-- What is heard is what the workers of the pool reported. -/
theorem mem_finishedHeard {log : List LoggedReport} {n : Nat} :
    (jobCode, n) ∈ finishedHeard isMember log ↔
      ∃ v, isMember v = true ∧ ⟨v, .finished jobCode n, true⟩ ∈ log := by
  rw [finishedHeard, List.mem_filterMap]
  constructor
  · rintro ⟨⟨v, report, isMade⟩, hmem, hfinished⟩
    obtain ⟨hmem, hheard⟩ := List.mem_filter.mp hmem
    obtain ⟨hmember, rfl⟩ := Bool.and_eq_true_iff.mp hheard
    cases report with
    | finished jobCode' n' =>
        cases hfinished
        exact ⟨v, hmember, hmem⟩
    | _ => cases hfinished
  · rintro ⟨v, hmember, hmem⟩
    exact ⟨_, List.mem_filter.mpr ⟨hmem, by simp [LoggedReport.isHeard, hmember]⟩, rfl⟩

/-- What whoever waits was told of is stored closed. -/
theorem closed_of_heard (h : r.Holds jobDef isMember isAwaited) {n : Nat}
    (hheard : (jobCode, n) ∈ finishedHeard isMember r.log) :
    ∃ e ∈ r.system.history, e.iterNum = n ∧ e.state.code = jobCode ∧ e.isClosed = true := by
  obtain ⟨v, -, hlogged⟩ := mem_finishedHeard.mp hheard
  exact h.truthful _ hlogged

theorem waitAnswer_eq_ok {waiter : Waiter (Option Nat)} {n : Nat} :
    waitAnswer jobCode waiter = some (.ok n) ↔ waiter = .ended (some (some n)) := by
  rcases waiter with _ | _ | seen | (_ | (_ | m)) <;> simp [waitAnswer]

/-- A wait without an answer has not ended. -/
theorem lasts_of_waitAnswer {awaits : ι → Option Nat → Bool} {P : Option Nat → Prop} {i : ι}
    (hsound : w.Sound awaits P) (hnothing : awaits i none = false)
    (h : waitAnswer jobCode (w.waiters i) = none) : ∀ answer, w.waiters i ≠ .ended answer := by
  intro answer hended
  have hi := hsound.waiters i
  rw [hended] at h hi
  rcases answer with _ | (_ | n)
  · cases h
  · rw [hi.2] at hnothing
    cases hnothing
  · cases h

/-- The wait for a job is for the end of its budget. -/
theorem awaited_of_waitForJobCompletion [DecidableEq ι] {finished : FinishedIterations ι}
    {handle : JobsManagerHandle ι} {i : ι} {awaited : Nat → Bool}
    (hregistry : registry.getJob jobDef.code = .ok jobDef)
    (h : (⟨registry, finished⟩ : JobsManagerHandle ι).waitForJobCompletion i jobDef.code =
      .ok (awaited, handle)) :
    ∃ m, jobDef.maxIterations = some m ∧ awaited = fun iterNum => decide (m ≤ iterNum) := by
  rw [JobsManagerHandle.waitForJobCompletion, hregistry] at h
  cases hmax : jobDef.maxIterations with
  | none =>
      simp only [bind, Except.bind, hmax] at h
      cases h
  | some m =>
      simp only [bind, Except.bind, hmax] at h
      refine ⟨m, rfl, ?_⟩
      cases hbegin : (⟨registry, finished⟩ : JobsManagerHandle ι).waitForMatchingIteration i
          jobDef.code with
      | error e =>
          rw [hbegin] at h
          cases h
      | ok handle' =>
          rw [hbegin] at h
          cases h
          rfl

/-- Where the pool's registry holds the description, the wait for the job waits for the last
iteration of the budget: no later one is ever stored, the wait answers with no other, and it
answers by its own next two steps once a worker of the pool reported that iteration. -/
theorem job_completion_waited [DecidableEq ι] (hdef : jobDef.Accepted)
    (h : Reachable (WatchedPool.step κ jobDef isMember isAwaited) (.init registry) r)
    (hregistry : registry.getJob jobDef.code = .ok jobDef)
    (hw : r.handle.finishedIterations jobDef.code = some w) {i : ι}
    {finished : FinishedIterations ι} {handle : JobsManagerHandle ι}
    (hwait : (⟨registry, finished⟩ : JobsManagerHandle ι).waitForJobCompletion i jobDef.code =
      .ok (isAwaited i, handle)) :
    ∃ maxIterations, jobDef.maxIterations = some maxIterations ∧
      (∀ e ∈ r.system.history, e.iterNum ≤ maxIterations) ∧
      (∀ n, waitAnswer jobDef.code (w.waiters i) = some (.ok n) → n = maxIterations ∧
        ∃ e ∈ r.system.history, e.iterNum = maxIterations ∧ e.isClosed = true) ∧
      ∀ v, isMember v = true → ⟨v, .finished jobDef.code maxIterations, true⟩ ∈ r.log →
        w.waiters i ≠ .absent → waitAnswer jobDef.code (w.waiters i) = none →
          ∃ k ≤ 2, waitAnswer jobDef.code (((Watch.attend
            (fun i => awaitsIteration (isAwaited i)) i)^[k] w).waiters i) =
              some (.ok maxIterations) := by
  obtain ⟨hreachable, hholds⟩ := WatchedPool.reachable_holds hdef.wellFormed h
  obtain ⟨m, hm, hawaited⟩ := awaited_of_waitForJobCompletion hregistry hwait
  have hbound : ∀ e ∈ r.system.history, e.iterNum ≤ m := by
    obtain ⟨k, hnumbers, -, hk⟩ :=
      (reachable_linear hdef.wellFormed hreachable).numbers hdef.wellFormed
    intro e he
    exact le_trans ((hnumbers e.iterNum).mp (current_of_mem he)).2 (hk m hm)
  have hsound := hholds.records.sound jobDef.code w hw
  refine ⟨m, hm, hbound, ?_, ?_⟩
  · intro n hanswer
    have hi := hsound.waiters i
    rw [waitAnswer_eq_ok.mp hanswer] at hi
    obtain ⟨e, he, rfl, -, hclosed⟩ := closed_of_heard hholds (hi.1 n rfl)
    have hreached : m ≤ e.iterNum := by simpa [awaitsIteration, hawaited] using hi.2
    have hlast : e.iterNum = m := le_antisymm (hbound e he) hreached
    exact ⟨hlast, e, he, hlast, hclosed⟩
  · intro v hmember hlogged hpresent hnone
    -- no greater number can have been reported, so the reported one is the one to be seen
    have hvalue : w.value = some m := by
      rw [hholds.records.greatest jobDef.code w hw, List.max?_eq_some_iff]
      refine
        ⟨FinishedIterations.mem_numbersOf.mpr (mem_finishedHeard.mpr ⟨v, hmember, hlogged⟩), ?_⟩
      intro n hn
      obtain ⟨e, he, rfl, -⟩ :=
        closed_of_heard hholds (FinishedIterations.mem_numbersOf.mp hn)
      exact hbound e he
    obtain ⟨k, hk, hend⟩ := hsound.attend_awaited (i := i)
      (by simp [awaitsIteration, hvalue, hawaited]) hpresent
      (lasts_of_waitAnswer (i := i) hsound rfl hnone)
    exact ⟨k, hk, waitAnswer_eq_ok.mpr (by rw [hend, hvalue])⟩

end Waits

/-! ## A run somebody waits in -/

/-- The pool of one worker, in which one waiter waits while the worker takes the given
actions. -/
def watchedChain (jobDef : JobDefinition) (isAwaited : Nat → Bool) (actions : List Action) :
    Option (JobRegistry × WatchedPool Bool) := do
  let registry ← (JobRegistry.new [jobDef]).toOption
  let r ← runActions (WatchedPool.step .shared jobDef (· == 101) fun _ => isAwaited)
    (.init registry)
    (.wait true jobDef.code :: actions.map (.act · .ready) ++ [.attend true jobDef.code])
  return (registry, r)

/-- What the log and the waiter hold in the end. -/
def watchedOutcome (jobDef : JobDefinition) (p : JobRegistry × WatchedPool Bool) :
    List Nat × List Nat × Option (Waiter (Option Nat)) :=
  (numbersReported Report.measuredNum p.2.log, numbersReported Report.startedNum p.2.log,
    (p.2.handle.finishedIterations jobDef.code).map fun w => w.waiters true)

/-- A pool that ran is one a run of the system reaches. -/
theorem watchedChain_reachable {jobDef : JobDefinition} {isAwaited : Nat → Bool}
    {actions : List Action} {outcome : List Nat × List Nat × Option (Waiter (Option Nat))}
    (h : (watchedChain jobDef isAwaited actions).map (watchedOutcome jobDef) = some outcome) :
    ∃ registry r, JobRegistry.new [jobDef] = .ok registry ∧
      Reachable (WatchedPool.step .shared jobDef (· == 101) fun _ => isAwaited)
        (.init registry) r ∧
      watchedOutcome jobDef (registry, r) = outcome := by
  obtain ⟨⟨registry, r⟩, hran, houtcome⟩ := Option.map_eq_some_iff.mp h
  simp only [watchedChain, Option.bind_eq_bind, Option.bind_eq_some_iff, Option.pure_def,
    Option.some.injEq, Prod.mk.injEq] at hran
  obtain ⟨registry', hregistry, r', hrun, rfl, rfl⟩ := hran
  exact ⟨registry', r', toOption_eq_some.mp hregistry, reachable_of_runActions .init hrun, houtcome⟩

/-- The chain of two tasks with a budget of one iteration. -/
def onceDefinition : JobDefinition := { chainDefinition with maxIterations := some 1 }

theorem onceDefinition_accepted : onceDefinition.Accepted :=
  .maxIterations chainDefinition_accepted
    (show chainDefinition.withMaxIterations 1 = .ok onceDefinition from rfl)

/-- The first round of the chain, which is the only one of a budget of one. -/
def onceRound : List Action := chainRounds.take 12

theorem onceRound_completed :
    ∃ (registry : JobRegistry) (r : WatchedPool Bool) (w : Watch (Option Nat) Bool),
      Reachable (WatchedPool.step .shared onceDefinition (· == 101) fun _ n => decide (1 ≤ n))
        (.init registry) r ∧
      r.handle.finishedIterations "chain" = some w ∧
      waitAnswer "chain" (w.waiters true) = some (.ok 1) ∧
      ∀ e ∈ r.system.history, e.iterNum ≤ 1 := by
  have hran : (watchedChain onceDefinition (fun n => decide (1 ≤ n)) onceRound).map
      (watchedOutcome onceDefinition) = some ([1], [], some (.ended (some (some 1)))) := by
    decide +kernel
  obtain ⟨registry, r, hregistry, hreach, houtcome⟩ := watchedChain_reachable hran
  obtain ⟨w, hw, hwaiter⟩ := Option.map_eq_some_iff.mp
    (congrArg (fun outcome => outcome.2.2) houtcome)
  have hget : registry.getJob onceDefinition.code = .ok onceDefinition := by
    cases hregistry
    rfl
  have hwait : ∃ handle, (⟨registry, FinishedIterations.new registry.listJobs⟩ :
      JobsManagerHandle Bool).waitForJobCompletion true onceDefinition.code =
        .ok (fun n => decide (1 ≤ n), handle) := by
    cases hregistry
    exact ⟨_, rfl⟩
  obtain ⟨handle, hwait⟩ := hwait
  obtain ⟨m, hm, hbound, -⟩ :=
    job_completion_waited onceDefinition_accepted hreach hget hw hwait
  cases hm
  exact ⟨registry, r, w, hreach, hw, waitAnswer_eq_ok.mpr hwaiter, hbound⟩

end JobManager
