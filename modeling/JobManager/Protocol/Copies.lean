import JobManager.Core.Derived
import JobManager.Protocol.Ownership

/-!
# Laws of the task map

A law is a property of a task map at a moment that survives the passing of time, every
elementary step of a worker and the way through storage.  Only the two merges can break
one, since only they put together entries that were derived apart; a law their
admitted instances keep holds of every version the store ever held.

Main results:

- Theorem {lit}`LocalStep.settled_stays`: what a task was judged on stays as it was.
- Theorem {lit}`Job.settlement_of_keepsSettlements`: how a stored task settled survives a
  merge that changes no settlement.
- Theorem {lit}`stored_of_law`: a law holds of every stored version.
-/

namespace JobManager

/-! ## Settled tasks -/

/-- A task that has settled makes no move. -/
theorem TaskMove.unsettled {w : Uuid} {now : Nat} {t t' : Task} {touch : Touch}
    (h : TaskMove w now t touch t') :
    t.status ≠ .completed ∧ t.isTerminallyFailedAt now = false ∧
      ∀ cause, t.status ≠ .skipped cause := by
  have hnot : ∀ {status : TaskStatus}, t.status = status → status ≠ .failed →
      t.isTerminallyFailedAt now = false := by
    intro status hs hne
    by_contra hterminal
    have hfailed := (Task.isTerminallyFailedAt_eq_true.mp (by simpa using hterminal)).1
    exact hne (hs.symm.trans hfailed)
  refine ⟨h.ne_completed, ?_, ?_⟩
  · cases h with
    | outlive hs _ => exact hnot hs (by simp)
    | putOut hb _ => exact hnot hb (by simp)
    | release hb => exact hnot hb (by simp)
    | start hstart =>
        rcases Task.canBePickedUpAt_cases (Task.start_eq_ok hstart).1 with hs | ⟨-, hopen⟩ | ⟨hs, -⟩
        · exact hnot hs (by simp)
        · exact hopen
        · exact hnot hs (by simp)
    | complete _ hs _ => exact hnot hs (by simp)
    | fail _ hs => exact hnot hs (by simp)
    | skip _ hs =>
        rcases hs with ⟨hs, -⟩ | hs
        · exact hnot hs (by simp)
        · exact hnot hs (by simp)
  · intro cause hskipped
    cases h with
    | outlive hs _ => simp [hskipped] at hs
    | putOut hb _ => simp [hskipped] at hb
    | release hb => simp [hskipped] at hb
    | start hstart =>
        rcases Task.canBePickedUpAt_cases (Task.start_eq_ok hstart).1 with
          hs | ⟨hs, -⟩ | ⟨hs, -⟩ <;> simp [hskipped] at hs
    | complete _ hs _ => simp [hskipped] at hs
    | fail _ hs => simp [hskipped] at hs
    | skip _ hs => simp [hskipped] at hs

/-- A dependency that does not hold a task back makes no move. -/
theorem TaskMove.judged_blocked {w : Uuid} {now : Nat} {dep dep' : Task} {touch : Touch}
    (h : TaskMove w now dep touch dep') (t : Task) : t.judgeDependency dep now = .blocked := by
  obtain ⟨hcompleted, hterminal, hskipped⟩ := h.unsettled
  cases hjudge : t.judgeDependency dep now with
  | blocked => rfl
  | unblocked =>
      rcases Task.judgeDependency_eq_unblocked.mp hjudge with hs | ⟨hs, -⟩ | ⟨-, cause, hs⟩
      · exact absurd hs hcompleted
      · rw [hterminal] at hs
        cases hs
      · exact absurd hs (hskipped cause)
  | skipped cause =>
      rcases Task.judgeDependency_eq_skipped.mp hjudge with ⟨hs, -⟩ | ⟨-, cause, hs, -⟩
      · rw [hterminal] at hs
        cases hs
      · exact absurd hs (hskipped cause)

/-- What a task was judged on stays as it was, as long as its dependencies are not rolled
back. -/
theorem LocalStep.settled_stays {w : Uuid} {now : Nat} {m m' : TaskMap} {touch : Touch}
    (h : LocalStep w now m touch m') (hclosed : DependenciesClosed m') {id d : Uuid}
    {t t' dep : Task} (ht' : m'.get id = some t') (hd : d ∈ t'.dependsOn)
    (hdep : m.get d = some dep) (hjudge : t.judgeDependency dep now ≠ .blocked) :
    m'.get d = some dep := by
  rcases h.get_some hdep with hget | ⟨dep', hmove, -⟩ | ⟨_, -, -, hgone, -⟩
  · exact hget
  · exact absurd (hmove.judged_blocked t) hjudge
  · obtain ⟨dep', hdep'⟩ := hclosed id t' ht' d hd
    rw [hgone] at hdep'
    cases hdep'

/-! ## How a task has settled -/

/-- What a task has settled as at a moment, for whatever waits for it. -/
def Task.settlementAt (t : Task) (now : Nat) : Option TaskResolution :=
  if t.isCompleted then some .completed
  else if t.isTerminallyFailedAt now then some .failed
  else if t.isSkipped then some .skipped
  else none

/-- What is done has settled as completed or as skipped. -/
theorem Task.isDone_iff_settlementAt {t : Task} (now : Nat) :
    IsDone t ↔ t.settlementAt now = some .completed ∨ t.settlementAt now = some .skipped := by
  unfold IsDone settlementAt isCompleted isTerminallyFailedAt isFailed isSkipped skipCause
  cases t.status <;> simp

/-- A dependency releases a task by what it has settled as. -/
theorem Task.judgeDependency_unblocked_iff {t d : Task} {now : Nat} :
    t.judgeDependency d now = .unblocked ↔
      d.settlementAt now = some .completed ∨
        (t.tolerance.allowsFailed = true ∧ d.settlementAt now = some .failed) ∨
        (t.tolerance.allowsSkipped = true ∧ d.settlementAt now = some .skipped) := by
  unfold judgeDependency settlementAt isSkipped
  cases d.isCompleted <;> cases d.isTerminallyFailedAt now <;> cases d.skipCause <;>
    cases t.tolerance.allowsFailed <;> cases t.tolerance.allowsSkipped <;> simp <;> split <;> simp

/-- And puts it out likewise. -/
theorem Task.judgeDependency_skipped_iff {t d : Task} {now : Nat} :
    (∃ cause, t.judgeDependency d now = .skipped cause) ↔
      (t.tolerance.allowsFailed = false ∧ d.settlementAt now = some .failed) ∨
        (t.tolerance.allowsSkipped = false ∧ d.settlementAt now = some .skipped) := by
  unfold judgeDependency settlementAt isSkipped
  cases d.isCompleted <;> cases d.isTerminallyFailedAt now <;> cases d.skipCause <;>
    cases t.tolerance.allowsFailed <;> cases t.tolerance.allowsSkipped <;> simp <;> split <;> simp

/-- Whether carrying a worker's entries over leaves every stored task that has settled as
it settled. -/
def Job.keepsSettlements (saved job : Job) (w : Uuid) (now : Nat) : Bool :=
  job.tasks.all fun t => !isCarried saved.tasksById w t ||
    match saved.task? t.id with
    | none => true
    | some stored =>
        stored.settlementAt now = none || t.settlementAt now = stored.settlementAt now

theorem Job.settlement_of_keepsSettlements {saved job : Job} {w : Uuid} {now : Nat}
    (h : saved.keepsSettlements job w now = true) {id : Uuid} {stored t : Task}
    (hstored : saved.task? id = some stored)
    (ht : (saved.carryTasks job w).tasksById.get id = some t)
    (hsettled : stored.settlementAt now ≠ none) : t.settlementAt now = stored.settlementAt now := by
  rcases carry_cases ht with ⟨hjob, hcarried⟩ | ⟨hsaved, -⟩
  · rw [keepsSettlements, List.all_eq_true] at h
    have hkept := h t (mem_tasks_of_task? hjob)
    rw [id_of_task? hjob, hstored] at hkept
    simpa [hcarried, hsettled] using hkept
  · rw [hstored] at hsaved
    cases hsaved
    rfl

/-! ## Laws -/

/-- A property of a task map at a moment that the merges the condition admits keep, and
everything else keeps anyway. -/
structure CopyLaw (jobDef : JobDefinition) (admits : System → Action → Prop)
    (P : Nat → TaskMap → Prop) : Prop where
  mono : ∀ a b m, a ≤ b → P a m → P b m
  step : ∀ w now m touch m', LocalStep w now m touch m' → DependenciesClosed m →
    DependenciesClosed m' → P now m → P now m'
  restore : ∀ now (job : Job), P now job.tasksById → P now (StoredJob.fromJob job).taskMap
  plan : ∀ w ids (job : Job) now, job.Planned jobDef w ids → P now job.tasksById
  mergeStart : ∀ {g : Pedigree} {s : System} {w taskId : Uuid} {job saved : Job}
    {workerTask : Task} {m : TaskMap} {first second : Nat}, Inv .shared jobDef g s →
    (s.workers w).phase = .merging job saved (.start taskId) →
    admits s (.move w (.merge first second)) → saved.acceptsStart job w taskId = true →
    first ≤ second → job.task? taskId = some workerTask → workerTask.status = .started →
    Derived first second saved.tasksById m →
    (∀ id t, m.get id = some t → t.status = .blocked →
      ∀ cause, ¬ UnreachableFor m t second cause) →
    Fits g s.minted saved.iterNum m → P second m → P second (m.insert workerTask)
  mergeResult : ∀ {g : Pedigree} {s : System} {w taskId : Uuid} {job saved : Job}
    {first now : Nat}, Inv .shared jobDef g s →
    (s.workers w).phase = .merging job saved (.result taskId) →
    admits s (.move w (.merge first now)) → saved.acceptsResult job w taskId = true →
    saved.iterNum = job.iterNum → P now saved.tasksById → P now job.tasksById →
    P now (saved.carryTasks job w).tasksById

namespace CopyLaw

variable {jobDef : JobDefinition} {admits : System → Action → Prop} {P : Nat → TaskMap → Prop}
  {w : Uuid} {lo hi : Nat} {m m' : TaskMap}

/-- A law survives every run that drops nothing that belongs to a worker. -/
theorem run (law : CopyLaw jobDef admits P) {touches : Touch → Prop}
    (hrun : SteadyRun .shared w touches lo hi m m') (hclosed : DependenciesClosed m)
    (h : P lo m) : P hi m' := by
  refine (TimedRun.preserves (P := fun now m => P now m ∧ DependenciesClosed m) ?_ ?_ hrun
    ⟨h, hclosed⟩).1
  · intro a b m hab hP
    exact ⟨law.mono a b m hab hP.1, hP.2⟩
  · rintro now m₁ m₂ ⟨touch, -, hstep⟩ ⟨hP, hclosed₁⟩
    have hclosed₂ := hstep.closed hclosed₁
    exact ⟨law.step w now m₁ touch m₂ hstep.step hclosed₁ hclosed₂ hP, hclosed₂⟩

/-- Among them what the state implies on its own. -/
theorem derived (law : CopyLaw jobDef admits P) (hrun : DerivedRun .shared w lo hi m m')
    (hclosed : DependenciesClosed m) (h : P lo m) : P hi m' :=
  law.run (LocalRun.steady (by simp) hrun) hclosed h

end CopyLaw

/-- A write leaves its worker with the tasks it wrote. -/
theorem tasks_of_afterPut {job job' : Job} {purpose : Purpose} {version : String}
    {delivered : Bool} (h : job' ∈ (afterPut job purpose version delivered).copies) :
    job'.tasksById = job.tasksById := by
  cases delivered with
  | false =>
      obtain rfl := List.mem_singleton.mp h
      rfl
  | true =>
      cases purpose with
      | result taskId => cases h
      | settle => cases h
      | _ =>
          obtain rfl := List.mem_singleton.mp h
          rfl

/-- A law holds of every version when it is written, and of every copy when its worker
last acted. -/
structure LawInv (P : Nat → TaskMap → Prop) (s : System) : Prop where
  written : ∀ e ∈ s.history, e.writtenAt ≤ s.clock ∧ P e.writtenAt e.kept.tasksById
  copies : ∀ w, (s.workers w).since ≤ s.clock ∧
    ∀ job ∈ (s.workers w).phase.copies, P (s.workers w).since job.tasksById

section Law

variable {jobDef : JobDefinition} {admits : System → Action → Prop} {P : Nat → TaskMap → Prop}
  {g : Pedigree} {s s' : System} {w : Uuid}

/-- A law holds of what the reader of a version gets. -/
theorem LawInv.serves (law : CopyLaw jobDef admits P) (hlaw : LawInv P s) {e : Entry} {job : Job}
    (he : e ∈ s.history) (hserves : s.history.Serves jobDef e job) : P s.clock job.tasksById := by
  rcases hserves with rfl | ⟨e', he', -, -, rfl⟩
  · obtain ⟨hle, hP⟩ := hlaw.written e he
    exact law.mono _ _ _ hle (law.restore _ _ hP)
  · obtain ⟨hle, hP⟩ := hlaw.written e' he'
    exact law.mono _ _ _ hle hP

/-- Every admitted move leaves copies the law holds of now. -/
theorem LawInv.moves (law : CopyLaw jobDef admits P) (hinv : Inv .shared jobDef g s)
    (hcalm : Calm s) (hlaw : LawInv P s) {p p' : Phase} {action : WorkerAction}
    {ids : List Uuid} (hphase : (s.workers w).phase = p) (hadmits : admits s (.move w action))
    (hmoves : Moves .shared jobDef s w p action p' ids) :
    ∀ job ∈ p'.copies, P s.clock job.tasksById := by
  have hok := hinv.workers w
  have hknows := hcalm.workers w
  obtain ⟨hsince, hcopies⟩ := hlaw.copies w
  rw [hphase] at hok hknows hcopies
  cases hmoves with
  | idle => simp [Phase.copies]
  | missing _ => simp [Phase.copies]
  | read hread hserves =>
      intro job hjob
      obtain rfl := List.mem_singleton.mp hjob
      exact hlaw.serves law (current_mem (readable_current hread).1).1 hserves
  | create _ _ hplanned _ =>
      intro job hjob
      obtain rfl := List.mem_singleton.mp hjob
      exact law.plan _ _ _ _ hplanned
  | advance _ _ _ _ _ hplanned _ =>
      intro job hjob
      obtain rfl := List.mem_singleton.mp hjob
      exact law.plan _ _ _ _ hplanned
  | @start job job' m t t' moments now _ hrun hle ht hstart htasks _ _ =>
      intro job'' hjob
      obtain rfl := List.mem_singleton.mp hjob
      have hpickup := localRun_of_start hrun ht hstart htasks
      exact law.mono _ _ _ hle (law.run (LocalRun.steady (by simp [Touch.IsPickup]) hpickup)
        hknows.closed (hcopies job (by simp [Phase.copies])))
  | @settle job job' moments now startAt _ hrun hle _ _ _ _ _ =>
      intro job'' hjob
      obtain rfl := List.mem_singleton.mp hjob
      exact law.mono _ _ _ hle (law.derived hrun hknows.closed
        (hcopies job (by simp [Phase.copies])))
  | refused =>
      intro job hjob
      exact law.mono _ _ _ hsince (hcopies job hjob)
  | @reread job saved purpose n kept e hread hserves =>
      intro job' hjob
      simp only [Phase.copies, List.mem_cons, List.not_mem_nil, or_false] at hjob
      rcases hjob with rfl | rfl
      · exact law.mono _ _ _ hsince (hcopies _ (by simp [Phase.copies]))
      · exact hlaw.serves law (current_mem (readable_current hread).1).1 hserves
  | @adopt job saved purpose first second _ =>
      intro job' hjob
      obtain rfl := List.mem_singleton.mp hjob
      exact law.mono _ _ _ hsince (hcopies _ (by simp [Phase.copies]))
  | @mergeStart job saved job' taskId stored workerTask m first second hfirst hle _ _ hworker
      hstarted _ hrun hderived hreachable htasks _ _ haccepts =>
      intro job'' hjob
      obtain rfl := List.mem_singleton.mp hjob
      obtain ⟨-, -, -, hheld, -⟩ := hok
      have hsaved : P first saved.tasksById :=
        law.mono _ _ _ hfirst (hcopies saved (by simp [Phase.copies]))
      have hm : P second m := law.derived hrun hknows.2.1.closed hsaved
      rw [htasks]
      exact law.mono _ _ _ hle (law.mergeStart hinv hphase hadmits haccepts hrun.le hworker
        hstarted hderived hreachable (DerivedRun.fits hrun hheld.fits) hm)
  | @mergeResult job saved base job' taskId stored first now hfirst hle _ hstored _ htasks _ _
      hfrom haccepts =>
      intro job'' hjob
      obtain rfl := List.mem_singleton.mp hjob
      obtain ⟨hcopy, -, ⟨-, t, ht⟩, hheld, -⟩ := hok
      obtain ⟨hcalmJob, hcalmSaved, hknown⟩ := hknows
      have hiter : saved.iterNum = job.iterNum := sameIteration hcopy.fits hheld.fits ht hstored
      have hcarry := law.mergeResult hinv hphase hadmits haccepts hiter
        (law.mono _ _ _ hfirst (hcopies saved (by simp [Phase.copies])))
        (law.mono _ _ _ hfirst (hcopies job (by simp [Phase.copies])))
      have hrun : DerivedRun .shared w now now (saved.carryTasks job w).tasksById
          job''.tasksById := htasks ▸ hfrom.run
      exact law.mono _ _ _ hle (law.derived hrun
        (closed_carry hcalmSaved.closed hcalmJob.closed (hknown hiter)) hcarry)
  | @call job job' taskId now call hfirst hle hfresh hserve =>
      intro job'' hjob
      obtain rfl := List.mem_singleton.mp hjob
      obtain ⟨_, -, -, -, hunder⟩ := hknows
      have hbefore : P now job.tasksById :=
        law.mono _ _ _ hfirst (hcopies job (by simp [Phase.copies]))
      exact law.mono _ _ _ hle (law.run (hunder.serve (hok.1.lacks_fresh hfresh) hserve).2
        hunder.closed hbefore)
  | @callRefused job taskId now call =>
      intro job' hjob
      exact law.mono _ _ _ hsince (hcopies job' hjob)
  | @finish job job₁ job' taskId outcome resolution now settleAt hfirst hle hclock _ hworked
      hfrom =>
      intro job'' hjob
      obtain rfl := List.mem_singleton.mp hjob
      obtain ⟨_, -, -, -, hunder⟩ := hknows
      have hbefore : P now job.tasksById :=
        law.mono _ _ _ hfirst (hcopies job (by simp [Phase.copies]))
      obtain ⟨hunder₁, hsteady⟩ := hunder.run (fun _ htouch => ⟨taskId, htouch⟩) hworked.run
      have hrecorded : P now job₁.tasksById := law.run hsteady hunder.closed hbefore
      exact law.mono _ _ _ hclock
        (law.derived hfrom.run hunder₁.closed (law.mono _ _ _ hle hrecorded))

theorem LawInv.step (law : CopyLaw jobDef admits P) (hinv : Inv .shared jobDef g s)
    (hcalm : Calm s) (hlaw : LawInv P s) {a : Action} (hadmits : admits s a)
    (h : step .shared jobDef s a = some s') : LawInv P s' := by
  rcases step_cases h with ⟨elapsed, rfl, rfl⟩ | ⟨w, action, phase, ids, rfl, hmoves, rfl⟩ |
    ⟨w, version, delivered, job, purpose, rfl, hphase, haccepts, hissue, rfl⟩
  · have hclock : s.clock ≤ s.clock + elapsed := Nat.le_add_right _ _
    exact ⟨fun e he => ⟨Nat.le_trans (hlaw.written e he).1 hclock, (hlaw.written e he).2⟩,
      fun w => ⟨Nat.le_trans (hlaw.copies w).1 hclock, (hlaw.copies w).2⟩⟩
  · refine ⟨hlaw.written, ?_⟩
    intro w'
    by_cases hw : w' = w
    · subst hw
      rw [System.enter_self]
      exact ⟨Nat.le_refl _, LawInv.moves law hinv hcalm hlaw rfl hadmits hmoves⟩
    · rw [System.enter_of_ne _ _ _ _ hw]
      exact hlaw.copies w'
  · obtain ⟨hsince, hcopies⟩ := hlaw.copies w
    rw [hphase] at hcopies
    have hjob : P s.clock job.tasksById :=
      law.mono _ _ _ hsince (hcopies job (by simp [Phase.copies]))
    constructor
    · intro e he
      rcases List.mem_cons.mp he with rfl | he
      · exact ⟨Nat.le_refl _, hjob⟩
      · exact hlaw.written e he
    · intro w'
      by_cases hw : w' = w
      · subst hw
        rw [System.commit_self]
        refine ⟨Nat.le_refl _, ?_⟩
        intro job' hmem
        rw [tasks_of_afterPut hmem]
        exact hjob
      · rw [System.commit_of_ne _ _ _ _ hw]
        exact hlaw.copies w'

end Law

/-- Merges that change how no stored task has settled agree with every conclusion stored. -/
theorem agreesOn_of_keepsSettlements {s : System} {a : Action}
    (hkeeps : ∀ {w taskId : Uuid} {first second : Nat} {job saved : Job},
      a = .move w (.merge first second) →
      (s.workers w).phase = .merging job saved (.result taskId) →
      saved.acceptsResult job w taskId = true → saved.keepsSettlements job w second = true) :
    conclusions.AgreesOn s a := by
  unfold Finding.AgreesOn
  split
  case h_2 => trivial
  rename_i w first second
  split
  case h_2 => trivial
  rename_i job saved taskId hphase
  intro haccepts id t stored b _ ht howner hstored hfound
  have hconcluded := isConcluded_of_conclusions hfound
  rw [Task.isConcluded_eq_true] at hconcluded
  have hcarried : (saved.carryTasks job w).task? id = some t := by
    rw [Job.task?_carryTasks, Job.takesResult, Job.carries, ht, Option.any_some, Job.isCarried,
      Job.isProcessedNow, howner]
    simp
  have hsettled := (Task.isDone_iff_settlementAt second).mp hconcluded.done
  have hsame := Job.settlement_of_keepsSettlements (hkeeps rfl hphase haccepts) hstored hcarried
    (by rcases hsettled with hs | hs <;> simp [hs])
  rw [← hsame] at hsettled
  exact conclusions_of ⟨(Task.isDone_iff_settlementAt second).mpr hsettled, by simp [howner]⟩

/-- A law holds of every version the store ever held, at the moment it was written, along runs
whose merges agree with the conclusions stored. -/
theorem stored_of_law {jobDef : JobDefinition} {admits : System → Action → Prop}
    {P : Nat → TaskMap → Prop} (hdef : jobDef.WellFormed) (law : CopyLaw jobDef admits P)
    (hagrees : ∀ s a, admits s a → conclusions.AgreesOn s a) {s : System}
    (h : ReachableUnder (step .shared jobDef) admits System.init s) :
    ∀ e ∈ s.history, P e.writtenAt e.tasks := by
  have hinit : LawInv P System.init :=
    ⟨by simp [System.init], fun w => ⟨Nat.le_refl _, by simp [System.init, Phase.copies]⟩⟩
  obtain ⟨-, -, -, hlaw⟩ := reachable_calm
    (P := fun s => FindingInv conclusions s ∧ LawInv P s) hdef
    ⟨findingInv_init conclusions, hinit⟩
    (fun hinv hcalm hP hadmits => hP.1.keepsCreators hinv hcalm (hagrees _ _ hadmits))
    (fun hinv hcalm hP hadmits hstep =>
      ⟨hP.1.step hdef hinv hcalm (hagrees _ _ hadmits) hstep,
        hP.2.step law hinv hcalm hadmits hstep⟩) h
  exact fun e he => law.restore _ _ (hlaw.written e he).2

end JobManager
