import JobManager.Library.Watch
import JobManager.Storage.ObjectStorage

/-!
# Waiting for a finished iteration

The pool keeps the number of the last finished iteration of every job it runs, as a value
that only moves forward.  Whoever waits for an iteration looks at it, and is woken by every
later report or by the end of the pool.

Main definitions:

- {lit}`FinishedIterations.recordFinishedIteration`: what a report of a worker leaves.
- {lit}`JobsManagerHandle.waitForIterationCompletion`,
  {lit}`JobsManagerHandle.waitForJobCompletion`: how a wait begins.
- {lit}`waitAnswer`: what a wait that has ended answers.
-/

namespace JobManager

variable {ι : Type}

/-- Last finished iteration of every job the pool runs, and who waits for one. -/
abbrev FinishedIterations (ι : Type) := String → Option (Watch (Option Nat) ι)

namespace FinishedIterations

/-- No iteration of these jobs is finished yet. -/
def new (jobCodes : List String) : FinishedIterations ι := fun jobCode =>
  if jobCode ∈ jobCodes then some (.new none) else none

/-- A report older than the recorded one changes nothing, and neither does one of a job this
pool does not run. -/
def recordFinishedIteration (jobCode : String) (iterNum : Nat) (finished : FinishedIterations ι) :
    FinishedIterations ι :=
  match finished jobCode with
  | none => finished
  | some lastFinishedIteration =>
      if lastFinishedIteration.value.all (· < iterNum) then
        Function.update finished jobCode (some (lastFinishedIteration.set (some iterNum)))
      else finished

/-- The workers are gone, and with them everybody who could report. -/
def stop (finished : FinishedIterations ι) : FinishedIterations ι := fun jobCode =>
  (finished jobCode).map Watch.close

end FinishedIterations

/-- What a wait is for, as a test of the last finished iteration. -/
def awaitsIteration (isAwaited : Nat → Bool) (lastFinished : Option Nat) : Bool :=
  lastFinished.any isAwaited

/-- Handle of a running pool. -/
structure JobsManagerHandle (ι : Type) where
  jobRegistry : JobRegistry
  finishedIterations : FinishedIterations ι

/-- What a wait that has ended answers. -/
def waitAnswer (jobCode : String) : Waiter (Option Nat) → Option (Except Error Nat)
  | .ended (some (some iterNum)) => some (.ok iterNum)
  | .ended none =>
      some (.error
        (.other s!"the worker pool stopped before an iteration of job '{jobCode}' finished"))
  | _ => none

namespace JobsManagerHandle

variable [DecidableEq ι] (handle : JobsManagerHandle ι)

/-- Begin to wait for an iteration of a job. -/
def waitForMatchingIteration (i : ι) (jobCode : String) : Except Error (JobsManagerHandle ι) :=
  match handle.finishedIterations jobCode with
  | none => .error (.other s!"job '{jobCode}' is not run by this pool")
  | some lastFinishedIteration =>
      .ok { handle with
        finishedIterations := Function.update handle.finishedIterations jobCode
          (some (lastFinishedIteration.enter i)) }

/-- Begin to wait for the end of the iteration budget of a job. -/
def waitForJobCompletion (i : ι) (jobCode : String) :
    Except Error ((Nat → Bool) × JobsManagerHandle ι) := do
  let jobDef ← handle.jobRegistry.getJob jobCode
  match jobDef.maxIterations with
  | none =>
      .error (.other s!"job '{jobCode}' has no iteration limit, so it never completes")
  | some maxIterations =>
      return (fun iterNum => maxIterations ≤ iterNum,
        ← handle.waitForMatchingIteration i jobCode)

end JobsManagerHandle

/-! ## The recorded number is the greatest reported one -/

namespace FinishedIterations

/-- The numbers reported of a job. -/
def numbersOf (jobCode : String) (reports : List (String × Nat)) : List Nat :=
  (reports.filter fun report => report.1 = jobCode).map Prod.snd

/-- The numbers of a job are those reported under its code. -/
theorem mem_numbersOf {jobCode : String} {reports : List (String × Nat)} {n : Nat} :
    n ∈ numbersOf jobCode reports ↔ (jobCode, n) ∈ reports := by
  simp [numbersOf]

theorem numbersOf_cons_self (jobCode : String) (n : Nat) (reports : List (String × Nat)) :
    numbersOf jobCode ((jobCode, n) :: reports) = n :: numbersOf jobCode reports := by
  simp [numbersOf]

theorem numbersOf_cons_of_ne {jobCode jobCode' : String} (h : jobCode' ≠ jobCode) (n : Nat)
    (reports : List (String × Nat)) :
    numbersOf jobCode ((jobCode', n) :: reports) = numbersOf jobCode reports := by
  simp [numbersOf, h]

/-- A newer number is the greatest one. -/
theorem recorded_newer {recorded : Option Nat} {iterNum : Nat}
    (h : recorded.all (· < iterNum) = true) :
    some iterNum = some (recorded.elim iterNum (max iterNum ·)) := by
  cases recorded with
  | none => rfl
  | some n =>
      have hlt : n < iterNum := by simpa using h
      simp [Option.elim, Nat.max_eq_left (Nat.le_of_lt hlt)]

/-- An older number is not the greatest one. -/
theorem recorded_older {recorded : Option Nat} {iterNum : Nat}
    (h : ¬recorded.all (· < iterNum) = true) :
    recorded = some (recorded.elim iterNum (max iterNum ·)) := by
  cases recorded with
  | none => simp at h
  | some n =>
      have hle : iterNum ≤ n := by simpa using h
      simp [Option.elim, Nat.max_eq_right hle]

/-- What every job's watch holds: it runs while the pool does, records the greatest of the
reported numbers, and hands out reported numbers only. -/
structure Records (awaits : ι → Option Nat → Bool) (isRunning : Bool)
    (reports : List (String × Nat)) (finished : FinishedIterations ι) : Prop where
  isOpen : ∀ jobCode w, finished jobCode = some w → w.isOpen = isRunning
  greatest : ∀ jobCode w, finished jobCode = some w → w.value = (numbersOf jobCode reports).max?
  sound : ∀ jobCode w, finished jobCode = some w →
    w.Sound awaits fun value => ∀ n, value = some n → (jobCode, n) ∈ reports

namespace Records

variable {awaits : ι → Option Nat → Bool} {isRunning : Bool} {reports : List (String × Nat)}
  {finished : FinishedIterations ι}

/-- Before any report the table records nothing. -/
theorem new (awaits : ι → Option Nat → Bool) (jobCodes : List String) :
    Records awaits true [] (FinishedIterations.new jobCodes) := by
  have hnew : ∀ jobCode w, (FinishedIterations.new jobCodes : FinishedIterations ι) jobCode =
      some w → w = .new none := by
    intro jobCode w hw
    rw [FinishedIterations.new] at hw
    split at hw
    · exact (Option.some.inj hw).symm
    · cases hw
  refine ⟨?_, ?_, ?_⟩
  · intro jobCode w hw
    rw [hnew jobCode w hw]
    rfl
  · intro jobCode w hw
    rw [hnew jobCode w hw]
    rfl
  · intro jobCode w hw
    rw [hnew jobCode w hw]
    exact .new (by simp)

/-- One more report of one job, recorded where it is the greatest. -/
theorem record (h : Records awaits true reports finished) (jobCode : String) (iterNum : Nat) :
    Records awaits true ((jobCode, iterNum) :: reports)
      (finished.recordFinishedIteration jobCode iterNum) := by
  have hmore : ∀ code value, (∀ n, value = some n → (code, n) ∈ reports) →
      ∀ n, value = some n → (code, n) ∈ (jobCode, iterNum) :: reports :=
    fun _ _ hvalue n hn => List.mem_cons_of_mem _ (hvalue n hn)
  -- the watch of any other job is as it was
  have hother : ∀ code w, code ≠ jobCode → finished code = some w →
      w.isOpen = true ∧ w.value = (numbersOf code ((jobCode, iterNum) :: reports)).max? ∧
        w.Sound awaits fun value =>
          ∀ n, value = some n → (code, n) ∈ (jobCode, iterNum) :: reports := by
    intro code w hcode hw
    rw [numbersOf_cons_of_ne (Ne.symm hcode)]
    exact ⟨h.isOpen code w hw, h.greatest code w hw, (h.sound code w hw).mono (hmore code)⟩
  have hall : ∀ code w, finished.recordFinishedIteration jobCode iterNum code = some w →
      w.isOpen = true ∧ w.value = (numbersOf code ((jobCode, iterNum) :: reports)).max? ∧
        w.Sound awaits fun value =>
          ∀ n, value = some n → (code, n) ∈ (jobCode, iterNum) :: reports := by
    intro code w hw
    cases hfound : finished jobCode with
    | none =>
        simp only [recordFinishedIteration, hfound] at hw
        refine hother code w ?_ hw
        rintro rfl
        rw [hfound] at hw
        cases hw
    | some last =>
        simp only [recordFinishedIteration, hfound] at hw
        have hgreatest := h.greatest jobCode last hfound
        by_cases hnewer : last.value.all (· < iterNum) = true
        · rw [if_pos hnewer] at hw
          by_cases hcode : code = jobCode
          · subst hcode
            rw [Function.update_self] at hw
            cases hw
            refine ⟨h.isOpen code last hfound, ?_,
              ((h.sound code last hfound).mono (hmore code)).set (h.isOpen code last hfound) ?_⟩
            · rw [numbersOf_cons_self, List.max?_cons, ← hgreatest]
              exact recorded_newer hnewer
            · intro n hn
              cases hn
              exact List.mem_cons_self
          · rw [Function.update_of_ne hcode] at hw
            exact hother code w hcode hw
        · rw [if_neg hnewer] at hw
          by_cases hcode : code = jobCode
          · subst hcode
            rw [hfound] at hw
            cases hw
            refine ⟨h.isOpen code w hfound, ?_, (h.sound code w hfound).mono (hmore code)⟩
            rw [numbersOf_cons_self, List.max?_cons, ← hgreatest]
            exact recorded_older hnewer
          · exact hother code w hcode hw
  exact ⟨fun code w hw => (hall code w hw).1, fun code w hw => (hall code w hw).2.1,
    fun code w hw => (hall code w hw).2.2⟩

/-- The pool ends. -/
theorem stop (h : Records awaits isRunning reports finished) :
    Records awaits false reports finished.stop := by
  refine ⟨?_, ?_, ?_⟩
  · intro code w hw
    obtain ⟨last, -, rfl⟩ := Option.map_eq_some_iff.mp hw
    rfl
  · intro code w hw
    obtain ⟨last, hlast, rfl⟩ := Option.map_eq_some_iff.mp hw
    exact h.greatest code last hlast
  · intro code w hw
    obtain ⟨last, hlast, rfl⟩ := Option.map_eq_some_iff.mp hw
    exact (h.sound code last hlast).close

/-- Whatever keeps the value of one watch and what may be said of its waiters. -/
theorem update (h : Records awaits isRunning reports finished) {jobCode : String}
    {w w' : Watch (Option Nat) ι} (hw : finished jobCode = some w)
    (hopen : w'.isOpen = w.isOpen) (hvalue : w'.value = w.value)
    (hsound : w'.Sound awaits fun value => ∀ n, value = some n → (jobCode, n) ∈ reports) :
    Records awaits isRunning reports (Function.update finished jobCode (some w')) := by
  refine ⟨?_, ?_, ?_⟩ <;> intro code v hv <;> by_cases hcode : code = jobCode
  · subst hcode
    rw [Function.update_self] at hv
    cases hv
    exact hopen.trans (h.isOpen code w hw)
  · rw [Function.update_of_ne hcode] at hv
    exact h.isOpen code v hv
  · subst hcode
    rw [Function.update_self] at hv
    cases hv
    exact hvalue.trans (h.greatest code w hw)
  · rw [Function.update_of_ne hcode] at hv
    exact h.greatest code v hv
  · subst hcode
    rw [Function.update_self] at hv
    cases hv
    exact hsound
  · rw [Function.update_of_ne hcode] at hv
    exact h.sound code v hv

end Records

end FinishedIterations

end JobManager
