import Mathlib.Data.Set.Card
import JobManager.Core.Settlement
import JobManager.Library.Spread

/-!
# The cascade as a spreading signal

Every generation of the cascade is one round of a signal that spreads from the settled
tasks along the blocked ones: weak where a decision is handed down, strong where a
failure is.  What the cascade puts out, and under which cause, is therefore given by the
routes of the state it begins with and by nothing else.

Main results:

- Theorem {lit}`Generation.round`: a generation is a round.
- Theorem {lit}`skipUnreachableTasks_isLeast`: the cascade computes the least fixpoint,
  whatever the order of the maps it reads.
- Theorem {lit}`strongestCauses_iff`: when every task it puts out takes the strongest
  cause of all its dependencies.
-/

namespace JobManager

/-! ## Sources and routes of the cascade -/

section

variable (m : TaskMap) (now : Nat)

/-- A blocked task is put out by a dependency that has settled, under a cause that does or
does not carry a failure. -/
def StruckIn (failure : Bool) (id : Uuid) : Prop :=
  ∃ t cause, m.get id = some t ∧ t.status = .blocked ∧ UnreachableFor m t now cause ∧
    cause.carriesFailure = failure

/-- A blocked task waits for another one and does not accept its being skipped. -/
def WaitsIn (d id : Uuid) : Prop :=
  ∃ t dep, m.get id = some t ∧ t.status = .blocked ∧ d ∈ t.dependsOn ∧
    t.tolerance.allowsSkipped = false ∧ m.get d = some dep ∧ dep.status = .blocked

/-- A chain of blocked tasks, of the given length, leads from the task to one a settled
dependency puts out, and hands down a failure or a decision. -/
abbrev HandedDown (failure : Bool) (length : Nat) (id : Uuid) : Prop :=
  Spread.Reaches (StruckIn m now) (WaitsIn m) failure length id

end

/-- Whether a task was put out between two states, and if so whether its cause carries a
failure. -/
def putOutLabel (m m' : TaskMap) (id : Uuid) : Option Bool :=
  match m.get id with
  | none => none
  | some t =>
      if t.status = .blocked then
        (m'.get id).bind fun t' => t'.skipCause.map SkipCause.carriesFailure
      else none

/-- Blocked tasks were put out by the cascade, and nothing else happened. -/
def PutOut (now : Nat) (m m' : TaskMap) : Prop :=
  ∀ id, m'.get id = m.get id ∨ ∃ t reason cause, m.get id = some t ∧ t.status = .blocked ∧
    m'.get id = some (t.skippedWith reason cause now) ∧ cause ≠ .executorDecision

/-- The cascade never answers for an executor. -/
theorem UnreachableFor.ne_executorDecision {m : TaskMap} {t : Task} {now : Nat}
    {cause : SkipCause} (h : UnreachableFor m t now cause) : cause ≠ .executorDecision := by
  obtain ⟨d, -, dep, -, hjudge⟩ := h
  exact cause_ne_executorDecision hjudge

namespace PutOut

variable {now : Nat} {m m₁ m' : TaskMap} {id : Uuid} {t : Task} {failure : Bool}

theorem refl : PutOut now m m := fun _ => Or.inl rfl

/-- A labelled task was blocked and was put out by the cascade. -/
theorem label_eq_some (h : PutOut now m m') :
    putOutLabel m m' id = some failure ↔ ∃ t reason cause, m.get id = some t ∧
      t.status = .blocked ∧ m'.get id = some (t.skippedWith reason cause now) ∧
      cause ≠ .executorDecision ∧ cause.carriesFailure = failure := by
  constructor
  · intro hlabel
    unfold putOutLabel at hlabel
    split at hlabel
    · cases hlabel
    · rename_i t ht
      split at hlabel <;> rename_i hblocked
      · rcases h id with hget | ⟨t₀, reason, cause, ht₀, -, hget, hcause⟩
        · rw [hget, ht] at hlabel
          simp [Task.skipCause, hblocked] at hlabel
        · rw [ht] at ht₀
          cases ht₀
          rw [hget] at hlabel
          simp only [Task.skipCause, Task.skippedWith, Option.bind_some, Option.map_some,
            Option.some.injEq] at hlabel
          exact ⟨t, reason, cause, ht, hblocked, hget, hcause, hlabel⟩
      · cases hlabel
  · rintro ⟨t, reason, cause, ht, hblocked, hget, -, hfailure⟩
    simp [putOutLabel, ht, hblocked, hget, Task.skipCause, Task.skippedWith, hfailure]

/-- A task without a label is as it was. -/
theorem get_of_label_none (h : PutOut now m m') (hlabel : putOutLabel m m' id = none) :
    m'.get id = m.get id := by
  rcases h id with hget | ⟨t, reason, cause, ht, hblocked, hget, hcause⟩
  · exact hget
  · rw [h.label_eq_some.mpr ⟨t, reason, cause, ht, hblocked, hget, hcause, rfl⟩] at hlabel
    cases hlabel

/-- And one that is as it was has no label. -/
theorem label_of_get (h : PutOut now m m') (hget : m'.get id = m.get id) :
    putOutLabel m m' id = none := by
  cases hlabel : putOutLabel m m' id with
  | none => rfl
  | some failure =>
      obtain ⟨t, reason, cause, ht, hblocked, hget', -⟩ := h.label_eq_some.mp hlabel
      rw [hget, ht] at hget'
      have hstatus := congrArg (Option.map Task.status) hget'
      simp [Task.skippedWith, hblocked] at hstatus

/-- What a blocked task hears in the labels is what puts it out in the state they
describe. -/
theorem hears_iff (h : PutOut now m m') (ht : m.get id = some t) (hblocked : t.status = .blocked) :
    Spread.Hears (StruckIn m now) (WaitsIn m) (putOutLabel m m') failure id ↔
      ∃ cause, UnreachableFor m' t now cause ∧ cause.carriesFailure = failure := by
  constructor
  · rintro (⟨t₀, cause, ht₀, -, ⟨d, hd, dep, hdep, hjudge⟩, hfailure⟩ |
      ⟨d, ⟨t₀, dep, ht₀, -, hd, htolerance, hdep, -⟩, hlabel⟩)
    · rw [ht] at ht₀
      cases ht₀
      refine ⟨cause, ⟨d, hd, dep, ?_, hjudge⟩, hfailure⟩
      rcases h d with hget | ⟨dep₀, -, -, hdep₀, hb₀, -⟩
      · rw [hget, hdep]
      · rw [hdep] at hdep₀
        cases hdep₀
        exact absurd hb₀ (Job.not_blocked_of_judge hjudge (by simp))
    · rw [ht] at ht₀
      cases ht₀
      obtain ⟨dep₀, reason, cause, -, -, hget, -, hfailure⟩ := h.label_eq_some.mp hlabel
      refine ⟨if cause.carriesFailure then .failedDependency else .skippedDependency,
        ⟨d, hd, _, hget, ?_⟩, ?_⟩
      · exact Task.judgeDependency_eq_skipped.mpr (Or.inr ⟨htolerance, cause, rfl, rfl⟩)
      · rw [← hfailure]
        cases cause <;> rfl
  · rintro ⟨cause, ⟨d, hd, dep, hdep, hjudge⟩, hfailure⟩
    rcases h d with hget | ⟨dep₀, reason, cause₀, hdep₀, hb₀, hget, hcause₀⟩
    · exact Or.inl ⟨t, cause, ht, hblocked, ⟨d, hd, dep, hget ▸ hdep, hjudge⟩, hfailure⟩
    · rw [hget] at hdep
      cases hdep
      rcases Task.judgeDependency_eq_skipped.mp hjudge with ⟨hterminal, -⟩ |
        ⟨htolerance, c, hs, rfl⟩
      · have hfailed := (Task.isTerminallyFailedAt_eq_true.mp hterminal).1
        simp [Task.skippedWith] at hfailed
      · obtain rfl : cause₀ = c := by simpa [Task.skippedWith] using hs
        refine Or.inr ⟨d, ⟨t, dep₀, ht, hblocked, hd, htolerance, hdep₀, hb₀⟩, ?_⟩
        refine h.label_eq_some.mpr ⟨dep₀, reason, cause₀, hdep₀, hb₀, hget, hcause₀, ?_⟩
        rw [← hfailure]
        cases cause₀ <;> rfl

/-- Only a blocked task hears anything. -/
theorem blocked_of_hears {label : Uuid → Option Bool}
    (h : Spread.Hears (StruckIn m now) (WaitsIn m) label failure id) :
    ∃ t, m.get id = some t ∧ t.status = .blocked := by
  rcases h with ⟨t, -, ht, hblocked, -⟩ | ⟨-, ⟨t, -, ht, hblocked, -⟩, -⟩
  · exact ⟨t, ht, hblocked⟩
  · exact ⟨t, ht, hblocked⟩

/-- A generation of the cascade puts out some more. -/
theorem generation (h : PutOut now m m₁) (hgen : Generation now m₁ m') : PutOut now m m' := by
  intro id
  rcases h id with hget | ⟨t, reason, cause, ht, hblocked, hget, hcause⟩
  · cases ht : m.get id with
    | none =>
        left
        rw [hgen.kept id (by simp [hget, ht]), hget, ht]
    | some t =>
        rw [ht] at hget
        by_cases hhit : t.status = .blocked ∧ ∃ cause, UnreachableFor m₁ t now cause
        · obtain ⟨reason, cause, hout, hunreachable, -⟩ := hgen.hit id t hget hhit.1 hhit.2
          exact Or.inr ⟨t, reason, cause, rfl, hhit.1, hout, hunreachable.ne_executorDecision⟩
        · rcases hgen.get_eq_some hget with hsame | ⟨hb, hunreachable, -⟩
          · exact Or.inl hsame
          · exact absurd ⟨hb, hunreachable⟩ hhit
  · rcases hgen.get_eq_some hget with hsame | ⟨hb, -⟩
    · exact Or.inr ⟨t, reason, cause, ht, hblocked, hsame, hcause⟩
    · simp [Task.skippedWith] at hb

end PutOut

/-- A generation of the cascade is a round of the signal. -/
theorem Generation.round {now : Nat} {m m₁ m' : TaskMap} (hput : PutOut now m m₁)
    (hgen : Generation now m₁ m') :
    Spread.Round (StruckIn m now) (WaitsIn m) (putOutLabel m m₁) (putOutLabel m m') where
  hit := by
    rintro id hlabel ⟨failure, hears⟩
    obtain ⟨t, ht, hblocked⟩ := PutOut.blocked_of_hears hears
    have ht₁ : m₁.get id = some t := (hput.get_of_label_none hlabel).trans ht
    obtain ⟨c, hc, -⟩ := (hput.hears_iff ht hblocked).mp hears
    obtain ⟨reason, cause, hout, hunreachable, hstrong⟩ := hgen.hit id t ht₁ hblocked ⟨c, hc⟩
    refine ⟨cause.carriesFailure, ?_, ?_⟩
    · exact (hput.generation hgen).label_eq_some.mpr
        ⟨t, reason, cause, ht, hblocked, hout, hunreachable.ne_executorDecision, rfl⟩
    · rw [hput.hears_iff ht hblocked]
      constructor
      · intro hfailure
        exact ⟨cause, hunreachable, hfailure⟩
      · rintro ⟨c', hc', hfailure⟩
        obtain rfl : c' = .failedDependency := by
          cases c' <;> simp [SkipCause.carriesFailure] at hfailure ⊢
        rw [hstrong hc']
        rfl
  idle := by
    intro id hlabel hsilent
    have hsame := hput.get_of_label_none hlabel
    refine (hput.generation hgen).label_of_get ?_
    rw [hgen.kept id, hsame]
    intro t ht hblocked cause hcause
    rw [hsame] at ht
    exact hsilent cause.carriesFailure
      ((hput.hears_iff ht hblocked).mpr ⟨cause, hcause, rfl⟩)
  kept := by
    intro id failure hlabel
    obtain ⟨t, reason, cause, ht, hblocked, hget, hcause⟩ := hput.label_eq_some.mp hlabel
    rcases hgen.get_eq_some hget with hsame | ⟨hb, -⟩
    · exact (hput.generation hgen).label_eq_some.mpr
        ⟨t, reason, cause, ht, hblocked, hsame, hcause⟩
    · simp [Task.skippedWith] at hb

/-- Generations put out what a signal reaches in as many rounds. -/
theorem generations_labels {now : Nat} {m m' : TaskMap}
    (h : Relation.ReflTransGen (Generation now) m m') :
    PutOut now m m' ∧
      ∃ n, Spread.Labels (StruckIn m now) (WaitsIn m) n (putOutLabel m m') := by
  induction h with
  | refl =>
      refine ⟨.refl, 0, ?_⟩
      have hnone : putOutLabel m m = fun _ => none := by
        funext id
        exact (PutOut.refl : PutOut now m m).label_of_get rfl
      rw [hnone]
      exact Spread.labels_zero
  | tail _ hgen ih =>
      obtain ⟨hput, n, hlabels⟩ := ih
      exact ⟨hput.generation hgen, n + 1, hlabels.round (hgen.round hput)⟩

/-- Generations to the last put out what the routes of the state they begin with say. -/
theorem generations_final {now : Nat} {m m' : TaskMap}
    (h : Relation.ReflTransGen (Generation now) m m')
    (hdone : ∀ id t, m'.get id = some t → t.status = .blocked →
      ∀ cause, ¬ UnreachableFor m' t now cause) :
    PutOut now m m' ∧ Spread.Final (StruckIn m now) (WaitsIn m) (putOutLabel m m') := by
  obtain ⟨hput, n, hlabels⟩ := generations_labels h
  refine ⟨hput, hlabels.final ?_⟩
  intro id failure hlabel hears
  obtain ⟨t, ht, hblocked⟩ := PutOut.blocked_of_hears hears
  obtain ⟨cause, hcause, -⟩ := (hput.hears_iff ht hblocked).mp hears
  exact hdone id t ((hput.get_of_label_none hlabel).trans ht) hblocked cause hcause

/-! ## The least fixpoint -/

/-- The tasks that were blocked in one state and are skipped in another. -/
def newlySkipped (m m' : TaskMap) : Set Uuid :=
  {id | ∃ t t' cause, m.get id = some t ∧ t.status = .blocked ∧ m'.get id = some t' ∧
    t'.status = .skipped cause}

/-- A set of blocked tasks that holds every blocked task with a dependency that is
terminally failed, or is skipped already or in the set, and is not tolerated. -/
structure CascadeClosed (m : TaskMap) (now : Nat) (s : Set Uuid) : Prop where
  blocked : ∀ id ∈ s, ∃ t, m.get id = some t ∧ t.status = .blocked
  failed : ∀ id t d dep, m.get id = some t → t.status = .blocked → d ∈ t.dependsOn →
    m.get d = some dep → dep.isTerminallyFailedAt now = true →
    t.tolerance.allowsFailed = false → id ∈ s
  skipped : ∀ id t d dep, m.get id = some t → t.status = .blocked → d ∈ t.dependsOn →
    m.get d = some dep → (dep.isSkipped = true ∨ d ∈ s) →
    t.tolerance.allowsSkipped = false → id ∈ s

/-- A skipped task has a cause. -/
theorem Task.isSkipped_eq_true {t : Task} :
    t.isSkipped = true ↔ ∃ cause, t.status = .skipped cause := by
  unfold Task.isSkipped
  rw [Option.isSome_iff_exists]
  simp only [Task.skipCause_eq_some]

/-- The tasks put out are those that bear a label. -/
theorem newlySkipped_eq (m m' : TaskMap) :
    newlySkipped m m' = {id | putOutLabel m m' id ≠ none} := by
  ext id
  rw [newlySkipped, Set.mem_ofPred_eq, Set.mem_ofPred_eq]
  constructor
  · rintro ⟨t, t', cause, ht, hblocked, ht', hs⟩
    simp [putOutLabel, ht, hblocked, ht', Task.skipCause, hs]
  · intro hlabel
    unfold putOutLabel at hlabel
    split at hlabel
    · exact absurd rfl hlabel
    · rename_i t ht
      split at hlabel <;> rename_i hblocked
      · cases ht' : m'.get id with
        | none => simp [ht'] at hlabel
        | some t' =>
            cases hcause : t'.skipCause with
            | none => simp [ht', hcause] at hlabel
            | some cause =>
                exact ⟨t, t', cause, ht, hblocked, rfl, Task.skipCause_eq_some.mp hcause⟩
      · exact absurd rfl hlabel

/-- The cascade's closed sets are those of the signal that hold blocked tasks only. -/
theorem cascadeClosed_iff {m : TaskMap} {now : Nat} {s : Set Uuid} :
    CascadeClosed m now s ↔ Spread.Closed (StruckIn m now) (WaitsIn m) s ∧
      ∀ id ∈ s, ∃ t, m.get id = some t ∧ t.status = .blocked := by
  constructor
  · intro h
    refine ⟨⟨?_, ?_⟩, h.blocked⟩
    · rintro failure id ⟨t, cause, ht, hblocked, ⟨d, hd, dep, hdep, hjudge⟩, -⟩
      rcases Task.judgeDependency_eq_skipped.mp hjudge with ⟨hterminal, htolerance, -⟩ |
        ⟨htolerance, c, hs, -⟩
      · exact h.failed id t d dep ht hblocked hd hdep hterminal htolerance
      · exact h.skipped id t d dep ht hblocked hd hdep
          (Or.inl (Task.isSkipped_eq_true.mpr ⟨c, hs⟩)) htolerance
    · rintro d id ⟨t, dep, ht, hblocked, hd, htolerance, hdep, -⟩ hmem
      exact h.skipped id t d dep ht hblocked hd hdep (Or.inr hmem) htolerance
  · rintro ⟨⟨hstruck, hwaits⟩, hblockedOf⟩
    refine ⟨hblockedOf, ?_, ?_⟩
    · intro id t d dep ht hblocked hd hdep hterminal htolerance
      refine hstruck true id ⟨t, .failedDependency, ht, hblocked, ⟨d, hd, dep, hdep, ?_⟩, rfl⟩
      exact Task.judgeDependency_eq_skipped.mpr (Or.inl ⟨hterminal, htolerance, rfl⟩)
    · intro id t d dep ht hblocked hd hdep hskipped htolerance
      rcases hskipped with hskipped | hmem
      · obtain ⟨c, hs⟩ := Task.isSkipped_eq_true.mp hskipped
        have hjudge : t.judgeDependency dep now =
            .skipped (if c.carriesFailure then .failedDependency else .skippedDependency) :=
          Task.judgeDependency_eq_skipped.mpr (Or.inr ⟨htolerance, c, hs, rfl⟩)
        exact hstruck _ id ⟨t, _, ht, hblocked, ⟨d, hd, dep, hdep, hjudge⟩, rfl⟩
      · obtain ⟨dep', hdep', hb⟩ := hblockedOf d hmem
        exact hwaits d id ⟨t, dep', ht, hblocked, hd, htolerance, hdep', hb⟩ hmem

section Final

variable {now : Nat} {m m' m₂ m₂' : TaskMap}

/-- Where no task is left to put out, the least closed set has been. -/
theorem isLeast_newlySkipped
    (hfinal : Spread.Final (StruckIn m now) (WaitsIn m) (putOutLabel m m')) :
    IsLeast {s | CascadeClosed m now s} (newlySkipped m m') := by
  have hleast := hfinal.isLeast_labelled
  rw [← newlySkipped_eq] at hleast
  constructor
  · refine cascadeClosed_iff.mpr ⟨hleast.1, ?_⟩
    rintro id ⟨t, t', cause, ht, hblocked, -⟩
    exact ⟨t, ht, hblocked⟩
  · intro s hs
    exact hleast.2 (cascadeClosed_iff.mp hs).1

/-- A task that was put out is one blocked task less. -/
theorem ncard_newlySkipped (hput : PutOut now m m') :
    (newlySkipped m m').ncard + (blockedIds m').card = (blockedIds m).card := by
  have hsub : blockedIds m' ⊆ blockedIds m := by
    intro id hid
    obtain ⟨t, ht, hblocked⟩ := mem_blockedIds.mp hid
    rcases hput id with hget | ⟨t₀, reason, cause, -, -, hget, -⟩
    · exact mem_blockedIds.mpr ⟨t, hget ▸ ht, hblocked⟩
    · rw [ht] at hget
      cases hget
      cases hblocked
  have heq : newlySkipped m m' = ↑(blockedIds m \ blockedIds m') := by
    ext id
    rw [Finset.mem_coe, Finset.mem_sdiff, mem_blockedIds, mem_blockedIds]
    constructor
    · rintro ⟨t, t', cause, ht, hblocked, ht', hs⟩
      refine ⟨⟨t, ht, hblocked⟩, ?_⟩
      rintro ⟨t'', ht'', hb⟩
      rw [ht'] at ht''
      cases ht''
      rw [hs] at hb
      cases hb
    · rintro ⟨⟨t, ht, hblocked⟩, hnot⟩
      rcases hput id with hget | ⟨t₀, reason, cause, -, -, hget, -⟩
      · exact absurd ⟨t, hget ▸ ht, hblocked⟩ hnot
      · exact ⟨t, _, cause, ht, hblocked, hget, rfl⟩
  rw [heq, Set.ncard_coe_finset, Finset.card_sdiff_of_subset hsub]
  have := Finset.card_le_card hsub
  omega

/-- The two causes of the cascade differ in whether they carry a failure. -/
theorem eq_of_carriesFailure {c c' : SkipCause} (h : c ≠ .executorDecision)
    (h' : c' ≠ .executorDecision) (heq : c.carriesFailure = c'.carriesFailure) : c = c' := by
  cases c <;> cases c' <;> simp_all [SkipCause.carriesFailure]

/-- States with the same entries are put out the same way. -/
theorem status_eq_of_get_eq (hget : ∀ id, m₂.get id = m.get id) (hput : PutOut now m m')
    (hfinal : Spread.Final (StruckIn m now) (WaitsIn m) (putOutLabel m m'))
    (hput₂ : PutOut now m₂ m₂')
    (hfinal₂ : Spread.Final (StruckIn m₂ now) (WaitsIn m₂) (putOutLabel m₂ m₂')) (id : Uuid) :
    (m₂'.get id).map Task.status = (m'.get id).map Task.status := by
  have hstruck : StruckIn m₂ now = StruckIn m now := by
    funext failure id
    simp only [StruckIn, UnreachableFor, hget]
  have hwaits : WaitsIn m₂ = WaitsIn m := by
    funext d id
    simp only [WaitsIn, hget]
  rw [hstruck, hwaits] at hfinal₂
  have hlabel := congrFun (hfinal₂.unique hfinal) id
  cases h : putOutLabel m m' id with
  | none =>
      rw [h] at hlabel
      rw [hput.get_of_label_none h, hput₂.get_of_label_none hlabel, hget]
  | some failure =>
      rw [h] at hlabel
      obtain ⟨t, reason, cause, -, -, hout, hne, hcause⟩ := hput.label_eq_some.mp h
      obtain ⟨t₂, reason₂, cause₂, -, -, hout₂, hne₂, hcause₂⟩ := hput₂.label_eq_some.mp hlabel
      obtain rfl := eq_of_carriesFailure hne hne₂ (hcause.trans hcause₂.symm)
      rw [hout, hout₂]
      rfl

theorem blockedIds_eq_of_status_eq
    (h : ∀ id, (m₂.get id).map Task.status = (m.get id).map Task.status) :
    blockedIds m₂ = blockedIds m := by
  have hiff : ∀ (m : TaskMap) id, id ∈ blockedIds m ↔
      (m.get id).map Task.status = some .blocked := by
    intro m id
    rw [mem_blockedIds, Option.map_eq_some_iff]
  ext id
  rw [hiff, hiff, h id]

end Final

namespace Job

theorem findUnreachableTasks_eq_nil {job : Job} {now : Nat}
    (hdone : ∀ id t, job.task? id = some t → t.status = .blocked →
      ∀ cause, ¬ UnreachableFor job.tasksById t now cause) :
    job.findUnreachableTasks now = [] := by
  rw [findUnreachableTasks, List.filterMap_eq_nil_iff]
  intro t ht
  obtain ⟨hmem, hblocked⟩ := List.mem_filter.mp ht
  exact findUnreachableDependencyOf_eq_none.mpr
    (hdone t.id t (mem_tasks_iff.mp hmem) (by simpa [Task.isBlocked] using hblocked))

/-- The cascade over every graph and every assignment of states: it ends without an error
however much fuel it is given, it puts out the least set of blocked tasks closed under
having a failed or skipped dependency that is not tolerated, and nothing else changes; it
counts what it puts out, and a second pass finds nothing.  The unblocking that follows
leaves no blocked task that could be released or put out.  Neither the order of the task
map nor that of a generation matters. -/
theorem skipUnreachableTasks_isLeast (job : Job) (now : Nat) :
    ∃ n m', skipUnreachableTasks now job = (.ok n, job.withTasks m') ∧
      (∀ fuel, job.tasksById.size < fuel →
        skipGenerations now job.indexBlockedDependents fuel (job.findUnreachableTasks now) 0 job =
          (.ok n, job.withTasks m')) ∧
      IsLeast {s | CascadeClosed job.tasksById now s} (newlySkipped job.tasksById m') ∧
      n = (newlySkipped job.tasksById m').ncard ∧
      (∀ id, id ∉ newlySkipped job.tasksById m' → m'.get id = job.task? id) ∧
      skipUnreachableTasks now (job.withTasks m') = (.ok 0, job.withTasks m') ∧
      (∃ m'', unblockSatisfiedTasks now (job.withTasks m') = (.ok (), job.withTasks m'') ∧
        ∀ id t, m''.get id = some t → t.status = .blocked →
          ¬ Satisfied m'' t now ∧ ∀ cause, ¬ UnreachableFor m'' t now cause) ∧
      ∀ (job₂ : Job) (arrange : Nat → List UnreachableTask → List UnreachableTask),
        (∀ id, job₂.task? id = job.task? id) → (∀ count us, (arrange count us).Perm us) →
        ∃ m₂, skipUnreachableTasksIn arrange now job₂ = (.ok n, job₂.withTasks m₂) ∧
          ∀ id, (m₂.get id).map Task.status = (m'.get id).map Task.status := by
  obtain ⟨n, m', hloop, hn, -, hgens, hdone⟩ := skipUnreachableTasksIn_spec 0 now job
    (fun _ us => List.Perm.refl us)
  obtain ⟨hput, hfinal⟩ := generations_final hgens hdone
  have hfuel : ∀ fuel, job.tasksById.size < fuel →
      skipGenerations now job.indexBlockedDependents fuel (job.findUnreachableTasks now) 0 job =
        (.ok n, job.withTasks m') := by
    intro fuel hlt
    rw [← hloop fuel hlt, skipGenerationsIn_id]
  obtain ⟨m'', hunblock, -, hrelease⟩ := unblockSatisfiedTasks_spec 0 now (job.withTasks m')
  have hsettled := settled_of_release hdone hrelease
  refine ⟨n, m', hfuel _ (Nat.lt_succ_self _), hfuel, isLeast_newlySkipped hfinal, ?_, ?_,
    ?_, ⟨m'', hunblock, ?_⟩, ?_⟩
  · have := ncard_newlySkipped hput
    omega
  · intro id hid
    rw [newlySkipped_eq, Set.mem_ofPred_eq, not_not] at hid
    exact hput.get_of_label_none hid
  · have hnil : (job.withTasks m').findUnreachableTasks now = [] :=
      findUnreachableTasks_eq_nil hdone
    rw [skipUnreachableTasks, Mutation.current_bind_apply, hnil]
    rfl
  · intro id t ht hblocked
    exact ⟨hsettled.unsatisfied id t ht hblocked, hsettled.reachable id t ht hblocked⟩
  · intro job₂ arrange hsame harrange
    obtain ⟨n₂, m₂, hloop₂, hn₂, -, hgens₂, hdone₂⟩ :=
      skipUnreachableTasksIn_spec 0 now job₂ harrange
    obtain ⟨hput₂, hfinal₂⟩ := generations_final hgens₂ hdone₂
    have hstatus := status_eq_of_get_eq hsame hput hfinal hput₂ hfinal₂
    have hbefore : blockedIds job₂.tasksById = blockedIds job.tasksById :=
      blockedIds_eq_of_status_eq fun id => congrArg _ (hsame id)
    have hafter := blockedIds_eq_of_status_eq hstatus
    rw [hbefore, hafter] at hn₂
    obtain rfl : n₂ = n := by omega
    exact ⟨m₂, hloop₂ _ (Nat.lt_succ_self _), hstatus⟩

end Job

/-! ## The strongest cause -/

/-- Some dependency hands the task a failure: it is terminally failed, or skipped for a
failure of its own, and this is not tolerated. -/
def HandsFailure (m : TaskMap) (t : Task) (now : Nat) : Prop :=
  ∃ d ∈ t.dependsOn, ∃ dep, m.get d = some dep ∧
    ((dep.isTerminallyFailedAt now = true ∧ t.tolerance.allowsFailed = false) ∨
      (dep.status = .skipped .failedDependency ∧ t.tolerance.allowsSkipped = false))

/-- Every task put out between two states is skipped for a failed dependency if one of its
dependencies hands it a failure in the end, and for a skipped one otherwise. -/
def TakesStrongestCauses (m m' : TaskMap) (now : Nat) : Prop :=
  ∀ id t', id ∈ newlySkipped m m' → m'.get id = some t' →
    (HandsFailure m' t' now → t'.status = .skipped .failedDependency) ∧
      (¬ HandsFailure m' t' now → t'.status = .skipped .skippedDependency)

/-- A failure takes no detour: wherever a chain of blocked tasks hands one down, one does
that is no longer than any other chain that leads there. -/
def FailuresTakeNoDetour (m : TaskMap) (now : Nat) : Prop :=
  ∀ id length, HandedDown m now true length id →
    ∀ failure n, HandedDown m now failure n id → ∃ j ≤ n, HandedDown m now true j id

theorem handsFailure_iff {m : TaskMap} {t : Task} {now : Nat} :
    HandsFailure m t now ↔ ∃ cause, UnreachableFor m t now cause ∧ cause.carriesFailure = true := by
  constructor
  · rintro ⟨d, hd, dep, hdep, ⟨hterminal, htolerance⟩ | ⟨hs, htolerance⟩⟩
    · refine ⟨.failedDependency, ⟨d, hd, dep, hdep, ?_⟩, rfl⟩
      exact Task.judgeDependency_eq_skipped.mpr (Or.inl ⟨hterminal, htolerance, rfl⟩)
    · refine ⟨.failedDependency, ⟨d, hd, dep, hdep, ?_⟩, rfl⟩
      exact Task.judgeDependency_eq_skipped.mpr (Or.inr ⟨htolerance, _, hs, rfl⟩)
  · rintro ⟨cause, ⟨d, hd, dep, hdep, hjudge⟩, hfailure⟩
    refine ⟨d, hd, dep, hdep, ?_⟩
    rcases Task.judgeDependency_eq_skipped.mp hjudge with ⟨hterminal, htolerance, -⟩ |
      ⟨htolerance, c, hs, rfl⟩
    · exact Or.inl ⟨hterminal, htolerance⟩
    · cases c <;> simp [SkipCause.carriesFailure] at hfailure
      exact Or.inr ⟨hs, htolerance⟩

theorem handsFailure_skippedWith {m : TaskMap} {t : Task} {now : Nat} {reason : String}
    {cause : SkipCause} :
    HandsFailure m (t.skippedWith reason cause now) now ↔ HandsFailure m t now := Iff.rfl

/-- Causes are the strongest exactly if the labels are. -/
theorem takesStrongestCauses_iff {m m' : TaskMap} {now : Nat} (hput : PutOut now m m') :
    TakesStrongestCauses m m' now ↔
      ∀ id failure, putOutLabel m m' id = some failure →
        (failure = true ↔
          Spread.Hears (StruckIn m now) (WaitsIn m) (putOutLabel m m') true id) := by
  constructor
  · intro h id failure hlabel
    obtain ⟨t, reason, cause, ht, hblocked, hget, -, rfl⟩ := hput.label_eq_some.mp hlabel
    obtain ⟨hfailed, hskipped⟩ := h id _ ⟨t, _, cause, ht, hblocked, hget, rfl⟩ hget
    rw [hput.hears_iff ht hblocked, ← handsFailure_iff]
    rw [handsFailure_skippedWith] at hfailed hskipped
    by_cases hands : HandsFailure m' t now
    · obtain rfl : cause = .failedDependency := by
        simpa [Task.skippedWith] using hfailed hands
      simp [hands, SkipCause.carriesFailure]
    · obtain rfl : cause = .skippedDependency := by
        simpa [Task.skippedWith] using hskipped hands
      simp [hands, SkipCause.carriesFailure]
  · intro h id t' hnew hget
    rw [newlySkipped_eq] at hnew
    obtain ⟨failure, hlabel⟩ := Option.ne_none_iff_exists'.mp hnew
    have hstrong := h id failure hlabel
    obtain ⟨t, reason, cause, ht, hblocked, hout, hne, rfl⟩ := hput.label_eq_some.mp hlabel
    rw [hput.hears_iff ht hblocked, ← handsFailure_iff] at hstrong
    rw [hget] at hout
    cases hout
    rw [handsFailure_skippedWith]
    constructor
    · intro hands
      have hfailure := hstrong.mpr hands
      cases cause <;> simp [SkipCause.carriesFailure] at hfailure
      rfl
    · intro hands
      have hfailure := mt hstrong.mp hands
      cases cause <;> simp_all [SkipCause.carriesFailure, Task.skippedWith]

namespace Job

/-- Over every graph, what the cascade puts out takes the strongest cause its dependencies
end up with exactly if no failure takes a detour in the state the cascade begins with. -/
theorem strongestCauses_iff (job : Job) (now : Nat) :
    (∃ n m', skipUnreachableTasks now job = (.ok n, job.withTasks m') ∧
      TakesStrongestCauses job.tasksById m' now) ↔
      FailuresTakeNoDetour job.tasksById now := by
  obtain ⟨n, m', hskip, -, hgens, hdone⟩ := skipUnreachableTasks_spec 0 now job
  obtain ⟨hput, hfinal⟩ := generations_final hgens hdone
  have hiff : TakesStrongestCauses job.tasksById m' now ↔
      FailuresTakeNoDetour job.tasksById now :=
    (takesStrongestCauses_iff hput).trans hfinal.strongest_iff
  constructor
  · rintro ⟨n₀, m₀, hskip₀, hcauses⟩
    rw [hskip, Prod.mk.injEq] at hskip₀
    obtain rfl : m' = m₀ := congrArg Job.tasksById hskip₀.2
    exact hiff.mp hcauses
  · intro hroutes
    exact ⟨n, m', hskip, hiff.mpr hroutes⟩

end Job

/-! ## A decision that outruns a failure -/

/-- A task that has not been touched, of the given identifier, state and dependencies. -/
def bareTask (id : Uuid) (status : TaskStatus) (dependsOn : List Uuid) : Task :=
  { Task.new id 0 none (.new "task" 1000) dependsOn with status := status }

/-- Task 4 waits for task 1, skipped by its executor, and for task 3, which waits for task
2, failed for good. -/
def detourJob : Job where
  id := 9
  code := "job"
  iterNum := 1
  status := .running
  tasksById := KeyedMap.empty.insertAll
    [bareTask 1 (.skipped .executorDecision) [],
      { bareTask 2 .failed [] with retry := .never },
      bareTask 3 .blocked [2], bareTask 4 .blocked [1, 3]]
  updatedByWorkerId := 0
  startedAt := 0
  runningAt := some 0
  completedAt := none
  nextStartAt := none
  metadata := []
  version := ""
  maxIterations := none
  iterationInterval := none
  taskLimits := ⟨1024, 1024⟩

theorem detourJob_ranked : DependenciesRanked (fun id => id) detourJob.tasksById := by
  intro id t ht d hd
  have hbelow : ∀ t ∈ detourJob.tasksById.values, ∀ d ∈ t.dependsOn, d < t.id := by decide
  rw [← KeyedMap.key_of_get ht]
  exact hbelow t (KeyedMap.mem_values_of_get ht) d hd

theorem detourJob_closed : DependenciesClosed detourJob.tasksById := by
  intro id t ht d hd
  have hheld : ∀ t ∈ detourJob.tasksById.values, ∀ d ∈ t.dependsOn,
      (detourJob.tasksById.get d).isSome := by decide
  exact Option.isSome_iff_exists.mp (hheld t (KeyedMap.mem_values_of_get ht) d hd)

/-- Over an acyclic graph a decision one step away outruns a failure two steps away: the
task they both reach is skipped for the decision, though it ends up with a dependency that
hands it the failure. -/
theorem decision_outruns_failure :
    Acyclic detourJob.tasksById ∧
      ¬ ∃ n m', Job.skipUnreachableTasks 5 detourJob = (.ok n, detourJob.withTasks m') ∧
        TakesStrongestCauses detourJob.tasksById m' 5 := by
  refine ⟨acyclic_of_ranked detourJob_ranked, ?_⟩
  rintro ⟨n, m', hskip, hcauses⟩
  obtain rfl : (Job.skipUnreachableTasks 5 detourJob).2.tasksById = m' := by rw [hskip]; rfl
  have hthird : ((Job.skipUnreachableTasks 5 detourJob).2.tasksById.get 3).map Task.status =
      some (.skipped .failedDependency) := by decide
  have hfourth : ((Job.skipUnreachableTasks 5 detourJob).2.tasksById.get 4).map
      (fun t => (t.status, t.dependsOn, t.tolerance)) =
      some (.skipped .skippedDependency, [1, 3], {}) := by decide
  obtain ⟨t₃, ht₃, hs₃⟩ := Option.map_eq_some_iff.mp hthird
  obtain ⟨t₄, ht₄, hs₄⟩ := Option.map_eq_some_iff.mp hfourth
  simp only [Prod.mk.injEq] at hs₄
  obtain ⟨hs₄, hdeps, htolerance⟩ := hs₄
  have hnew : 4 ∈ newlySkipped detourJob.tasksById
      (Job.skipUnreachableTasks 5 detourJob).2.tasksById :=
    ⟨bareTask 4 .blocked [1, 3], t₄, _, by decide, rfl, ht₄, hs₄⟩
  have hands : HandsFailure (Job.skipUnreachableTasks 5 detourJob).2.tasksById t₄ 5 :=
    ⟨3, by simp [hdeps], t₃, ht₃, Or.inr ⟨hs₃, by rw [htolerance]⟩⟩
  have hstrong := (hcauses 4 t₄ hnew ht₄).1 hands
  rw [hs₄] at hstrong
  cases hstrong

end JobManager
