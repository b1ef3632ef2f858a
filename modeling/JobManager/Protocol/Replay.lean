import JobManager.Protocol.Linear
import JobManager.Storage.InMemory
import JobManager.Storage.ObjectStorage

/-!
# One run, two storages

Every job of a registry is worked on by its own workers, in any interleaving, and every
call of a worker is made of both storages: of the object storage under the versions the
worker holds, and of the in-memory storage under that storage's names for these versions.
The object storage keeps one object an iteration, the other the newest iteration alone;
that they take the same saves follows from the histories the protocol leaves.

Main results:

- Theorem {lit}`accepts_creation`, {lit}`accepts_replacement`: when a save is taken, told
  from the latest version alone.
- Theorem {lit}`Mirrors.save`: a save both storages take leaves them mirroring the history.
- Theorem {lit}`reachable_mirrors`: what the two storages hold in every reachable replay.
-/

namespace JobManager

variable {κ : Clocks}

/-! ## Copies of one job -/

/-- Every copy a worker holds is one of the job. -/
def Phase.OfCode (code : String) : Phase → Prop
  | .idle => True
  | .missing => True
  | .loaded job => job.code = code
  | .executing job _ => job.code = code
  | .saving job _ => job.code = code
  | .conflicted job _ => job.code = code
  | .merging job saved _ => job.code = code ∧ saved.code = code

/-- Everything stored and everything held is of the job. -/
structure OfCode (code : String) (s : System) : Prop where
  entries : ∀ e ∈ s.history, e.state.code = code
  workers : ∀ w, (s.workers w).phase.OfCode code

section Codes

variable {jobDef : JobDefinition} {g : Pedigree} {s s' : System} {w : Uuid}

theorem OfCode.moves (hinv : Inv κ jobDef g s) (h : OfCode jobDef.code s) {p' : Phase}
    {action : WorkerAction} {ids : List Uuid}
    (hmoves : Moves κ jobDef s w (s.workers w).phase action p' ids) : p'.OfCode jobDef.code := by
  have hcode := h.workers w
  have hok := hinv.workers w
  have hstored : ∀ {n e job}, s.history.readable n = some e → s.history.Serves jobDef e job →
      job.code = jobDef.code := by
    intro n e job hread hserves
    rcases hserves with rfl | ⟨e', he', -, -, rfl⟩
    · exact h.entries e (current_mem (readable_current hread).1).1
    · exact h.entries e' he'
  generalize (s.workers w).phase = p at hmoves hcode hok
  cases hmoves with
  | idle => trivial
  | missing _ => trivial
  | read hread hserves => exact hstored hread hserves
  | create _ _ hplanned _ => exact hplanned.code
  | advance _ _ _ _ _ hplanned _ => exact hplanned.code
  | start _ _ _ _ _ _ hframe _ => exact hframe.code.trans hcode
  | settle _ _ _ hframe _ _ _ _ => exact hframe.code.trans hcode
  | refused => exact hcode
  | reread hread hserves => exact ⟨hcode, hstored hread hserves⟩
  | adopt _ => exact hcode.2
  | mergeStart _ _ _ _ _ _ _ _ _ _ _ hframe _ _ => exact hframe.code.trans hcode.2
  | mergeResult _ _ _ _ _ _ hframe _ hfrom _ =>
      exact hfrom.frame.code.trans (hframe.code.trans hcode.2)
  | call _ _ hfresh hserve => exact (call_worked hok.1 hfresh hserve).frame.code.trans hcode
  | callRefused => exact hcode
  | finish _ _ _ _ hworked hfrom =>
      exact hfrom.frame.code.trans (hworked.frame.code.trans hcode)

theorem OfCode.step (hinv : Inv κ jobDef g s) (h : OfCode jobDef.code s) {a : Action}
    (hstep : step κ jobDef s a = some s') : OfCode jobDef.code s' := by
  rcases step_cases hstep with ⟨elapsed, -, rfl⟩ | ⟨w, action, phase, ids, -, hmoves, rfl⟩ |
    ⟨w, version, delivered, job, purpose, -, hphase, -, -, rfl⟩
  · exact ⟨h.entries, h.workers⟩
  · refine ⟨h.entries, fun w' => ?_⟩
    by_cases hw : w' = w
    · subst hw
      rw [System.enter_self]
      exact h.moves hinv hmoves
    · rw [System.enter_of_ne _ _ _ _ hw]
      exact h.workers w'
  · have hcode := h.workers w
    rw [hphase] at hcode
    refine ⟨fun e he => ?_, fun w' => ?_⟩
    · rcases List.mem_cons.mp he with rfl | he
      · exact hcode
      · exact h.entries e he
    · by_cases hw : w' = w
      · subst hw
        rw [System.commit_self]
        cases delivered with
        | false => exact hcode
        | true => cases purpose <;> trivial
      · rw [System.commit_of_ne _ _ _ _ hw]
        exact h.workers w'

theorem reachable_ofCode (hdef : jobDef.WellFormed)
    (h : Reachable (JobManager.step κ jobDef) System.init s) : OfCode jobDef.code s :=
  (reachable_beside hdef ⟨by simp [System.init], fun _ => trivial⟩
    (fun hinv hcode _ hstep => hcode.step hinv hstep) h).2

end Codes

/-! ## Saves and the latest version -/

section Latest

variable {jobDef : JobDefinition} {g : Pedigree} {s : System} {w : Uuid} {job : Job}
  {purpose : Purpose} {c : Entry} {h : History}

/-- The latest version is one of the newest iteration. -/
theorem Linear.newest_head (hdef : jobDef.WellFormed) (hlinear : Linear κ jobDef (c :: h)) :
    (∀ n, (∃ e, History.current (c :: h) n = some e) ↔ 1 ≤ n ∧ n ≤ c.iterNum) ∧
      ∀ n e, History.current (c :: h) n = some e → e.isClosed = false → n = c.iterNum := by
  obtain ⟨k, hnumbers, hopen, -⟩ := hlinear.numbers hdef
  obtain ⟨k', hnumbers', hopen', -⟩ := hlinear.tail.numbers hdef
  have hc := (hnumbers c.iterNum).mp (current_of_mem List.mem_cons_self)
  have hk : k = c.iterNum := by
    by_contra hne
    obtain ⟨e, he⟩ := (hnumbers k).mpr ⟨by omega, Nat.le_refl k⟩
    rw [current_cons, if_neg (by omega)] at he
    have hk' := (hnumbers' k).mp ⟨e, he⟩
    cases hlinear with
    | first hempty _ _ =>
        subst hempty
        cases he
    | next _ _ _ _ habsent _ =>
        obtain ⟨e', he'⟩ := (hnumbers' c.iterNum).mpr ⟨hc.1, by omega⟩
        rw [he'] at habsent
        cases habsent
    | rewrite _ hcurrent hnot _ =>
        have := hopen' _ _ hcurrent hnot
        omega
  subst hk
  exact ⟨hnumbers, hopen⟩

/-- A save of a worker into an empty store creates the first iteration. -/
theorem saving_empty (hinv : Inv κ jobDef g s)
    (hphase : (s.workers w).phase = .saving job purpose) (hempty : s.history = []) :
    job.version = "" ∧ job.iterNum = 1 := by
  have hok := hinv.workers w
  rw [hphase] at hok
  have hbasis := hok.2.2
  have hnone : ∀ {P : Entry → Prop}, ¬∃ e ∈ s.history, P e := by
    intro P hex
    obtain ⟨e, he, -⟩ := hex
    rw [hempty] at he
    cases he
  cases purpose with
  | create => exact ⟨hbasis.1, hbasis.2.2⟩
  | nextIteration readyAt => exact absurd hbasis.2.2 hnone
  | start taskId => exact absurd hbasis.1 hnone
  | result taskId => exact absurd hbasis.1 hnone
  | settle => exact absurd hbasis hnone

/-- A save that creates an iteration is taken when it is the next one. -/
theorem accepts_creation (hdef : jobDef.WellFormed) (hinv : Inv κ jobDef g s)
    (hlinear : Linear κ jobDef s.history) (hphase : (s.workers w).phase = .saving job purpose)
    (hversion : job.version = "") (hlatest : s.history = c :: h) :
    s.history.accepts job = true ↔ c.iterNum + 1 = job.iterNum := by
  have hok := hinv.workers w
  rw [hphase] at hok
  have hbasis := hok.2.2
  have haccepts : s.history.accepts job = true ↔ s.history.current job.iterNum = none := by
    rw [History.accepts]
    cases s.history.current job.iterNum <;> simp [hversion]
  rw [haccepts]
  rw [hlatest] at hlinear ⊢
  obtain ⟨hnumbers, -⟩ := hlinear.newest_head hdef
  have hc := (hnumbers c.iterNum).mp (current_of_mem List.mem_cons_self)
  have habsent : History.current (c :: h) job.iterNum = none ↔
      ¬(1 ≤ job.iterNum ∧ job.iterNum ≤ c.iterNum) := by
    rw [← hnumbers]
    cases History.current (c :: h) job.iterNum <;> simp
  rw [habsent]
  have hcreation := hbasis.isCreation hinv hversion
  cases purpose with
  | create =>
      have hone := hbasis.2.2
      omega
  | nextIteration readyAt =>
      obtain ⟨-, -, e, he, hnext, -⟩ := hbasis
      rw [hlatest] at he
      have hle := (hnumbers e.iterNum).mp (current_of_mem he)
      omega
  | start taskId => cases hcreation
  | result taskId => cases hcreation
  | settle => cases hcreation

/-- A save that replaces a version is taken when that version is the latest of all. -/
theorem accepts_replacement (hdef : jobDef.WellFormed) (hinv : Inv κ jobDef g s)
    (hlinear : Linear κ jobDef s.history) (hphase : (s.workers w).phase = .saving job purpose)
    (hversion : job.version ≠ "") (hlatest : s.history = c :: h) :
    s.history.accepts job = true ↔ c.iterNum = job.iterNum ∧ c.version = job.version := by
  have hok := hinv.workers w
  rw [hphase] at hok
  constructor
  · intro haccepts
    cases hcurrent : s.history.current job.iterNum with
    | none => exact absurd (accepts_absent haccepts hcurrent) hversion
    | some e =>
        -- the version it replaces is open, and only the newest iteration is
        have hbased := replaces_base hinv hok.2.2 haccepts hcurrent
        rw [hlatest] at hlinear hcurrent
        have hnewest := (hlinear.newest_head hdef).2 _ _ hcurrent hbased.isOpen
        rw [current_cons, if_pos hnewest.symm] at hcurrent
        cases hcurrent
        exact ⟨hnewest.symm, hbased.version⟩
  · intro ⟨hiter, hsame⟩
    rw [History.accepts, hlatest, current_cons, if_pos hiter]
    simp [hversion, hsame]

end Latest

/-! ## Replays -/

/-- A run of the jobs of a registry, what both storages hold, and what the in-memory storage
calls each version of the object storage. -/
structure Replay where
  systems : String → System
  objects : ObjectStore
  memory : InMemoryStorage
  names : String → String

namespace Replay

/-- Before anything happened. -/
def init (details : String) : Replay where
  systems := fun _ => .init
  objects := .empty details
  memory := .new
  names := fun _ => ""

/-- The versions of a job the object storage ever held, newest first. -/
def histories (r : Replay) (code : String) : History := (r.systems code).history

/-- The job as a worker of the in-memory storage holds it. -/
def renamed (r : Replay) (job : Job) : Job := job.updateVersion (r.names job.version)

/-- A save is made of both storages, and the object storage answers with the token. -/
def save (paths : JobPaths) (r : Replay) (token : String) (job : Job) : Replay :=
  let answer := (InMemoryStorage.saveJob (r.renamed job) r.memory).1
  { r with
    objects := (ObjectStorage.saveJob paths token job r.objects).2
    memory := (InMemoryStorage.saveJob (r.renamed job) r.memory).2
    names :=
      match answer with
      | .ok saved => Function.update r.names token saved.version
      | .error _ => r.names }

/-- One action of the workers of one job.  Version tokens are unique, and iterations are
numbered in 64 bits. -/
def step (κ : Clocks) (registry : JobRegistry) (paths : JobPaths) (r : Replay) :
    String × Action → Option Replay
  | (code, action) =>
      match registry.jobsByCode.get code with
      | none => none
      | some jobDef =>
          match JobManager.step κ jobDef (r.systems code) action with
          | none => none
          | some s =>
              let moved := { r with systems := Function.update r.systems code s }
              match action with
              | .put w token _ =>
                  match ((r.systems code).workers w).phase with
                  | .saving job _ =>
                      if token ∉ r.objects.issued ∧ job.iterNum ≤ u64Max then
                        some (moved.save paths token job)
                      else none
                  | _ => none
              | _ => some moved

end Replay

/-! ## What the storages hold -/

/-- The object storage holds the current version of every iteration, the in-memory storage the
latest version of all, and the names tell the versions apart. -/
structure Mirrors (paths : JobPaths) (histories : String → History) (store : ObjectStore)
    (memory : InMemoryStorage) (names : String → String) : Prop where
  numbers : ∀ code, ∀ e ∈ histories code, e.iterNum ≤ u64Max
  object : ∀ code, ∀ n ≤ u64Max, store.objects (paths.buildJobIterationPath code n) =
    ((histories code).current n).map fun e => ⟨e.version, e.state⟩
  keys : ∀ key, (store.objects key).isSome →
    ∃ code, ∃ n ≤ u64Max, key = paths.buildJobIterationPath code n
  issued : ∀ code, ∀ e ∈ histories code, e.version ∈ store.issued
  tokens : ∀ code code', ∀ e ∈ histories code, ∀ e' ∈ histories code',
    e.version = e'.version → code = code'
  absent : ∀ code, histories code = [] → memory.jobsByCode code = none
  held : ∀ code e rest, histories code = e :: rest →
    ∃ maxIterations iterationInterval taskLimits, memory.jobsByCode code =
      some (e.state.intoJob maxIterations iterationInterval taskLimits (names e.version))
  named : ∀ code, ∀ e ∈ histories code, ∃ k ≤ memory.versionCounter,
    names e.version = toString k
  distinct : ∀ code code', ∀ e ∈ histories code, ∀ e' ∈ histories code',
    names e.version = names e'.version → e.version = e'.version
  blank : names "" = ""

section Mirrors

variable {paths : JobPaths} {histories : String → History} {store : ObjectStore}
  {memory : InMemoryStorage} {names : String → String} {code : String} {job : Job}

theorem mirrors_init (paths : JobPaths) (details : String) :
    Mirrors paths (fun _ => []) (.empty details) .new (fun _ => "") where
  numbers := by simp
  object := by simp [ObjectStore.empty, History.current]
  keys := by simp [ObjectStore.empty]
  issued := by simp
  tokens := by simp
  absent := by simp [InMemoryStorage.new]
  held := by simp
  named := by simp
  distinct := by simp
  blank := rfl

/-- The object storage takes the saves the history of the job takes. -/
theorem Mirrors.accepts_objects (h : Mirrors paths histories store memory names)
    (hn : job.iterNum ≤ u64Max) :
    (ObjectStorage.putCondition job).isMetBy
        (store.objects (paths.buildJobIterationPath job.code job.iterNum)) =
      (histories job.code).accepts job := by
  rw [h.object _ _ hn, History.accepts, ObjectStorage.putCondition]
  cases (histories job.code).current job.iterNum with
  | none => by_cases hversion : job.version = "" <;> simp [hversion, PutCondition.isMetBy]
  | some e => by_cases hversion : job.version = "" <;> simp [hversion, PutCondition.isMetBy]

/-- The in-memory storage takes the saves the history of the job takes. -/
theorem Mirrors.accepts_memory (h : Mirrors paths histories store memory names)
    {jobDef : JobDefinition} {g : Pedigree} {s : System} {w : Uuid} {purpose : Purpose}
    (hdef : jobDef.WellFormed) (hinv : Inv κ jobDef g s) (hlinear : Linear κ jobDef s.history)
    (hphase : (s.workers w).phase = .saving job purpose)
    (hhistory : histories job.code = s.history) :
    InMemoryStorage.isSaveAllowed (job.updateVersion (names job.version))
        (memory.jobsByCode job.code) = s.history.accepts job := by
  have hok := hinv.workers w
  rw [hphase] at hok
  -- the copy has a version exactly when the storage has a name for it
  have hblank : names job.version = "" ↔ job.version = "" := by
    constructor
    · intro hname
      by_contra hversion
      obtain ⟨e, he, hbased⟩ := hok.2.2.based hversion
      obtain ⟨k, -, hk⟩ := h.named job.code e (hhistory ▸ he)
      rw [hbased.version, hname] at hk
      exact Nat.repr_ne_empty hk.symm
    · intro hversion
      rw [hversion]
      exact h.blank
  cases hlatest : s.history with
  | nil =>
      obtain ⟨hversion, hone⟩ := saving_empty hinv hphase hlatest
      rw [h.absent _ (hhistory.trans hlatest), Bool.eq_iff_iff,
        InMemoryStorage.isSaveAllowed_absent]
      simp [hversion, h.blank, hone, History.accepts, History.current]
  | cons c rest =>
      obtain ⟨maxIterations, iterationInterval, taskLimits, hheld⟩ :=
        h.held _ c rest (hhistory.trans hlatest)
      rw [hheld, ← hlatest, Bool.eq_iff_iff]
      by_cases hversion : job.version = ""
      · rw [accepts_creation hdef hinv hlinear hphase hversion hlatest,
          InMemoryStorage.isSaveAllowed_creation (hblank.mpr hversion)]
        rfl
      · rw [accepts_replacement hdef hinv hlinear hphase hversion hlatest]
        obtain ⟨e, he, hbased⟩ := hok.2.2.based hversion
        have hsame : names c.version = names job.version ↔ c.version = job.version := by
          constructor
          · intro hname
            have hc : c ∈ histories job.code := by
              rw [hhistory, hlatest]
              exact List.mem_cons_self
            rw [← hbased.version] at hname ⊢
            exact h.distinct _ _ c hc e (hhistory ▸ he) hname
          · intro heq
            rw [heq]
        rw [InMemoryStorage.isSaveAllowed_replacement (hblank.not.mpr hversion), ← hsame]
        rfl

/-- A version of the histories after a save is the saved one or one from before. -/
theorem mem_update_cons {e e' : Entry} {code' : String}
    (h : e' ∈ Function.update histories code (e :: histories code) code') :
    (code' = code ∧ e' = e) ∨ e' ∈ histories code' := by
  by_cases hcode : code' = code
  · subst hcode
    rw [Function.update_self] at h
    rcases List.mem_cons.mp h with heq | hold
    · exact Or.inl ⟨rfl, heq⟩
    · exact Or.inr hold
  · rw [Function.update_of_ne hcode] at h
    exact Or.inr h

/-- The name a save gives counts one save more than any name given before. -/
theorem Mirrors.ne_next (h : Mirrors paths histories store memory names) {e : Entry}
    (he : e ∈ histories code) : names e.version ≠ toString (memory.versionCounter + 1) := by
  intro heq
  obtain ⟨k, hk, hnamed⟩ := h.named code e he
  have hdigits := congrArg String.toList (hnamed.symm.trans heq)
  simp only [toString, Nat.toList_repr] at hdigits
  have hcount := congrArg (Nat.ofDigitChars 10 · 0) hdigits
  simp only [Nat.ofDigitChars_ten_toDigits] at hcount
  omega

/-- The objects after a save are the current versions of the histories. -/
theorem Mirrors.object_saved (h : Mirrors paths histories store memory names) {e : Entry}
    (hentry : e.state = StoredJob.fromJob job) (hn : job.iterNum ≤ u64Max) {n : Nat}
    (hle : n ≤ u64Max) :
    (ObjectStorage.saved paths store e.version job).objects (paths.buildJobIterationPath code n) =
      ((Function.update histories job.code (e :: histories job.code) code).current n).map
        fun e => ⟨e.version, e.state⟩ := by
  have hiter : e.iterNum = job.iterNum := by
    rw [Entry.iterNum, hentry]
    rfl
  by_cases hkey : paths.buildJobIterationPath code n =
      paths.buildJobIterationPath job.code job.iterNum
  · obtain ⟨rfl, rfl⟩ := paths.buildJobIterationPath_inj code hn hle hkey
    rw [ObjectStorage.objects_saved_self, Function.update_self, current_cons, if_pos hiter,
      ← hentry]
    rfl
  · rw [ObjectStorage.objects_saved_of_ne _ hkey, h.object code n hle]
    by_cases hcode : code = job.code
    · subst hcode
      rw [Function.update_self, current_cons, if_neg]
      rw [hiter]
      exact fun heq => hkey (heq ▸ rfl)
    · rw [Function.update_of_ne hcode]

/-- A save both storages take. -/
theorem Mirrors.save (h : Mirrors paths histories store memory names) {e : Entry} {token : String}
    (hentry : e.state = StoredJob.fromJob job) (htoken : e.version = token)
    (hn : job.iterNum ≤ u64Max) (hfresh : token ∉ store.issued) (hblank : token ≠ "") :
    Mirrors paths (Function.update histories job.code (e :: histories job.code))
      (ObjectStorage.saved paths store token job)
      (memory.saved (job.updateVersion (names job.version)))
      (Function.update names token (toString (memory.versionCounter + 1))) := by
  subst htoken
  -- no version of the history carries the token, so every one keeps its name
  have hold : ∀ {code e'}, e' ∈ histories code → e'.version ≠ e.version := by
    intro code e' he' heq
    exact hfresh (heq ▸ h.issued code e' he')
  have hname : ∀ {code e'}, e' ∈ histories code →
      Function.update names e.version (toString (memory.versionCounter + 1)) e'.version =
        names e'.version :=
    fun he' => Function.update_of_ne (hold he') ..
  refine
    { numbers := ?numbers, object := fun code n hle => h.object_saved hentry hn hle, keys := ?keys
      issued := ?issued, tokens := ?tokens, absent := ?absent, held := ?held, named := ?named
      distinct := ?distinct, blank := ?blank }
  case numbers =>
    intro code e' he'
    rcases mem_update_cons he' with ⟨-, rfl⟩ | he'
    · rw [Entry.iterNum, hentry]
      exact hn
    · exact h.numbers code e' he'
  case keys =>
    intro key hkey
    by_cases heq : key = paths.buildJobIterationPath job.code job.iterNum
    · exact ⟨job.code, job.iterNum, hn, heq⟩
    · rw [ObjectStorage.objects_saved_of_ne _ heq] at hkey
      exact h.keys key hkey
  case issued =>
    intro code e' he'
    rcases mem_update_cons he' with ⟨-, rfl⟩ | he'
    · exact List.mem_cons_self
    · exact List.mem_cons_of_mem _ (h.issued code e' he')
  case tokens =>
    intro code code' e₁ he₁ e₂ he₂ heq
    rcases mem_update_cons he₁ with ⟨rfl, rfl⟩ | hold₁ <;>
      rcases mem_update_cons he₂ with ⟨rfl, rfl⟩ | hold₂
    · rfl
    · exact absurd heq.symm (hold hold₂)
    · exact absurd heq (hold hold₁)
    · exact h.tokens code code' e₁ hold₁ e₂ hold₂ heq
  case absent =>
    intro code hempty
    by_cases hcode : code = job.code
    · subst hcode
      rw [Function.update_self] at hempty
      cases hempty
    · rw [Function.update_of_ne hcode] at hempty
      rw [memory.jobsByCode_saved_of_ne (job.updateVersion (names job.version)) hcode]
      exact h.absent code hempty
  case held =>
    intro code e' rest hlatest
    by_cases hcode : code = job.code
    · subst hcode
      rw [Function.update_self, List.cons.injEq] at hlatest
      obtain ⟨rfl, -⟩ := hlatest
      refine ⟨job.maxIterations, job.iterationInterval, job.taskLimits, ?_⟩
      rw [Function.update_self, hentry]
      exact InMemoryStorage.jobsByCode_saved_self
    · rw [Function.update_of_ne hcode] at hlatest
      rw [memory.jobsByCode_saved_of_ne (job.updateVersion (names job.version)) hcode,
        hname (by rw [hlatest]; exact List.mem_cons_self)]
      exact h.held code e' rest hlatest
  case named =>
    intro code e' he'
    rcases mem_update_cons he' with ⟨-, rfl⟩ | he'
    · exact ⟨memory.versionCounter + 1, Nat.le_refl _, Function.update_self ..⟩
    · obtain ⟨k, hk, hnamed⟩ := h.named code e' he'
      exact ⟨k, Nat.le_succ_of_le hk, (hname he').trans hnamed⟩
  case distinct =>
    intro code code' e₁ he₁ e₂ he₂ heq
    rcases mem_update_cons he₁ with ⟨-, rfl⟩ | hold₁ <;>
      rcases mem_update_cons he₂ with ⟨-, rfl⟩ | hold₂
    · rfl
    · rw [Function.update_self, hname hold₂] at heq
      exact absurd heq.symm (h.ne_next hold₂)
    · rw [Function.update_self, hname hold₁] at heq
      exact absurd heq (h.ne_next hold₁)
    · rw [hname hold₁, hname hold₂] at heq
      exact h.distinct code code' e₁ hold₁ e₂ hold₂ heq
  case blank =>
    rw [Function.update_of_ne hblank.symm]
    exact h.blank

end Mirrors

/-! ## Every reachable replay -/

/-- What holds of a replay: every job has a run of its own, and the storages mirror the
histories. -/
structure ReplayInv (κ : Clocks) (registry : JobRegistry) (paths : JobPaths) (r : Replay) :
    Prop where
  runs : ∀ {code jobDef}, registry.jobsByCode.get code = some jobDef →
    Reachable (JobManager.step κ jobDef) System.init (r.systems code)
  idle : ∀ {code}, registry.jobsByCode.get code = none → r.histories code = []
  mirrors : Mirrors paths r.histories r.objects r.memory r.names

section Reachable

variable {registry : JobRegistry} {paths : JobPaths} {details : String} {r r' : Replay}
  {code : String} {jobDef : JobDefinition} {w : Uuid} {job : Job} {purpose : Purpose}

/-- An action of a replay is one of the workers of one job; a write is made of both
storages. -/
theorem Replay.step_cases {action : Action} (h : r.step κ registry paths (code, action) = some r') :
    ∃ jobDef s, registry.jobsByCode.get code = some jobDef ∧
      JobManager.step κ jobDef (r.systems code) action = some s ∧
      ((s.history = r.histories code ∧
          r' = { r with systems := Function.update r.systems code s }) ∨
        ∃ w token delivered job purpose, action = .put w token delivered ∧
          ((r.systems code).workers w).phase = .saving job purpose ∧
          (r.systems code).history.accepts job = true ∧ token ≠ "" ∧
          s = (r.systems code).commit w (.ofJob job token w purpose (r.systems code).clock)
            (afterPut job purpose token delivered) ∧
          token ∉ r.objects.issued ∧ job.iterNum ≤ u64Max ∧
          r' = Replay.save paths { r with systems := Function.update r.systems code s } token
            job) := by
  rw [Replay.step] at h
  split at h
  · cases h
  rename_i jobDef hget
  split at h
  · cases h
  rename_i s hstep
  refine ⟨jobDef, s, hget, hstep, ?_⟩
  rcases JobManager.step_cases hstep with
    ⟨elapsed, rfl, rfl⟩ | ⟨w, action, phase, ids, rfl, -, rfl⟩ |
    ⟨w, token, delivered, job, purpose, rfl, hphase, haccepts, hissue, rfl⟩
  · cases h
    exact Or.inl ⟨rfl, rfl⟩
  · cases h
    exact Or.inl ⟨rfl, rfl⟩
  · right
    simp only [hphase] at h
    split at h <;> rename_i hguard
    · cases h
      exact ⟨w, token, delivered, job, purpose, rfl, hphase, haccepts, (mayIssue_version hissue).1,
        rfl, hguard.1, hguard.2, rfl⟩
    · cases h

/-- The copy a worker is about to save is one of its job. -/
theorem ReplayInv.code_of_saving (hdef : jobDef.WellFormed) (hinv : ReplayInv κ registry paths r)
    (hget : registry.jobsByCode.get code = some jobDef)
    (hphase : ((r.systems code).workers w).phase = .saving job purpose) : job.code = code := by
  have hcode := (reachable_ofCode hdef (hinv.runs hget)).workers w
  rw [hphase] at hcode
  exact hcode.trans (KeyedMap.key_of_get hget)

/-- Both storages take the saves the history of the job takes. -/
theorem ReplayInv.accepts (hdef : jobDef.WellFormed) (hinv : ReplayInv κ registry paths r)
    (hget : registry.jobsByCode.get code = some jobDef)
    (hphase : ((r.systems code).workers w).phase = .saving job purpose)
    (hn : job.iterNum ≤ u64Max) :
    (ObjectStorage.putCondition job).isMetBy
        (r.objects.objects (paths.buildJobIterationPath job.code job.iterNum)) =
      (r.histories code).accepts job ∧
    InMemoryStorage.isSaveAllowed (r.renamed job) (r.memory.jobsByCode (r.renamed job).code) =
      (r.histories code).accepts job := by
  obtain rfl := hinv.code_of_saving hdef hget hphase
  obtain ⟨g, hsystem⟩ := reachable_inv hdef (hinv.runs hget)
  exact ⟨hinv.mirrors.accepts_objects hn, hinv.mirrors.accepts_memory hdef hsystem
    (reachable_linear hdef (hinv.runs hget)) hphase rfl⟩

theorem ReplayInv.step (hdefs : ∀ code jobDef, registry.jobsByCode.get code = some jobDef →
    jobDef.WellFormed) (hinv : ReplayInv κ registry paths r) {a : String × Action}
    (h : r.step κ registry paths a = some r') : ReplayInv κ registry paths r' := by
  obtain ⟨code, action⟩ := a
  obtain ⟨jobDef, s, hget, hstep, hends⟩ := Replay.step_cases h
  have hdef := hdefs code jobDef hget
  -- the run of the job goes on, the others stand
  have hruns : ∀ {code' jobDef'}, registry.jobsByCode.get code' = some jobDef' →
      Reachable (JobManager.step κ jobDef') System.init
        (Function.update r.systems code s code') := by
    intro code' jobDef' hget'
    by_cases hcode : code' = code
    · subst hcode
      rw [hget] at hget'
      cases hget'
      rw [Function.update_self]
      exact .step (hinv.runs hget) trivial hstep
    · rw [Function.update_of_ne hcode]
      exact hinv.runs hget'
  have hidle : ∀ {code'}, registry.jobsByCode.get code' = none →
      (Function.update r.systems code s code').history = [] := by
    intro code' hnone
    have hcode : code' ≠ code := by
      rintro rfl
      rw [hget] at hnone
      cases hnone
    rw [Function.update_of_ne hcode]
    exact hinv.idle hnone
  have hhistories : ∀ history, s.history = history →
      (fun code' => (Function.update r.systems code s code').history) =
        Function.update r.histories code history := by
    intro history hhistory
    funext code'
    by_cases hcode : code' = code
    · subst hcode
      rw [Function.update_self, Function.update_self, hhistory]
    · rw [Function.update_of_ne hcode, Function.update_of_ne hcode]
      rfl
  rcases hends with ⟨hsame, rfl⟩ |
    ⟨w, token, delivered, job, purpose, -, hphase, haccepts, hblank, rfl, hfresh, hn, rfl⟩
  · refine ⟨hruns, hidle, ?_⟩
    change Mirrors paths (fun code' => (Function.update r.systems code s code').history) _ _ _
    rw [hhistories _ hsame, Function.update_eq_self]
    exact hinv.mirrors
  · have hcode := hinv.code_of_saving hdef hget hphase
    obtain ⟨hobjects, hmemory⟩ := hinv.accepts hdef hget hphase hn
    have htaken : (r.histories code).accepts job = true := haccepts
    refine ⟨hruns, hidle, ?_⟩
    rw [Replay.save]
    change Mirrors paths (fun code' => (Function.update r.systems code _ code').history) _ _ _
    rw [hhistories _ (System.history_commit ..)]
    change Mirrors paths _ (ObjectStorage.saveJob paths token job r.objects).2
      (InMemoryStorage.saveJob (r.renamed job) r.memory).2
      (match (InMemoryStorage.saveJob (r.renamed job) r.memory).1 with
        | .ok saved => Function.update r.names token saved.version
        | .error _ => r.names)
    rw [ObjectStorage.saveJob_eq, if_pos (hobjects.trans htaken),
      InMemoryStorage.saveJob_allowed (hmemory.trans htaken)]
    subst hcode
    exact hinv.mirrors.save rfl rfl hn hfresh hblank

theorem reachable_mirrors (hdefs : ∀ code jobDef, registry.jobsByCode.get code = some jobDef →
    jobDef.WellFormed) (h : Reachable (Replay.step κ registry paths) (.init details) r) :
    ReplayInv κ registry paths r :=
  h.invariant ⟨fun _ => .init, fun _ => rfl, mirrors_init paths details⟩
    fun _ _ _ hinv _ hstep => hinv.step hdefs hstep

end Reachable

end JobManager
