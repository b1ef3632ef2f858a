import Mathlib.Order.Bounds.Defs
import Mathlib.Data.Nat.Find
import Mathlib.Tactic.Common

/-!
# A signal that spreads in rounds

Some vertices emit a signal, weak or strong, and a vertex a signal reached passes it on
to those it feeds.  In rounds, every vertex that hears something for the first time is
labelled with the strongest signal it hears in that round and keeps this label.  The
labels that remain are given by the shortest routes alone: what is labelled is the least
set closed under hearing, and a label is strong if a strong signal takes one of the
shortest routes.

Main results:

- Theorem {lit}`Labels.round`: after {lit}`n` rounds the labelled vertices are those a
  route shorter than {lit}`n` leads to.
- Theorem {lit}`Final.isLeast_labelled`: the labelled vertices are the least closed set.
- Theorem {lit}`Final.strongest_iff`: when every label is the strongest its neighbours
  end up handing on.
-/

namespace JobManager

namespace Spread

variable {V : Type} (emits : Bool → V → Prop) (feeds : V → V → Prop)

/-- A signal of the given strength takes a route of the given length to the vertex. -/
inductive Reaches : Bool → Nat → V → Prop
  | source {strong : Bool} {v : V} : emits strong v → Reaches strong 0 v
  | pass {strong : Bool} {n : Nat} {u v : V} :
      feeds u v → Reaches strong n u → Reaches strong (n + 1) v

/-- The shortest route to the vertex has the given length. -/
def Arrives (n : Nat) (v : V) : Prop :=
  (∃ strong, Reaches emits feeds strong n v) ∧
    ∀ strong k, Reaches emits feeds strong k v → n ≤ k

/-- Every vertex that emits is in the set, and so is every vertex fed from it. -/
def Closed (s : Set V) : Prop :=
  (∀ strong v, emits strong v → v ∈ s) ∧ ∀ u v, feeds u v → u ∈ s → v ∈ s

/-- The vertex emits a signal, or is fed from a vertex labelled with it. -/
def Hears (label : V → Option Bool) (strong : Bool) (v : V) : Prop :=
  emits strong v ∨ ∃ u, feeds u v ∧ label u = some strong

/-- One round: what hears something for the first time takes the strongest signal it
hears, and nothing else changes. -/
structure Round (label label' : V → Option Bool) : Prop where
  hit : ∀ v, label v = none → (∃ strong, Hears emits feeds label strong v) →
    ∃ strong, label' v = some strong ∧ (strong = true ↔ Hears emits feeds label true v)
  idle : ∀ v, label v = none → (∀ strong, ¬ Hears emits feeds label strong v) →
    label' v = none
  kept : ∀ v strong, label v = some strong → label' v = some strong

/-- The labels after {lit}`n` rounds, read off the routes. -/
def Labels (n : Nat) (label : V → Option Bool) : Prop :=
  ∀ v strong, label v = some strong ↔
    ∃ k < n, Arrives emits feeds k v ∧ (strong = true ↔ Reaches emits feeds true k v)

/-- The labels that remain, read off the routes. -/
def Final (label : V → Option Bool) : Prop :=
  ∀ v strong, label v = some strong ↔
    ∃ k, Arrives emits feeds k v ∧ (strong = true ↔ Reaches emits feeds true k v)

variable {emits feeds} {label label' : V → Option Bool} {strong : Bool} {n k : Nat} {v : V}

/-! ## Routes -/

/-- What is reached was first reached at some time. -/
theorem Reaches.arrives (h : Reaches emits feeds strong k v) :
    ∃ n ≤ k, Arrives emits feeds n v := by
  classical
  have hex : ∃ n, ∃ strong, Reaches emits feeds strong n v := ⟨k, strong, h⟩
  refine ⟨Nat.find hex, Nat.find_min' hex ⟨strong, h⟩, Nat.find_spec hex, ?_⟩
  intro strong' k' h'
  exact Nat.find_min' hex ⟨strong', h'⟩

theorem Reaches.before (h : Reaches emits feeds strong (n + 1) v) :
    ∃ u, feeds u v ∧ Reaches emits feeds strong n u := by
  cases h with
  | pass hfeeds hu => exact ⟨_, hfeeds, hu⟩

theorem Arrives.unique (h : Arrives emits feeds n v) (h' : Arrives emits feeds k v) : n = k := by
  obtain ⟨⟨s, hs⟩, hmin⟩ := h
  obtain ⟨⟨s', hs'⟩, hmin'⟩ := h'
  exact Nat.le_antisymm (hmin s' k hs') (hmin' s n hs)

/-- A shortest route goes along shortest routes. -/
theorem Arrives.before (h : Arrives emits feeds (n + 1) v)
    (hr : Reaches emits feeds strong (n + 1) v) :
    ∃ u, feeds u v ∧ Arrives emits feeds n u ∧ Reaches emits feeds strong n u := by
  obtain ⟨u, hfeeds, hu⟩ := hr.before
  refine ⟨u, hfeeds, ⟨⟨strong, hu⟩, ?_⟩, hu⟩
  intro strong' k hk
  have := h.2 strong' (k + 1) (.pass hfeeds hk)
  omega

/-- The label a vertex takes when a signal first arrives. -/
theorem exists_strength (emits : Bool → V → Prop) (feeds : V → V → Prop) (k : Nat) (v : V) :
    ∃ strong : Bool, strong = true ↔ Reaches emits feeds true k v := by
  by_cases h : Reaches emits feeds true k v
  · exact ⟨true, by simp [h]⟩
  · exact ⟨false, by simp [h]⟩

/-! ## Rounds -/

theorem labels_zero : Labels emits feeds 0 (fun _ => none) := by
  intro v strong
  simp

namespace Labels

theorem eq_none (h : Labels emits feeds n label) (hv : Arrives emits feeds n v) :
    label v = none := by
  cases hl : label v with
  | none => rfl
  | some strong =>
      obtain ⟨k, hk, harrives, -⟩ := (h v strong).mp hl
      have := hv.unique harrives
      omega

/-- What hears something for the first time in a round is where the signal arrives in
that round. -/
theorem arrives_of_hears (h : Labels emits feeds n label) (hv : label v = none)
    (hears : Hears emits feeds label strong v) : Arrives emits feeds n v := by
  -- a shortest route below `n` would have left a label
  have hfar : ∀ k, Arrives emits feeds k v → n ≤ k := by
    intro k hk
    by_contra hlt
    obtain ⟨s, hs⟩ := exists_strength emits feeds k v
    have hsome := (h v s).mpr ⟨k, by omega, hk, hs⟩
    rw [hv] at hsome
    cases hsome
  rcases hears with hemits | ⟨u, hfeeds, hu⟩
  · obtain ⟨k, hk, harrives⟩ := (Reaches.source hemits : Reaches emits feeds _ _ _).arrives
    have hle := hfar k harrives
    obtain rfl : n = k := by omega
    exact harrives
  · obtain ⟨k, hk, ⟨⟨s, hs⟩, -⟩, -⟩ := (h u strong).mp hu
    obtain ⟨j, hj, harrives⟩ := (Reaches.pass hfeeds hs).arrives
    have hle := hfar j harrives
    obtain rfl : n = j := by omega
    exact harrives

/-- Where the signal arrives, a strong one is heard exactly if it takes a shortest
route. -/
theorem hears_true_iff (h : Labels emits feeds n label) (hv : Arrives emits feeds n v) :
    Hears emits feeds label true v ↔ Reaches emits feeds true n v := by
  constructor
  · rintro (hemits | ⟨u, hfeeds, hu⟩)
    · have hzero := hv.2 true 0 (.source hemits)
      obtain rfl : n = 0 := by omega
      exact .source hemits
    · obtain ⟨k, hk, -, hstrong⟩ := (h u true).mp hu
      have hreaches := Reaches.pass hfeeds (hstrong.mp rfl)
      have hle := hv.2 true (k + 1) hreaches
      obtain rfl : n = k + 1 := by omega
      exact hreaches
  · intro hreaches
    cases n with
    | zero =>
        cases hreaches with
        | source hemits => exact Or.inl hemits
    | succ n =>
        obtain ⟨u, hfeeds, hu, hr⟩ := hv.before hreaches
        exact Or.inr ⟨u, hfeeds, (h u true).mpr ⟨n, by omega, hu, by simp [hr]⟩⟩

/-- Where the signal arrives, it is heard. -/
theorem hears_of_arrives (h : Labels emits feeds n label) (hv : Arrives emits feeds n v) :
    ∃ strong, Hears emits feeds label strong v := by
  obtain ⟨strong, hreaches⟩ := hv.1
  cases n with
  | zero =>
      cases hreaches with
      | source hemits => exact ⟨strong, Or.inl hemits⟩
  | succ n =>
      obtain ⟨u, hfeeds, hu, -⟩ := hv.before hreaches
      obtain ⟨s, hs⟩ := exists_strength emits feeds n u
      exact ⟨s, Or.inr ⟨u, hfeeds, (h u s).mpr ⟨n, by omega, hu, hs⟩⟩⟩

/-- A round labels what the signal arrives at next. -/
theorem round (h : Labels emits feeds n label) (hround : Round emits feeds label label') :
    Labels emits feeds (n + 1) label' := by
  intro v strong
  cases hl : label v with
  | some s =>
      rw [hround.kept v s hl]
      obtain ⟨k, hk, harrives, hs⟩ := (h v s).mp hl
      constructor
      · intro heq
        cases heq
        exact ⟨k, by omega, harrives, hs⟩
      · rintro ⟨k', -, harrives', hs'⟩
        obtain rfl := harrives.unique harrives'
        rw [Option.some.injEq, Bool.eq_iff_iff, hs, hs']
  | none =>
      by_cases harrives : Arrives emits feeds n v
      · obtain ⟨s, hs, hstrong⟩ := hround.hit v hl (h.hears_of_arrives harrives)
        rw [h.hears_true_iff harrives] at hstrong
        rw [hs]
        constructor
        · intro heq
          cases heq
          exact ⟨n, by omega, harrives, hstrong⟩
        · rintro ⟨k', -, harrives', hs'⟩
          obtain rfl := harrives.unique harrives'
          rw [Option.some.injEq, Bool.eq_iff_iff, hstrong, hs']
      · have hidle := hround.idle v hl fun s hs => harrives (h.arrives_of_hears hl hs)
        rw [hidle]
        constructor
        · intro heq
          cases heq
        · rintro ⟨k, hk, hk', hs⟩
          rcases Nat.lt_succ_iff_lt_or_eq.mp hk with hlt | rfl
          · rw [(h v strong).mpr ⟨k, hlt, hk', hs⟩] at hl
            cases hl
          · exact absurd hk' harrives

/-- Once nothing hears anything new, the labels are those that remain. -/
theorem final (h : Labels emits feeds n label)
    (hquiet : ∀ v strong, label v = none → ¬ Hears emits feeds label strong v) :
    Final emits feeds label := by
  have hnone : ∀ j v, ¬ Arrives emits feeds (n + j) v := by
    intro j
    induction j with
    | zero =>
        intro v hv
        obtain ⟨strong, hears⟩ := h.hears_of_arrives hv
        exact hquiet v strong (h.eq_none hv) hears
    | succ j ih =>
        intro v hv
        obtain ⟨strong, hreaches⟩ := hv.1
        obtain ⟨u, -, hu, -⟩ := hv.before hreaches
        exact ih u hu
  intro v strong
  rw [h v strong]
  constructor
  · rintro ⟨k, -, hk⟩
    exact ⟨k, hk⟩
  · rintro ⟨k, harrives, hs⟩
    refine ⟨k, ?_, harrives, hs⟩
    by_contra hge
    refine hnone (k - n) v ?_
    rwa [Nat.add_sub_cancel' (by omega)]

end Labels

/-! ## The labels that remain -/

namespace Final

theorem ne_none_iff (h : Final emits feeds label) :
    label v ≠ none ↔ ∃ strong k, Reaches emits feeds strong k v := by
  constructor
  · intro hne
    obtain ⟨strong, hs⟩ := Option.ne_none_iff_exists'.mp hne
    obtain ⟨k, ⟨⟨s, hr⟩, -⟩, -⟩ := (h v strong).mp hs
    exact ⟨s, k, hr⟩
  · rintro ⟨strong, k, hr⟩
    obtain ⟨n, -, harrives⟩ := hr.arrives
    obtain ⟨s, hs⟩ := exists_strength emits feeds n v
    rw [(h v s).mpr ⟨n, harrives, hs⟩]
    simp

/-- What ends up labelled is the least set closed under hearing. -/
theorem isLeast_labelled (h : Final emits feeds label) :
    IsLeast {s | Closed emits feeds s} {v | label v ≠ none} := by
  constructor
  · constructor
    · intro strong v hemits
      exact h.ne_none_iff.mpr ⟨strong, 0, .source hemits⟩
    · intro u v hfeeds hu
      obtain ⟨strong, k, hr⟩ := h.ne_none_iff.mp hu
      exact h.ne_none_iff.mpr ⟨strong, k + 1, .pass hfeeds hr⟩
  · rintro s ⟨hemits, hfeeds⟩ v hv
    obtain ⟨strong, k, hr⟩ := h.ne_none_iff.mp hv
    induction hr with
    | source he => exact hemits _ _ he
    | pass hf hu ih => exact hfeeds _ _ hf (ih (h.ne_none_iff.mpr ⟨_, _, hu⟩))

/-- Labels that remain are determined by who emits and who feeds whom. -/
theorem unique (h : Final emits feeds label) (h' : Final emits feeds label') :
    label = label' := by
  funext v
  apply Option.ext
  intro strong
  rw [h v strong, h' v strong]

/-- A strong label is one that was heard. -/
theorem hears_of_strong (h : Final emits feeds label) (hv : label v = some true) :
    Hears emits feeds label true v := by
  obtain ⟨k, harrives, hstrong⟩ := (h v true).mp hv
  have hreaches := hstrong.mp rfl
  cases k with
  | zero =>
      cases hreaches with
      | source hemits => exact Or.inl hemits
  | succ k =>
      obtain ⟨u, hfeeds, hu, hr⟩ := harrives.before hreaches
      exact Or.inr ⟨u, hfeeds, (h u true).mpr ⟨k, hu, by simp [hr]⟩⟩

/-- Every label is the strongest signal the vertex ends up hearing exactly if a strong
signal takes no detour: wherever one leads, it leads on a shortest route. -/
theorem strongest_iff (h : Final emits feeds label) :
    (∀ v strong, label v = some strong → (strong = true ↔ Hears emits feeds label true v)) ↔
      ∀ v k, Reaches emits feeds true k v →
        ∀ strong n, Reaches emits feeds strong n v → ∃ j ≤ n, Reaches emits feeds true j v := by
  constructor
  · intro hlabels
    have hdirect : ∀ k v, Reaches emits feeds true k v →
        ∃ n, Arrives emits feeds n v ∧ Reaches emits feeds true n v := by
      intro k
      induction k with
      | zero =>
          intro v hr
          exact ⟨0, ⟨⟨true, hr⟩, fun _ _ _ => Nat.zero_le _⟩, hr⟩
      | succ k ih =>
          intro v hr
          obtain ⟨n, -, harrives⟩ := hr.arrives
          obtain ⟨s, hs⟩ := exists_strength emits feeds n v
          refine ⟨n, harrives, hs.mp ?_⟩
          obtain ⟨u, hfeeds, hu⟩ := hr.before
          obtain ⟨j, hj, hstrong⟩ := ih u hu
          have hlabel := (h u true).mpr ⟨j, hj, by simp [hstrong]⟩
          exact (hlabels v s ((h v s).mpr ⟨n, harrives, hs⟩)).mpr
            (Or.inr ⟨u, hfeeds, hlabel⟩)
    intro v k hr strong n hn
    obtain ⟨j, hj, hstrong⟩ := hdirect k v hr
    exact ⟨j, hj.2 strong n hn, hstrong⟩
  · intro hroutes v strong hv
    constructor
    · rintro rfl
      exact h.hears_of_strong hv
    · intro hears
      obtain ⟨k, harrives, hstrong⟩ := (h v strong).mp hv
      have hsome : ∃ j, Reaches emits feeds true j v := by
        rcases hears with hemits | ⟨u, hfeeds, hu⟩
        · exact ⟨0, .source hemits⟩
        · obtain ⟨j, -, hj⟩ := (h u true).mp hu
          exact ⟨j + 1, .pass hfeeds (hj.mp rfl)⟩
      obtain ⟨j, hj⟩ := hsome
      obtain ⟨s, hs⟩ := harrives.1
      obtain ⟨i, hi, hreaches⟩ := hroutes v j hj s k hs
      obtain rfl : i = k := Nat.le_antisymm hi (harrives.2 true i hreaches)
      exact hstrong.mpr hreaches

end Final

end Spread

end JobManager
