import Mathlib.Data.Finset.Max
import Mathlib.Data.Prod.Lex
import Mathlib.Tactic.Common

/-!
# An ordered index beside a keyed state

Records found by key, some of which wait at a position, and beside them an ordered
set of the pairs of position and key, so that the earliest waiting record is found
without visiting the others.  The set repeats what the records say; the lemmas here
are about keeping the two equal while the records change one at a time.

Main results:

- Theorem {lit}`Indexes.move`: moving the entry of one key keeps the index exact, also
  when that entry had already been taken out.
- Theorem {lit}`Indexes.first_eq_some_iff`: the first entry is the least position any
  key waits at.
-/

namespace JobManager

/-- Pairs of position and key in ascending order, ties broken by the key. -/
abbrev OrderedIndex (τ κ : Type) [LinearOrder τ] [LinearOrder κ] := Finset (τ ×ₗ κ)

namespace OrderedIndex

variable {τ κ : Type} [LinearOrder τ] [LinearOrder κ]

/-- The least entry. -/
def first (q : OrderedIndex τ κ) : Option (τ × κ) :=
  if h : q.Nonempty then some (ofLex (q.min' h)) else none

/-- Take the entry of {lit}`k` at a position out, if it stands at one. -/
def take (q : OrderedIndex τ κ) (k : κ) : Option τ → OrderedIndex τ κ
  | none => q
  | some t => q.erase (toLex (t, k))

/-- Put the entry of {lit}`k` in at a position, if it is to stand at one. -/
def place (q : OrderedIndex τ κ) (k : κ) : Option τ → OrderedIndex τ κ
  | none => q
  | some t => insert (toLex (t, k)) q

/-- The index lists exactly the keys that wait, each under its position. -/
def Indexes (q : OrderedIndex τ κ) (pos : κ → Option τ) : Prop :=
  ∀ t k, toLex (t, k) ∈ q ↔ pos k = some t

/-! ## The least entry -/

/-- Only the empty index has no first entry. -/
theorem first_eq_none_iff {q : OrderedIndex τ κ} : q.first = none ↔ q = ∅ := by
  rw [first]
  split <;> rename_i h
  · simp only [reduceCtorEq, false_iff]
    exact Finset.nonempty_iff_ne_empty.mp h
  · simpa using h

/-- The first entry is the least of the index. -/
theorem first_eq_some_iff {q : OrderedIndex τ κ} {t : τ} {k : κ} :
    q.first = some (t, k) ↔ toLex (t, k) ∈ q ∧ ∀ e ∈ q, toLex (t, k) ≤ e := by
  rw [first]
  split <;> rename_i h
  · constructor
    · intro heq
      have hmin : q.min' h = toLex (t, k) := congrArg toLex (Option.some.inj heq)
      rw [← hmin]
      exact ⟨q.min'_mem h, fun e he => q.min'_le e he⟩
    · rintro ⟨hmem, hle⟩
      have hmin : q.min' h = toLex (t, k) :=
        le_antisymm (q.min'_le _ hmem) (q.le_min' h _ hle)
      rw [hmin]
      rfl
  · constructor
    · intro heq
      cases heq
    · rintro ⟨hmem, -⟩
      exact absurd ⟨_, hmem⟩ h

/-! ## Exactness -/

theorem Indexes.first_eq_none_iff {q : OrderedIndex τ κ} {pos : κ → Option τ}
    (h : q.Indexes pos) : q.first = none ↔ ∀ k, pos k = none := by
  rw [OrderedIndex.first_eq_none_iff]
  constructor
  · intro hempty k
    cases hk : pos k with
    | none => rfl
    | some t => simpa [hempty] using (h t k).mpr hk
  · intro hnone
    apply Finset.eq_empty_of_forall_notMem
    intro e he
    have hpos := (h (ofLex e).1 (ofLex e).2).mp he
    rw [hnone] at hpos
    cases hpos

/-- The first entry of an exact index is the least position any key waits at, ties
broken by the key. -/
theorem Indexes.first_eq_some_iff {q : OrderedIndex τ κ} {pos : κ → Option τ}
    (h : q.Indexes pos) {t : τ} {k : κ} :
    q.first = some (t, k) ↔
      pos k = some t ∧ ∀ t' k', pos k' = some t' → toLex (t, k) ≤ toLex (t', k') := by
  rw [OrderedIndex.first_eq_some_iff, h t k]
  constructor
  · rintro ⟨hpos, hle⟩
    exact ⟨hpos, fun t' k' hk' => hle _ ((h t' k').mpr hk')⟩
  · rintro ⟨hpos, hle⟩
    exact ⟨hpos, fun e he => hle _ _ ((h (ofLex e).1 (ofLex e).2).mp he)⟩

/-- Moving the entry of one key keeps the index exact.  The entry itself may be
missing beforehand, so long as the index lists nothing else for that key. -/
theorem Indexes.move {q : OrderedIndex τ κ} {pos : κ → Option τ} {k : κ}
    (hother : ∀ t k', k' ≠ k → (toLex (t, k') ∈ q ↔ pos k' = some t))
    (hself : ∀ t, toLex (t, k) ∈ q → pos k = some t) (new : Option τ) :
    Indexes ((q.take k (pos k)).place k new) (Function.update pos k new) := by
  have htaken : ∀ t k', toLex (t, k') ∈ q.take k (pos k) ↔ k' ≠ k ∧ pos k' = some t := by
    intro t k'
    by_cases hk : k' = k
    · subst hk
      simp only [ne_eq, not_true_eq_false, false_and, iff_false]
      cases hpos : pos k' with
      | none =>
          intro hmem
          have := hself t hmem
          rw [hpos] at this
          cases this
      | some u =>
          intro hmem
          have hmem := Finset.mem_erase.mp hmem
          have := hself t hmem.2
          rw [hpos] at this
          cases this
          exact hmem.1 rfl
    · rw [← hother t k' hk]
      cases hpos : pos k with
      | none => simp [take, hk]
      | some u => simp [take, hk]
  intro t k'
  by_cases hk : k' = k
  · subst hk
    rw [Function.update_self]
    cases new with
    | none => simp [place, htaken]
    | some u => simp [place, htaken, eq_comm]
  · rw [Function.update_of_ne hk]
    cases new with
    | none => simp [place, htaken, hk]
    | some u => simp [place, htaken, hk]

end OrderedIndex

end JobManager
