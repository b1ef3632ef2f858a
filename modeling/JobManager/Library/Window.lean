import Mathlib.Data.Set.Insert
import Mathlib.Data.List.MinMax
import Mathlib.Tactic.Common

/-!
# Retention windows

Numbered items are created one after another and deleted behind a window: an item may be
deleted once an item at least so many numbers later was created.  Whoever creates an item has
seen its predecessor, at any earlier moment, and finds it absent; an item that was deleted is
absent again.

Main results:

- Theorem {lit}`Windowed.newest`: the latest item ever created is stored.
- Theorem {lit}`Windowed.step`: creations and deletions behind the window keep that.
- Theorem {lit}`Windowed.recreated`: an item that is created again after its predecessor was
  seen as the newest one has more creations in between than the window holds items.
-/

namespace JobManager

/-- The items created so far, the latest first, and those that are stored. -/
structure Window where
  created : List Nat
  stored : Set Nat

/-- Every item is the first one or comes after its predecessor. -/
def Chained : List Nat → Prop
  | [] => True
  | n :: created => (n = 1 ∨ ∃ m ∈ created, m + 1 = n) ∧ Chained created

/-- One creation or deletion under a window of the given size. -/
inductive Window.Step (size : Nat) (t : Window) : Window → Prop
  | create {n : Nat} : n ∉ t.stored → n = 1 ∨ (∃ m ∈ t.created, m + 1 = n) →
      Step size t ⟨n :: t.created, insert n t.stored⟩
  | delete {n : Nat} : (∃ m ∈ t.created, n + size ≤ m) →
      Step size t ⟨t.created, t.stored \ {n}⟩

/-- What creations and deletions under a window leave. -/
structure Windowed (size : Nat) (t : Window) : Prop where
  chained : Chained t.created
  created : ∀ n ∈ t.stored, n ∈ t.created
  outdated : ∀ n ∈ t.created, n ∉ t.stored → ∃ m ∈ t.created, n + size ≤ m

/-- The item is stored, and no later one is. -/
def Window.IsNewest (t : Window) (n : Nat) : Prop := n ∈ t.stored ∧ ∀ m ∈ t.stored, m ≤ n

theorem windowed_empty (size : Nat) : Windowed size ⟨[], ∅⟩ :=
  ⟨trivial, by simp, by simp⟩

namespace Windowed

variable {size : Nat} {t t' : Window}

/-- Creations and deletions keep to the window. -/
theorem step (h : Windowed size t) (hstep : t.Step size t') : Windowed size t' := by
  cases hstep with
  | @create n _ hseen =>
      refine ⟨⟨hseen, h.chained⟩, ?_, ?_⟩
      · rintro m (rfl | hm)
        · exact List.mem_cons_self
        · exact List.mem_cons_of_mem _ (h.created m hm)
      · intro m hm habsent
        rcases List.mem_cons.mp hm with rfl | hm
        · exact absurd (Set.mem_insert _ _) habsent
        · obtain ⟨k, hk, hle⟩ := h.outdated m hm fun hin => habsent (Set.mem_insert_of_mem _ hin)
          exact ⟨k, List.mem_cons_of_mem _ hk, hle⟩
  | @delete n hbehind =>
      refine ⟨h.chained, fun m hm => h.created m hm.1, ?_⟩
      intro m hm habsent
      by_cases hmn : m = n
      · rw [hmn]
        exact hbehind
      · exact h.outdated m hm fun hin => habsent ⟨hin, hmn⟩

/-- The latest item ever created is stored. -/
theorem newest (h : Windowed size t) (hsize : 0 < size) {n : Nat} (hn : n ∈ t.created) :
    ∃ m, t.IsNewest m ∧ ∀ k ∈ t.created, k ≤ m := by
  obtain ⟨m, hm⟩ : ∃ m : Nat, t.created.maximum = m := by
    cases hmax : t.created.maximum with
    | bot =>
        rw [List.maximum_eq_bot.mp hmax] at hn
        cases hn
    | coe m => exact ⟨m, rfl⟩
  have hlatest : ∀ k ∈ t.created, k ≤ m := fun k hk => List.le_maximum_of_mem hk hm
  refine ⟨m, ⟨?_, fun k hk => hlatest k (h.created k hk)⟩, hlatest⟩
  -- were it deleted, a later one would have been created
  by_contra habsent
  obtain ⟨k, hk, hle⟩ := h.outdated m (List.maximum_mem hm) habsent
  have := hlatest k hk
  omega

/-- What is stored no later than the newest item was created no later. -/
theorem le_of_isNewest (h : Windowed size t) (hsize : 0 < size) {n m : Nat} (hn : t.IsNewest n)
    (hm : m ∈ t.created) : m ≤ n := by
  obtain ⟨k, ⟨hk, -⟩, hlatest⟩ := h.newest hsize hm
  exact (hlatest m hm).trans (hn.2 k hk)

end Windowed

/-- So many creations reach so many numbers further. -/
theorem Chained.le_add_length {before : List Nat} {n : Nat} (hbefore : ∀ m ∈ before, m ≤ n)
    (between : List Nat) (h : Chained (between ++ before)) :
    ∀ m ∈ between ++ before, m ≤ n + between.length := by
  induction between with
  | nil => exact hbefore
  | cons k between ih =>
      obtain ⟨hseen, hrest⟩ := h
      have hle := ih hrest
      intro m hm
      rw [List.length_cons]
      rcases List.mem_cons.mp hm with rfl | hm
      · rcases hseen with rfl | ⟨j, hj, rfl⟩
        · omega
        · have := hle j hj
          omega
      · have := hle m hm
        omega

/-- An item created again needs more creations than the window holds since its predecessor was
the latest one. -/
theorem Windowed.recreated {size : Nat} {t : Window} (h : Windowed size t) {n : Nat}
    {between before : List Nat} (hcreated : t.created = between ++ before)
    (hbefore : ∀ m ∈ before, m ≤ n) (hagain : n + 1 ∈ t.created) (habsent : n + 1 ∉ t.stored) :
    size < between.length := by
  obtain ⟨m, hm, hle⟩ := h.outdated (n + 1) hagain habsent
  have hchained := h.chained
  rw [hcreated] at hchained hm
  have := Chained.le_add_length hbefore between hchained m hm
  omega

end JobManager
