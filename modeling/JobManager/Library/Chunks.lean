import Mathlib.Data.List.Defs
import Mathlib.Tactic.Common

/-!
# Lists in chunks

A list cut into chunks of one size, the last of which may be shorter.

Main results:

- Theorem {lit}`flatten_toChunks`: the chunks are the list.
- Theorem {lit}`length_le_of_mem_toChunks`: no chunk is longer than the size.
- Theorem {lit}`length_toChunks`: there are no more chunks than the list needs.
-/

namespace JobManager.Chunks

variable {α : Type} {size : Nat}

/-- The first chunk begins with the first element. -/
theorem toChunks_cons (hsize : 0 < size) (x : α) (xs : List α) :
    (x :: xs).toChunks size = List.toChunks.go size xs #[x] #[] := by
  rw [List.toChunks]
  omega

/-- What was cut and what is to be cut make the whole. -/
theorem flatten_go (xs : List α) (chunk : Array α) (chunks : Array (List α)) :
    (List.toChunks.go size xs chunk chunks).flatten =
      chunks.toList.flatten ++ chunk.toList ++ xs := by
  induction xs generalizing chunk chunks with
  | nil => simp [List.toChunks.go]
  | cons x xs ih =>
      rw [List.toChunks.go]
      split
      · rw [ih]
        simp
      · rw [ih]
        simp

/-- The chunks of a list are the list. -/
theorem flatten_toChunks (xs : List α) : (xs.toChunks size).flatten = xs := by
  cases xs with
  | nil => simp [List.toChunks]
  | cons x xs =>
      cases size with
      | zero => simp [List.toChunks]
      | succ size =>
          rw [toChunks_cons (Nat.succ_pos size), flatten_go]
          rfl

theorem length_le_of_mem_go {xs : List α} {chunk : Array α} {chunks : Array (List α)}
    (hsize : 0 < size) (hchunk : chunk.size ≤ size) (hchunks : ∀ c ∈ chunks, c.length ≤ size) :
    ∀ c ∈ List.toChunks.go size xs chunk chunks, c.length ≤ size := by
  induction xs generalizing chunk chunks with
  | nil =>
      intro c hc
      simp only [List.toChunks.go, Array.toList_push, List.mem_append, List.mem_singleton] at hc
      rcases hc with hc | rfl
      · exact hchunks c (by simpa using hc)
      · simpa using hchunk
  | cons x xs ih =>
      rw [List.toChunks.go]
      split <;> rename_i hfull
      · refine ih (Nat.succ_le_of_lt hsize) ?_
        intro c hc
        rcases Array.mem_push.mp hc with hc | rfl
        · exact hchunks c hc
        · simpa using hchunk
      · have hne : chunk.size ≠ size := by simpa using hfull
        refine ih ?_ hchunks
        rw [Array.size_push]
        omega

/-- No chunk is longer than the size. -/
theorem length_le_of_mem_toChunks (hsize : 0 < size) (xs : List α) :
    ∀ c ∈ xs.toChunks size, c.length ≤ size := by
  cases xs with
  | nil => simp [List.toChunks]
  | cons x xs =>
      rw [toChunks_cons hsize]
      exact length_le_of_mem_go hsize hsize (by simp)

theorem length_go {xs : List α} {chunk : Array α} {chunks : Array (List α)}
    (hsize : 0 < size) (hpos : 0 < chunk.size) (hchunk : chunk.size ≤ size) :
    (List.toChunks.go size xs chunk chunks).length =
      chunks.size + (chunk.size + xs.length + size - 1) / size := by
  induction xs generalizing chunk chunks with
  | nil =>
      have hone : (chunk.size + size - 1) / size = 1 := by
        rw [Nat.div_eq_iff hsize]
        omega
      simp [List.toChunks.go, hone]
  | cons x xs ih =>
      rw [List.toChunks.go]
      split <;> rename_i hfull
      · have heq : chunk.size = size := by simpa using hfull
        rw [ih (by simp) (by rwa [Array.size_push])]
        have hnext : chunk.size + (x :: xs).length + size - 1 =
            (1 + xs.length + size - 1) + size := by
          simp only [List.length_cons]
          omega
        rw [hnext, Nat.add_div_right _ hsize]
        simp only [Array.size_push, List.size_toArray, Array.mkEmpty_eq, List.length_nil,
          Nat.zero_add]
        omega
      · have hne : chunk.size ≠ size := by simpa using hfull
        rw [ih (by simp) (by rw [Array.size_push]; omega)]
        simp only [Array.size_push, List.length_cons]
        congr 2
        omega

/-- There are no more chunks than the list needs. -/
theorem length_toChunks (hsize : 0 < size) (xs : List α) :
    (xs.toChunks size).length = (xs.length + size - 1) / size := by
  cases xs with
  | nil =>
      rw [List.toChunks, List.length_nil, List.length_nil, Nat.zero_add]
      exact (Nat.div_eq_of_lt (by omega)).symm
  | cons x xs =>
      have hgo := @length_go α size xs #[x] #[] hsize Nat.one_pos hsize
      rw [toChunks_cons hsize, hgo, List.length_cons, Nat.add_comm xs.length]
      exact Nat.zero_add _

end JobManager.Chunks
