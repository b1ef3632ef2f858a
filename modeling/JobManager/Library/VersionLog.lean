import Mathlib.Tactic.Common

/-!
# Logs of versions

A store of numbered items, each in one version at a time: the log lists every version ever
stored, the latest first, so that what the store held at an earlier moment is a suffix of the
log.  A log is orderly where a token names one content, an item is written no more once it is
closed, and an item is created only after the one before it was stored closed.

Main results:

- Theorem {lit}`Orderly.current_of_closed`: a closed version stays the current one.
- Theorem {lit}`Orderly.newest_of_open`: only the newest item is open.
- Theorem {lit}`Orderly.same_content`: a token of an item names one content.
-/

namespace JobManager

/-- One version of a numbered item. -/
structure Version (α : Type) where
  number : Nat
  token : String
  content : α

/-- The versions ever stored, the latest first. -/
abbrev VersionLog (α : Type) := List (Version α)

namespace VersionLog

variable {α : Type}

/-- The version of an item the store holds. -/
def current (log : VersionLog α) (n : Nat) : Option (Version α) :=
  log.find? fun v => v.number = n

/-- The version of the item with the greatest number. -/
def newest (log : VersionLog α) : Option (Version α) :=
  (log.map Version.number).max?.bind log.current

/-- Whether a version may be stored next. -/
def allows [DecidableEq α] (closed : α → Bool) (log : VersionLog α) (v : Version α) : Bool :=
  (log.all fun u => u.number ≠ v.number || u.token ≠ v.token || u.content = v.content) &&
    match log.current v.number with
    | none => v.number = 1 || log.any fun u => u.number + 1 = v.number && closed u.content
    | some u => !closed u.content

/-- The logs such writes leave. -/
inductive Orderly [DecidableEq α] (closed : α → Bool) : VersionLog α → Prop
  | empty : Orderly closed []
  | write {log : VersionLog α} {v : Version α} :
      Orderly closed log → log.allows closed v = true → Orderly closed (v :: log)

/-- The content is that of the newest item, under its token. -/
def IsNewest (log : VersionLog α) (n : Nat) (token : String) (content : α) : Prop :=
  log.current n = some ⟨n, token, content⟩ ∧ ∀ u ∈ log, u.number ≤ n

theorem current_cons (v : Version α) (log : VersionLog α) (n : Nat) :
    current (v :: log) n = if v.number = n then some v else log.current n := by
  unfold current
  by_cases h : v.number = n <;> simp [h]

/-- The current version of a number is one of its versions. -/
theorem current_eq_some {log : VersionLog α} {n : Nat} {v : Version α}
    (h : log.current n = some v) : v ∈ log ∧ v.number = n :=
  ⟨List.mem_of_find?_eq_some h, by simpa using List.find?_some h⟩

theorem current_of_mem {log : VersionLog α} {v : Version α} (h : v ∈ log) :
    ∃ u, log.current v.number = some u := by
  cases hcurrent : log.current v.number with
  | some u => exact ⟨u, rfl⟩
  | none =>
      have hnone := List.find?_eq_none.mp hcurrent v h
      simp at hnone

/-- The newest item is the current version of the greatest number stored. -/
theorem newest_eq_some {log : VersionLog α} {v : Version α} (h : log.newest = some v) :
    log.IsNewest v.number v.token v.content := by
  rw [newest, Option.bind_eq_some_iff] at h
  obtain ⟨n, hmax, hcurrent⟩ := h
  obtain ⟨-, rfl⟩ := current_eq_some hcurrent
  refine ⟨hcurrent, fun u hu => ?_⟩
  exact (List.max?_eq_some_iff.mp hmax).2 _ (List.mem_map_of_mem hu)

theorem newest_eq_none {log : VersionLog α} (h : log.newest = none) : log = [] := by
  rw [newest] at h
  cases hmax : (log.map Version.number).max? with
  | none => exact List.map_eq_nil_iff.mp (List.max?_eq_none_iff.mp hmax)
  | some n =>
      obtain ⟨v, hv, rfl⟩ := List.mem_map.mp (List.max?_eq_some_iff.mp hmax).1
      obtain ⟨u, hu⟩ := current_of_mem hv
      rw [hmax, Option.bind_some, hu] at h
      cases h

namespace Orderly

variable [DecidableEq α] {closed : α → Bool} {log : VersionLog α} {u v : Version α}

/-- What a version that may be stored next requires. -/
theorem allows_eq_true :
    log.allows closed v = true ↔
      (∀ u ∈ log, u.number = v.number → u.token = v.token → u.content = v.content) ∧
        (log.current v.number = none →
          v.number = 1 ∨ ∃ u ∈ log, u.number + 1 = v.number ∧ closed u.content = true) ∧
        ∀ u, log.current v.number = some u → closed u.content = false := by
  rw [allows, Bool.and_eq_true, List.all_eq_true]
  refine and_congr ?_ ?_
  · refine forall₂_congr fun u _ => ?_
    simp only [ne_eq, Bool.or_eq_true, decide_eq_true_eq]
    tauto
  · cases log.current v.number with
    | none => simp
    | some u => simp

/-- A token of an item names one content. -/
theorem same_content (h : Orderly closed log) (hu : u ∈ log) (hv : v ∈ log)
    (hnumber : u.number = v.number) (htoken : u.token = v.token) : u.content = v.content := by
  induction h with
  | empty => cases hu
  | write _ hallows ih =>
      obtain ⟨hnames, -⟩ := allows_eq_true.mp hallows
      rcases List.mem_cons.mp hu with rfl | hold <;> rcases List.mem_cons.mp hv with rfl | hold'
      · rfl
      · exact (hnames v hold' hnumber.symm htoken.symm).symm
      · exact hnames u hold hnumber htoken
      · exact ih hold hold'

/-- A closed version stays the current one of its item. -/
theorem current_of_closed (h : Orderly closed log) (hu : u ∈ log)
    (hclosed : closed u.content = true) : log.current u.number = some u := by
  induction h with
  | empty => cases hu
  | @write log v _ hallows ih =>
      rw [current_cons]
      rcases List.mem_cons.mp hu with rfl | hu
      · rw [if_pos rfl]
      · rw [if_neg, ih hu]
        intro hsame
        have hopen := (allows_eq_true.mp hallows).2.2 u (hsame ▸ ih hu)
        rw [hclosed] at hopen
        cases hopen

/-- Every item before a stored one was stored closed. -/
theorem exists_closed (h : Orderly closed log) (hu : u ∈ log) {n : Nat} (hpos : 1 ≤ n)
    (hn : n < u.number) : ∃ v ∈ log, v.number = n ∧ closed v.content = true := by
  induction h generalizing u with
  | empty => cases hu
  | @write log v _ hallows ih =>
      have hlater : (∃ u ∈ log, n < u.number) → ∃ w ∈ v :: log, w.number = n ∧
          closed w.content = true := by
        rintro ⟨u, hu, hn⟩
        obtain ⟨w, hw, hnumber, hclosed⟩ := ih hu hn
        exact ⟨w, List.mem_cons_of_mem v hw, hnumber, hclosed⟩
      rcases List.mem_cons.mp hu with rfl | hu
      · cases hcurrent : log.current u.number with
        | some w =>
            obtain ⟨hw, hnumber⟩ := current_eq_some hcurrent
            exact hlater ⟨w, hw, hnumber ▸ hn⟩
        | none =>
            rcases (allows_eq_true.mp hallows).2.1 hcurrent with hone | ⟨w, hw, hnext, hclosed⟩
            · omega
            · by_cases hbefore : w.number = n
              · exact ⟨w, List.mem_cons_of_mem u hw, hbefore, hclosed⟩
              · exact hlater ⟨w, hw, by omega⟩
      · exact hlater ⟨u, hu, hn⟩

/-- Numbers begin at one. -/
theorem one_le (h : Orderly closed log) (hu : u ∈ log) : 1 ≤ u.number := by
  induction h generalizing u with
  | empty => cases hu
  | @write log v _ hallows ih =>
      rcases List.mem_cons.mp hu with rfl | hu
      · cases hcurrent : log.current u.number with
        | some w =>
            obtain ⟨hw, hnumber⟩ := current_eq_some hcurrent
            exact hnumber ▸ ih hw
        | none =>
            rcases (allows_eq_true.mp hallows).2.1 hcurrent with hone | ⟨w, -, hnext, -⟩
            · omega
            · omega
      · exact ih hu

/-- An item whose current version is open is the newest. -/
theorem newest_of_open (h : Orderly closed log) {n : Nat} (hcurrent : log.current n = some u)
    (hopen : closed u.content = false) : log.IsNewest n u.token u.content := by
  obtain ⟨hu, hnumber⟩ := current_eq_some hcurrent
  subst hnumber
  refine ⟨hcurrent, fun v hv => ?_⟩
  by_contra hlater
  obtain ⟨w, hw, hsame, hclosed⟩ := h.exists_closed hv (h.one_le hu) (Nat.lt_of_not_le hlater)
  have hfinal := h.current_of_closed hw hclosed
  rw [hsame, hcurrent] at hfinal
  cases hfinal
  rw [hopen] at hclosed
  cases hclosed

end Orderly

end VersionLog

end JobManager
