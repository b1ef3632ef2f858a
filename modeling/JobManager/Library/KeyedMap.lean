import Mathlib.Data.List.Nodup
import Mathlib.Tactic.Common

/-!
# Finite maps whose values carry their key

A hash map from identifiers to records that name their own identifier is kept
here as a duplicate-free list of the records.  The key is a function of the
value, so a record can only ever be found under its own key, and the list order
stands for the unspecified iteration order of the map.

Main results:

- Theorem {lit}`get_insert`: insertion changes the looked-up key and no other.
- Theorem {lit}`get_filter`: filtering commutes with lookup.
- Theorem {lit}`mem_values_iff_get`: enumeration and lookup agree.
-/

/-- A finite map from {lit}`κ` to {lit}`α` in which every value knows its key. -/
structure KeyedMap {α κ : Type} (key : α → κ) where
  values : List α
  nodup : (values.map key).Nodup

namespace KeyedMap

variable {α κ : Type} {key : α → κ}

/-- The map holding nothing. -/
def empty : KeyedMap key where
  values := []
  nodup := by simp

/-- Number of entries. -/
def size (m : KeyedMap key) : Nat := m.values.length

/-- The keys, in iteration order. -/
def keys (m : KeyedMap key) : List κ := m.values.map key

/-- Keep the entries whose value satisfies {lit}`p`. -/
def filter (m : KeyedMap key) (p : α → Bool) : KeyedMap key where
  values := m.values.filter p
  nodup := m.nodup.sublist (List.filter_sublist.map key)

variable [DecidableEq κ]

/-- Look a key up. -/
def get (m : KeyedMap key) (k : κ) : Option α :=
  m.values.find? fun a => key a = k

/-- Insert a value under its own key, replacing the previous one. -/
def insert (m : KeyedMap key) (a : α) : KeyedMap key where
  values := m.values.filter (fun b => key b ≠ key a) ++ [a]
  nodup := by
    rw [List.map_append, List.nodup_append]
    refine ⟨m.nodup.sublist (List.filter_sublist.map key), by simp, ?_⟩
    intro k hk k' hk'
    simp only [List.mem_map, List.mem_filter] at hk
    rcases hk with ⟨b, ⟨_, hb⟩, rfl⟩
    simp only [List.map_cons, List.map_nil, List.mem_singleton] at hk'
    subst hk'
    simpa using hb

/-- Insert a list of values, later ones winning. -/
def insertAll (m : KeyedMap key) (as : List α) : KeyedMap key :=
  as.foldl insert m

/-! ## Lookup -/

/-- What is found under a key has that key. -/
theorem key_of_get {m : KeyedMap key} {k : κ} {a : α} (h : m.get k = some a) :
    key a = k := by
  have := List.find?_some h
  simpa using this

/-- What is found is one of the values. -/
theorem mem_values_of_get {m : KeyedMap key} {k : κ} {a : α} (h : m.get k = some a) :
    a ∈ m.values :=
  List.mem_of_find?_eq_some h

/-- Among values of different keys, each is found under its own. -/
theorem find?_of_nodup {l : List α} (hl : (l.map key).Nodup) {a : α}
    (ha : a ∈ l) : l.find? (fun b => key b = key a) = some a := by
  induction l with
  | nil => simp at ha
  | cons b l ih =>
      rw [List.map_cons, List.nodup_cons] at hl
      by_cases hba : key b = key a
      · have : a = b := by
          rcases List.mem_cons.mp ha with h | h
          · exact h
          · exact absurd (List.mem_map_of_mem h) (hba ▸ hl.1)
        subst this
        simp
      · have hal : a ∈ l := by
          rcases List.mem_cons.mp ha with h | h
          · exact absurd (congrArg key h.symm) hba
          · exact h
        simpa [List.find?_cons, hba] using ih hl.2 hal

/-- Every value is found under its key. -/
theorem get_of_mem_values {m : KeyedMap key} {a : α} (h : a ∈ m.values) :
    m.get (key a) = some a :=
  find?_of_nodup m.nodup h

/-- Enumerating the map and looking a key up see the same entries. -/
theorem mem_values_iff_get {m : KeyedMap key} {a : α} :
    a ∈ m.values ↔ m.get (key a) = some a :=
  ⟨get_of_mem_values, mem_values_of_get⟩

/-- The keys are those something is found under. -/
theorem mem_keys_iff {m : KeyedMap key} {k : κ} :
    k ∈ m.keys ↔ ∃ a, m.get k = some a := by
  constructor
  · intro h
    rcases List.mem_map.mp h with ⟨a, ha, rfl⟩
    exact ⟨a, get_of_mem_values ha⟩
  · rintro ⟨a, ha⟩
    exact List.mem_map.mpr ⟨a, mem_values_of_get ha, key_of_get ha⟩

@[simp] theorem get_empty (k : κ) : (empty : KeyedMap key).get k = none := rfl

private theorem get_eq_some_iff {m : KeyedMap key} {k : κ} {a : α} :
    m.get k = some a ↔ a ∈ m.values ∧ key a = k := by
  constructor
  · intro h
    exact ⟨mem_values_of_get h, key_of_get h⟩
  · rintro ⟨h, rfl⟩
    exact get_of_mem_values h

/-! ## Updates -/

/-- Insertion is seen under the inserted key and nowhere else. -/
theorem get_insert (m : KeyedMap key) (a : α) (k : κ) :
    (m.insert a).get k = if key a = k then some a else m.get k := by
  by_cases hk : key a = k
  · rw [if_pos hk, get_eq_some_iff]
    exact ⟨by simp [insert], hk⟩
  · rw [if_neg hk]
    apply Option.ext
    intro b
    rw [get_eq_some_iff, get_eq_some_iff]
    simp only [insert, List.mem_append, List.mem_filter, List.mem_singleton]
    constructor
    · rintro ⟨h | rfl, hb⟩
      · exact ⟨h.1, hb⟩
      · exact absurd hb hk
    · rintro ⟨h, hb⟩
      exact ⟨Or.inl ⟨h, by simpa [hb] using fun h' => hk h'.symm⟩, hb⟩

@[simp] theorem get_insert_self (m : KeyedMap key) (a : α) :
    (m.insert a).get (key a) = some a := by
  rw [get_insert, if_pos rfl]

/-- An insertion leaves every other key alone. -/
theorem get_insert_of_ne (m : KeyedMap key) {a : α} {k : κ} (h : key a ≠ k) :
    (m.insert a).get k = m.get k := by
  rw [get_insert, if_neg h]

/-- Filtering commutes with lookup. -/
theorem get_filter (m : KeyedMap key) (p : α → Bool) (k : κ) :
    (m.filter p).get k = (m.get k).filter p := by
  apply Option.ext
  intro a
  rw [get_eq_some_iff, Option.filter_eq_some_iff, get_eq_some_iff]
  simp only [filter, List.mem_filter]
  tauto

/-- What a map holds after insertions was there or was inserted. -/
theorem mem_values_insertAll {as : List α} {m : KeyedMap key} {a : α}
    (h : a ∈ (m.insertAll as).values) : a ∈ m.values ∨ a ∈ as := by
  induction as generalizing m with
  | nil => exact Or.inl h
  | cons b as ih =>
      have hstep : m.insertAll (b :: as) = (m.insert b).insertAll as := rfl
      rw [hstep] at h
      rcases ih h with h | h
      · rcases List.mem_append.mp h with h | h
        · exact Or.inl (List.mem_filter.mp h).1
        · exact Or.inr (by simp [List.mem_singleton.mp h])
      · exact Or.inr (List.mem_cons_of_mem _ h)

/-- Inserting a list of values with pairwise distinct keys: an inserted value is
found under its key, and every other key keeps what it had. -/
theorem get_insertAll {as : List α} (has : (as.map key).Nodup) (m : KeyedMap key)
    (k : κ) :
    (m.insertAll as).get k = (as.find? fun a => key a = k).or (m.get k) := by
  induction as generalizing m with
  | nil => simp [insertAll]
  | cons a as ih =>
      rw [List.map_cons, List.nodup_cons] at has
      have hstep : m.insertAll (a :: as) = (m.insert a).insertAll as := rfl
      rw [hstep, ih has.2, get_insert]
      by_cases hk : key a = k
      · have hnone : as.find? (fun b => key b = k) = none := by
          rw [List.find?_eq_none]
          intro b hb hbk
          have hbk : key b = k := by simpa using hbk
          exact has.1 (hk ▸ hbk ▸ List.mem_map_of_mem hb)
        simp [hk, hnone]
      · simp [hk]

/-- Values with pairwise distinct keys keep their order when they fill an empty map. -/
theorem values_insertAll_empty {as : List α} (has : (as.map key).Nodup) :
    ((empty : KeyedMap key).insertAll as).values = as := by
  have hfill : ∀ (as : List α) (m : KeyedMap key), ((m.values ++ as).map key).Nodup →
      (m.insertAll as).values = m.values ++ as := by
    intro as
    induction as with
    | nil =>
        intro m _
        exact (List.append_nil _).symm
    | cons a as ih =>
        intro m hnodup
        have hnew : ∀ b ∈ m.values, key b ≠ key a := by
          intro b hb heq
          rw [List.map_append, List.nodup_append] at hnodup
          exact hnodup.2.2 _ (List.mem_map_of_mem hb) _ (by simp) heq
        have hinsert : (m.insert a).values = m.values ++ [a] := by
          have hkept : m.values.filter (fun b => key b ≠ key a) = m.values := by
            rw [List.filter_eq_self]
            simpa using hnew
          exact congrArg (· ++ [a]) hkept
        have hrest := ih (m.insert a) (by
          rw [hinsert, List.append_assoc]
          exact hnodup)
        rw [hinsert, List.append_assoc] at hrest
        exact hrest
  exact hfill as empty has

end KeyedMap
