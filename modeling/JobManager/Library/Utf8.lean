import Mathlib.Data.String.Basic
import Mathlib.Tactic.Common

/-!
# Byte order of texts

Stores and languages compare texts by their bytes, Lean by their characters.  UTF-8 keeps
the order of characters, so the two comparisons agree.

Main results:

- Theorem {lit}`encode_append_lt`: of two characters the smaller has the smaller bytes,
  whatever follows them.
- Theorem {lit}`bytes_lt_iff`: texts compare by their bytes as they do by their characters.
-/

namespace JobManager.Utf8

/-- The bytes a text is kept in. -/
def bytes (s : String) : List UInt8 := s.toUTF8.data.toList

/-- The bytes of a text are those of its characters. -/
theorem bytes_eq_flatMap (s : String) : bytes s = s.toList.flatMap String.utf8EncodeChar := by
  have hbytes : s.toByteArray = s.toList.utf8Encode := by
    rw [← String.toByteArray_ofList, String.ofList_toList]
  rw [bytes, String.toUTF8_eq_toByteArray, hbytes, List.utf8Encode, List.toList_data_toByteArray]

/-! ## One character -/

/-- Byte strings compare by their first byte, then by the rest. -/
theorem cons_ofNat_lt {m n : Nat} {a b : List UInt8} (hm : m < 256) (hn : n < 256) :
    UInt8.ofNat m :: a < UInt8.ofNat n :: b ↔ m < n ∨ m = n ∧ a < b := by
  rw [List.cons_lt_cons_iff, UInt8.lt_iff_toNat_lt, ← UInt8.toNat_inj, UInt8.toNat_ofNat_of_lt' hm,
    UInt8.toNat_ofNat_of_lt' hn]

theorem sextet_of_lt {m n : Nat} (h : m < n) :
    m / 64 < n / 64 ∨ m / 64 = n / 64 ∧ m % 64 < n % 64 := by
  omega

theorem toNat_val_lt (c : Char) : c.val.toNat < 0x110000 := by
  have hvalid := c.valid
  grind [UInt32.lt_iff_toNat_lt]

/-- Of two characters the smaller has the smaller bytes, whatever follows them. -/
theorem encode_append_lt {c d : Char} (h : c < d) (a b : List UInt8) :
    String.utf8EncodeChar c ++ a < String.utf8EncodeChar d ++ b := by
  have hlt : c.val.toNat < d.val.toNat := h
  have hbound := toNat_val_lt d
  unfold String.utf8EncodeChar
  generalize c.val.toNat = m at *
  generalize d.val.toNat = n at *
  dsimp only
  -- The trailing bytes carry six bits each.
  rw [show m / 4096 = m / 64 / 64 by omega, show n / 4096 = n / 64 / 64 by omega,
    show m / 262144 = m / 64 / 64 / 64 by omega, show n / 262144 = n / 64 / 64 / 64 by omega]
  have hlow := sextet_of_lt hlt
  -- A wider character has the larger first byte; at equal widths the first byte that
  -- differs decides.
  split_ifs
  all_goals
    simp (disch := omega) only [List.cons_append, List.nil_append, cons_ofNat_lt]
    omega

/-! ## Texts -/

/-- Encoding keeps the order of texts. -/
theorem flatMap_lt {l k : List Char} (h : l < k) :
    l.flatMap String.utf8EncodeChar < k.flatMap String.utf8EncodeChar := by
  induction l generalizing k with
  | nil =>
      cases k with
      | nil => exact absurd h (List.lt_irrefl [])
      | cons d k =>
          have hne : (d :: k).flatMap String.utf8EncodeChar ≠ [] := by
            simp [String.utf8EncodeChar_ne_nil]
          obtain ⟨byte, rest, heq⟩ := List.exists_cons_of_ne_nil hne
          rw [List.flatMap_nil, heq]
          exact List.nil_lt_cons byte rest
  | cons c l ih =>
      cases k with
      | nil => exact absurd h (List.not_lt_nil _)
      | cons d k =>
          rw [List.flatMap_cons, List.flatMap_cons]
          rcases List.cons_lt_cons_iff.mp h with hlt | ⟨rfl, hlt⟩
          · exact encode_append_lt hlt _ _
          · exact List.append_left_lt (ih hlt)

/-- Texts compare by their bytes as they do by their characters. -/
theorem bytes_lt_iff {s t : String} : bytes s < bytes t ↔ s < t := by
  rw [bytes_eq_flatMap, bytes_eq_flatMap, String.lt_iff_toList_lt]
  constructor
  · intro h
    rcases lt_trichotomy s.toList t.toList with hlt | heq | hgt
    · exact hlt
    · rw [heq] at h
      exact absurd h (List.lt_irrefl _)
    · exact absurd h (List.lt_asymm (flatMap_lt hgt))
  · exact flatMap_lt

end JobManager.Utf8
