import Mathlib.Data.String.Basic
import Mathlib.Tactic.Common

/-!
# Decimal numerals of a fixed width

Numbers written in decimal digits and filled up with zeros to a width, so that texts
of one width compare as the numbers they stand for.

Main results:

- Theorem {lit}`ofDigitChars_padded`: reading a numeral gives the number back.
- Theorem {lit}`padded_lt_padded`: numerals of one width compare as their numbers.
- Theorem {lit}`append_lt_append_iff`: a shared beginning does not change the order of
  two texts.
-/

namespace JobManager.Decimal

/-- The decimal numeral of a number, filled up with zeros to the given width. -/
def padded (width n : Nat) : List Char := (Nat.toDigits 10 n).leftpad width '0'

/-- Texts of decimal digits only. -/
def Digits (l : List Char) : Prop := ∀ c ∈ l, c.isDigit = true

/-! ## Numerals -/

/-- A padded number is written in digits. -/
theorem digits_padded (width n : Nat) : Digits (padded width n) := by
  intro c hc
  rcases List.mem_append.mp hc with hzero | hdigit
  · rw [(List.mem_replicate.mp hzero).2]
    rfl
  · exact Nat.isDigit_of_mem_toDigits (by decide) (by decide) hdigit

/-- A number that fits is padded to the width. -/
theorem length_padded {width n : Nat} (hwidth : 0 < width) (h : n < 10 ^ width) :
    (padded width n).length = width := by
  have hlen := (Nat.length_toDigits_le_iff (b := 10) (by decide) hwidth).mpr h
  rw [padded, List.length_leftpad]
  omega

/-- Reading a numeral gives the number back. -/
theorem ofDigitChars_padded (width n : Nat) : Nat.ofDigitChars 10 (padded width n) 0 = n := by
  rw [padded, List.leftpad, Nat.ofDigitChars_append]
  simp

/-! ## Order -/

/-- Texts with the same beginning compare by the rest. -/
theorem append_lt_append_iff (l : List Char) {a b : List Char} : l ++ a < l ++ b ↔ a < b := by
  induction l with
  | nil => exact Iff.rfl
  | cons c l ih => simp [ih]

/-- An ending shared by two texts of one length does not change their order either. -/
theorem append_lt_append_right_iff (e : List Char) {a b : List Char} (h : a.length = b.length) :
    a ++ e < b ++ e ↔ a < b := by
  induction a generalizing b with
  | nil =>
      have hnil : b = [] := List.length_eq_zero_iff.mp h.symm
      subst hnil
      simp
  | cons c a ih =>
      cases b with
      | nil => cases h
      | cons d b =>
          have hlen : a.length = b.length := by simpa using h
          simp [List.cons_lt_cons_iff, ih hlen]

theorem digit_bounds {c : Char} (h : c.isDigit = true) : 48 ≤ c.toNat ∧ c.toNat ≤ 57 := by
  simpa using Char.isDigit_iff_toNat.mp h

/-- The leading digit stands for its value at the place it is written in. -/
theorem ofDigitChars_cons_zero (c : Char) (l : List Char) :
    Nat.ofDigitChars 10 (c :: l) 0 = 10 ^ l.length * (c.toNat - 48) + Nat.ofDigitChars 10 l 0 := by
  rw [Nat.ofDigitChars_cons, Nat.ofDigitChars_eq_ofDigitChars_zero]
  simp

/-- So many digits write so many numbers. -/
theorem ofDigitChars_lt {l : List Char} (h : Digits l) :
    Nat.ofDigitChars 10 l 0 < 10 ^ l.length := by
  induction l with
  | nil => simp
  | cons c l ih =>
      have hc := h c List.mem_cons_self
      have hl := ih fun c hc => h c (List.mem_cons_of_mem _ hc)
      have hdigit : c.toNat - 48 ≤ 9 := by
        have := digit_bounds hc
        omega
      have hplace := Nat.mul_le_mul_left (10 ^ l.length) hdigit
      rw [ofDigitChars_cons_zero, List.length_cons, Nat.pow_succ]
      omega

/-- Texts of digits of one length compare as the numbers they stand for. -/
theorem digits_lt_iff {a b : List Char} (ha : Digits a) (hb : Digits b)
    (hlen : a.length = b.length) :
    a < b ↔ Nat.ofDigitChars 10 a 0 < Nat.ofDigitChars 10 b 0 := by
  induction a generalizing b with
  | nil =>
      have hnil : b = [] := List.length_eq_zero_iff.mp hlen.symm
      subst hnil
      simp
  | cons c a ih =>
      cases b with
      | nil => cases hlen
      | cons d b =>
          have hlen : a.length = b.length := by simpa using hlen
          have haTail : Digits a := fun x hx => ha x (List.mem_cons_of_mem _ hx)
          have hbTail : Digits b := fun x hx => hb x (List.mem_cons_of_mem _ hx)
          have hc := digit_bounds (ha c List.mem_cons_self)
          have hd := digit_bounds (hb d List.mem_cons_self)
          have hlt_a := ofDigitChars_lt haTail
          have hlt_b := ofDigitChars_lt hbTail
          rw [List.cons_lt_cons_iff, ih haTail hbTail hlen, ofDigitChars_cons_zero,
            ofDigitChars_cons_zero, ← hlen]
          rw [← hlen] at hlt_b
          -- The leading digit decides unless the two agree on it.
          rcases Nat.lt_trichotomy c.toNat d.toNat with hlt | heq | hgt
          · have hstep := Nat.mul_le_mul_left (10 ^ a.length)
              (show c.toNat - 48 + 1 ≤ d.toNat - 48 by omega)
            rw [Nat.mul_add] at hstep
            constructor
            · intro _
              omega
            · intro _
              exact Or.inl hlt
          · have hcd : c = d := Char.toNat_inj.mp heq
            subst hcd
            simp
          · have hstep := Nat.mul_le_mul_left (10 ^ a.length)
              (show d.toNat - 48 + 1 ≤ c.toNat - 48 by omega)
            rw [Nat.mul_add] at hstep
            constructor
            · rintro (hlt | ⟨heq, -⟩)
              · exact absurd hlt (Nat.lt_asymm hgt)
              · rw [heq] at hgt
                exact absurd hgt (Nat.lt_irrefl _)
            · intro hlt
              omega

/-- Numerals of one width compare as their numbers. -/
theorem padded_lt_padded {width m n : Nat} (hwidth : 0 < width) (hm : m < 10 ^ width)
    (hn : n < 10 ^ width) : padded width m < padded width n ↔ m < n := by
  rw [digits_lt_iff (digits_padded _ _) (digits_padded _ _)
    ((length_padded hwidth hm).trans (length_padded hwidth hn).symm), ofDigitChars_padded,
    ofDigitChars_padded]

end JobManager.Decimal
