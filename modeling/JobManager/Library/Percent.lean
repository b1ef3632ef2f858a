import JobManager.Library.Utf8

/-!
# Percent-encoding

A text is sent as a sequence of characters that means the same to whoever splits it at
reserved ones: a byte is written plainly or as two hexadecimal digits behind a percent sign.
Which bytes are written plainly is a parameter; the percent sign never is.

Main results:

- Theorem {lit}`decode_encode`: whoever decodes reads the encoded bytes.
- Theorem {lit}`not_mem_encode`: an encoded text holds no reserved character.
- Theorem {lit}`decode_plain`: a text of plain characters is read as it stands.
-/

namespace JobManager.Percent

/-! ## Digits -/

/-- Digits a byte is spelled with. -/
def hexDigits : List Char :=
  ['0', '1', '2', '3', '4', '5', '6', '7', '8', '9', 'A', 'B', 'C', 'D', 'E', 'F']

def hexDigit (n : Nat) : Char := hexDigits.getD n '0'

/-- The value of a digit of either case. -/
def hexValue (c : Char) : Option Nat :=
  if '0' ≤ c ∧ c ≤ '9' then some (c.toNat - '0'.toNat)
  else if 'A' ≤ c ∧ c ≤ 'F' then some (c.toNat - 'A'.toNat + 10)
  else if 'a' ≤ c ∧ c ≤ 'f' then some (c.toNat - 'a'.toNat + 10)
  else none

/-- A digit reads back as the value it was written for. -/
theorem hexValue_hexDigit : ∀ n < 16, hexValue (hexDigit n) = some n := by
  decide

/-! ## Texts -/

variable (isPlain : UInt8 → Bool)

/-- One byte. -/
def encodeByte (b : UInt8) : List Char :=
  if isPlain b then [Char.ofNat b.toNat]
  else ['%', hexDigit (b >>> 4).toNat, hexDigit (b &&& 0x0F).toNat]

def encode (bytes : List UInt8) : List Char := bytes.flatMap (encodeByte isPlain)

/-- What whoever receives a text reads; nothing where it is malformed. -/
def decode : List Char → Option (List UInt8)
  | [] => some []
  | '%' :: high :: low :: text => do
      return UInt8.ofNat (16 * (← hexValue high) + (← hexValue low)) :: (← decode text)
  | c :: text =>
      if c ≠ '%' ∧ c.toNat < 128 then (decode text).map (UInt8.ofNat c.toNat :: ·) else none

/-- A character that escapes nothing stands for itself. -/
theorem decode_cons {c : Char} (hc : c ≠ '%') (hascii : c.toNat < 128) (text : List Char) :
    decode (c :: text) = (decode text).map (UInt8.ofNat c.toNat :: ·) := by
  rw [decode]
  · rw [if_pos ⟨hc, hascii⟩]
  · rintro high low text rfl
    exact absurd rfl hc

variable {isPlain}

theorem toNat_ofNat : ∀ n < 128, (Char.ofNat n).toNat = n := by
  decide

/-- A byte is its two digits. -/
theorem digits_byte (b : UInt8) :
    (b >>> 4).toNat < 16 ∧ (b &&& 0x0F).toNat < 16 ∧
      UInt8.ofNat (16 * (b >>> 4).toNat + (b &&& 0x0F).toNat) = b := by
  have hhigh : (b >>> 4).toNat = b.toNat / 16 := by
    rw [UInt8.toNat_shiftRight]
    exact Nat.shiftRight_eq_div_pow b.toNat 4
  have hlow : (b &&& 0x0F).toNat = b.toNat % 16 := by
    rw [UInt8.toNat_and]
    exact Nat.and_two_pow_sub_one_eq_mod b.toNat 4
  have hbound := b.toNat_lt
  refine ⟨by omega, by omega, ?_⟩
  rw [hhigh, hlow, Nat.div_add_mod]
  exact UInt8.ofNat_toNat

/-- An encoded byte reads back. -/
theorem decode_encodeByte (hpercent : isPlain 37 = false)
    (hascii : ∀ b, isPlain b = true → b.toNat < 128) (b : UInt8) (text : List Char) :
    decode (encodeByte isPlain b ++ text) = (decode text).map (b :: ·) := by
  rw [encodeByte]
  split <;> rename_i hplain
  · have hchar := toNat_ofNat b.toNat (hascii b hplain)
    have hne : Char.ofNat b.toNat ≠ '%' := by
      intro heq
      have hb : b = 37 := by
        rw [heq] at hchar
        exact UInt8.toNat_inj.mp hchar.symm
      rw [hb, hpercent] at hplain
      cases hplain
    rw [List.singleton_append, decode_cons hne (by rw [hchar]; exact hascii b hplain), hchar,
      UInt8.ofNat_toNat]
  · obtain ⟨hhigh, hlow, hbyte⟩ := digits_byte b
    simp only [List.cons_append, List.nil_append, decode, hexValue_hexDigit _ hhigh,
      hexValue_hexDigit _ hlow, bind, Option.bind, hbyte]
    cases decode text <;> rfl

/-- Whoever decodes reads the encoded bytes. -/
theorem decode_encode (hpercent : isPlain 37 = false)
    (hascii : ∀ b, isPlain b = true → b.toNat < 128) (bytes : List UInt8) :
    decode (encode isPlain bytes) = some bytes := by
  induction bytes with
  | nil => rfl
  | cons b bytes ih =>
      rw [encode, List.flatMap_cons, decode_encodeByte hpercent hascii, ← encode, ih]
      rfl

/-- A character that is neither plain nor one an escape is written with is in no encoded text. -/
theorem not_mem_encode {c : Char} (hplain : ∀ b, isPlain b = true → Char.ofNat b.toNat ≠ c)
    (hpercent : c ≠ '%') (hdigit : c ∉ hexDigits) (bytes : List UInt8) :
    c ∉ encode isPlain bytes := by
  intro hmem
  obtain ⟨b, -, hb⟩ := List.mem_flatMap.mp hmem
  rw [encodeByte] at hb
  split at hb <;> rename_i hisPlain
  · exact hplain b hisPlain (List.mem_singleton.mp hb).symm
  · have hhex : ∀ n < 16, hexDigit n ∈ hexDigits := by decide
    obtain ⟨hhigh, hlow, -⟩ := digits_byte b
    rcases List.mem_cons.mp hb with heq | hb
    · exact hpercent heq
    · rcases List.mem_cons.mp hb with rfl | hb
      · exact hdigit (hhex _ hhigh)
      · rw [List.mem_singleton.mp hb] at hdigit
        exact hdigit (hhex _ hlow)

/-- A text of plain characters is read as it stands. -/
theorem decode_plain {text : List Char} (h : ∀ c ∈ text, c ≠ '%' ∧ c.toNat < 128) :
    decode text = some (text.flatMap String.utf8EncodeChar) := by
  induction text with
  | nil => rfl
  | cons c text ih =>
      obtain ⟨hc, hascii⟩ := h c List.mem_cons_self
      have hencoded : String.utf8EncodeChar c = [UInt8.ofNat c.toNat] :=
        if_pos (Nat.le_of_lt_succ hascii)
      rw [decode_cons hc hascii, ih fun c' hc' => h c' (List.mem_cons_of_mem _ hc'),
        List.flatMap_cons, hencoded]
      rfl

end JobManager.Percent
