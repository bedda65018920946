import CssValues.MathExpr.Scan

/-!
# Bytes of characters

An ASCII character is one byte, and the bytes of every other character are at least 128. So a byte
below 128 in a text is always an ASCII character, and a search for such a character may go by bytes.
-/

namespace CssValues

/-- An ASCII character is its own byte. -/
theorem utf8EncodeChar_of_lt {c : Char} (hc : c.toNat < 128) :
    String.utf8EncodeChar c = [c.toUInt8] := by
  have hle : c.val.toNat ≤ 127 := Nat.le_of_lt_succ hc
  rw [String.utf8EncodeChar, if_pos hle]
  exact congrArg (· :: []) (UInt8.ofNat_uInt32ToNat c.val)

/-- No byte of a character beyond ASCII is an ASCII character. -/
theorem le_of_mem_utf8EncodeChar {c : Char} (hc : 128 ≤ c.toNat) {byte : UInt8}
    (hbyte : byte ∈ String.utf8EncodeChar c) : 128 ≤ byte.toNat := by
  have hgt : ¬ c.val.toNat ≤ 127 := Nat.not_le.mpr hc
  simp only [String.utf8EncodeChar, hgt, if_false] at hbyte
  split at hbyte
  · simp only [List.mem_cons, List.not_mem_nil, or_false] at hbyte
    rcases hbyte with rfl | rfl <;> simp <;> omega
  · split at hbyte <;> simp only [List.mem_cons, List.not_mem_nil, or_false] at hbyte
    · rcases hbyte with rfl | rfl | rfl <;> simp <;> omega
    · rcases hbyte with rfl | rfl | rfl | rfl <;> simp <;> omega

/-- ASCII characters with the same byte are the same. -/
theorem toUInt8_inj {c d : Char} (hc : c.toNat < 128) (hd : d.toNat < 128) :
    c.toUInt8 = d.toUInt8 ↔ c = d := by
  constructor
  · intro h
    have hbyte : c.toNat % 256 = d.toNat % 256 := congrArg UInt8.toNat h
    apply Char.ext
    apply UInt32.toNat.inj
    change c.toNat = d.toNat
    omega
  · intro h
    rw [h]

/-- The byte of an ASCII character is its code point. -/
theorem toNat_toUInt8 {c : Char} (hc : c.toNat < 128) : c.toUInt8.toNat = c.toNat := by
  change c.toNat % 256 = c.toNat
  omega

/-- The empty text has no bytes. -/
@[simp] theorem utf8Bytes_nil : utf8Bytes [] = [] := rfl

/-- The first bytes of a text are those of its first character. -/
theorem utf8Bytes_cons (c : Char) (text : List Char) :
    utf8Bytes (c :: text) = String.utf8EncodeChar c ++ utf8Bytes text := List.flatMap_cons

/-- A text that starts with an ASCII character starts with its byte. -/
theorem utf8Bytes_cons_of_lt {c : Char} (hc : c.toNat < 128) (text : List Char) :
    utf8Bytes (c :: text) = c.toUInt8 :: utf8Bytes text := by
  rw [utf8Bytes_cons, utf8EncodeChar_of_lt hc, List.singleton_append]

/-- Only the empty text has no bytes. -/
theorem utf8Bytes_eq_nil_iff {text : List Char} : utf8Bytes text = [] ↔ text = [] := by
  cases text with
  | nil => simp
  | cons c text =>
    simp [utf8Bytes_cons, String.utf8EncodeChar_ne_nil]

/-- The first byte of a text is that of an ASCII character exactly when the first character is
that character. -/
theorem head?_utf8Bytes_iff {d : Char} (hd : d.toNat < 128) (text : List Char) :
    (utf8Bytes text).head? = some d.toUInt8 ↔ text.head? = some d := by
  cases text with
  | nil => simp
  | cons c text =>
    by_cases hc : c.toNat < 128
    · simp only [utf8Bytes_cons_of_lt hc, List.head?_cons, Option.some.injEq]
      exact toUInt8_inj hc hd
    · obtain ⟨byte, bytes, hbytes⟩ :=
        List.exists_cons_of_ne_nil (String.utf8EncodeChar_ne_nil (c := c))
      have hbyte : 128 ≤ byte.toNat :=
        le_of_mem_utf8EncodeChar (Nat.not_lt.mp hc) (hbytes ▸ List.mem_cons_self)
      simp only [utf8Bytes_cons, hbytes, List.cons_append, List.head?_cons, Option.some.injEq]
      constructor
      · intro h
        rw [h, toNat_toUInt8 hd] at hbyte
        omega
      · intro h
        exact absurd (h ▸ hd) hc

end CssValues
