/-
# Characters survive as bytes

Characters that are written as bytes are read back as the same characters. Each character is
written with the least number of bytes, so none of the checks on what is read can fail.
-/

import Shanty.Text.Utf8

namespace Shanty.Text.Utf8

theorem toNat_ofNat {value : Nat} (hvalue : value < 256) : (UInt8.ofNat value).toNat = value := by
  rw [UInt8.toNat_ofNat']
  exact Nat.mod_eq_of_lt hvalue

theorem continuation?_ofNat {bits : Nat} (hbits : bits < 64) :
    continuation? (UInt8.ofNat (bits + 0x80)) = some bits := by
  unfold continuation?
  rw [toNat_ofNat (by omega), if_pos (by omega), Nat.add_sub_cancel]

/-- The scalar value of a character is accepted if it is large enough for its sequence. -/
theorem scalar?_toNat {least : Nat} {c : Char} (hleast : least ≤ c.toNat) :
    scalar? least c.toNat = some c := by
  have hvalid : c.toNat.isValidChar := c.valid
  unfold scalar?
  rw [dif_pos hvalid, if_pos hleast]
  rfl

/-- The bytes of a character are read as this character, all but the first of them in passing. -/
theorem decodeFrom_utf8EncodeChar (c : Char) (rest : List UInt8) :
    decodeFrom 0 (String.utf8EncodeChar c ++ rest) = c :: decodeFrom 0 rest := by
  have hvalue : c.val.toNat = c.toNat := rfl
  have hbound : c.toNat < 0x110000 := by
    have hvalid : c.toNat.isValidChar := c.valid
    rcases hvalid with hvalid | hvalid
    · omega
    · omega
  unfold String.utf8EncodeChar
  simp only [hvalue]
  split
  next hsmall =>
    have hfirst : first? (UInt8.ofNat c.toNat) rest = some (c, 0) := by
      simp only [first?, toNat_ofNat (show c.toNat < 256 by omega)]
      rw [if_pos (by omega), scalar?_toNat (Nat.zero_le _)]
      rfl
    simp only [List.cons_append, List.nil_append, decodeFrom, hfirst]
  split
  next htwo =>
    have hfirst : first? (UInt8.ofNat (c.toNat / 64 % 32 + 192))
        (UInt8.ofNat (c.toNat % 64 + 128) :: rest) = some (c, 1) := by
      simp only [first?, toNat_ofNat (show c.toNat / 64 % 32 + 192 < 256 by omega)]
      rw [if_neg (by omega), if_pos (by omega), continuation?_ofNat (by omega)]
      have hsum : (c.toNat / 64 % 32 + 192 - 192) * 64 + c.toNat % 64 = c.toNat := by omega
      simp only [bind, Option.bind, hsum, scalar?_toNat (show 0x80 ≤ c.toNat by omega)]
      rfl
    simp only [List.cons_append, List.nil_append, decodeFrom, hfirst]
  split
  next hthree =>
    have hfirst : first? (UInt8.ofNat (c.toNat / 4096 % 16 + 224))
        (UInt8.ofNat (c.toNat / 64 % 64 + 128) :: UInt8.ofNat (c.toNat % 64 + 128) :: rest) =
          some (c, 2) := by
      simp only [first?, toNat_ofNat (show c.toNat / 4096 % 16 + 224 < 256 by omega)]
      rw [if_neg (by omega), if_neg (by omega), if_pos (by omega), continuation?_ofNat (by omega),
        continuation?_ofNat (by omega)]
      have hsum : ((c.toNat / 4096 % 16 + 224 - 224) * 64 + c.toNat / 64 % 64) * 64 +
          c.toNat % 64 = c.toNat := by
        omega
      simp only [bind, Option.bind, hsum, scalar?_toNat (show 0x800 ≤ c.toNat by omega)]
      rfl
    simp only [List.cons_append, List.nil_append, decodeFrom, hfirst]
  next hfour =>
    have hfirst : first? (UInt8.ofNat (c.toNat / 262144 % 8 + 240))
        (UInt8.ofNat (c.toNat / 4096 % 64 + 128) :: UInt8.ofNat (c.toNat / 64 % 64 + 128) ::
          UInt8.ofNat (c.toNat % 64 + 128) :: rest) = some (c, 3) := by
      simp only [first?, toNat_ofNat (show c.toNat / 262144 % 8 + 240 < 256 by omega)]
      rw [if_neg (by omega), if_neg (by omega), if_neg (by omega), if_pos (by omega),
        continuation?_ofNat (by omega), continuation?_ofNat (by omega),
        continuation?_ofNat (by omega)]
      have hsum : (((c.toNat / 262144 % 8 + 240 - 240) * 64 + c.toNat / 4096 % 64) * 64 +
          c.toNat / 64 % 64) * 64 + c.toNat % 64 = c.toNat := by
        omega
      simp only [bind, Option.bind, hsum, scalar?_toNat (show 0x10000 ≤ c.toNat by omega)]
      rfl
    simp only [List.cons_append, List.nil_append, decodeFrom, hfirst]

/-- What is written as bytes is read as it was. -/
theorem decode_encode (chars : List Char) : decode (encode chars) = chars := by
  unfold decode encode
  induction chars with
  | nil => rfl
  | cons c chars ih => rw [List.flatMap_cons, decodeFrom_utf8EncodeChar, ih]

end Shanty.Text.Utf8
