import SchemaInference.Text.Utf8

/-! Reading UTF-8 gives back the characters that were written. A character has a form of one to four
bytes; each form is read as the bits that it was made of. -/
namespace SchemaInference.Text

theorem toNat_ofNat_byte {n : Nat} (small : n < 256) : (UInt8.ofNat n).toNat = n := by
  rw [UInt8.toNat_ofNat']
  omega

section Bytes
variable {position : Nat} {done : List Char} {rest : List UInt8} {a b c d : Nat}

/-- A byte that is written for six bits of a character. -/
theorem continues_ofNat (small : b < 64) : continues (UInt8.ofNat (b + 128)) = true := by
  have value : (UInt8.ofNat (b + 128)).toNat = b + 128 := toNat_ofNat_byte (by omega)
  simp only [continues, Bool.and_eq_true, decide_eq_true_eq, UInt8.le_iff_toNat_le,
    UInt8.lt_iff_toNat_lt, value, UInt8.reduceToNat]
  omega

theorem tail6_ofNat (small : b < 64) : tail6 (UInt8.ofNat (b + 128)) = b := by
  rw [tail6, toNat_ofNat_byte (by omega)]
  omega

/-- The first two bytes of a character of three or four. -/
theorem admits_ofNat (lead : a < 32) (second : b < 64) (shortest : a = 0 → 32 ≤ b)
    (noHalf : a = 13 → b < 32) (shortest' : a = 16 → 16 ≤ b) (inRange : a = 20 → b < 16) :
    admits (UInt8.ofNat (a + 224)) (UInt8.ofNat (b + 128)) = true := by
  have value : (UInt8.ofNat (a + 224)).toNat = a + 224 := toNat_ofNat_byte (by omega)
  have value' : (UInt8.ofNat (b + 128)).toNat = b + 128 := toNat_ofNat_byte (by omega)
  simp only [admits, continues_ofNat second, Bool.and_eq_true, Bool.not_eq_true',
    Bool.and_eq_false_iff, beq_eq_false_iff_ne, decide_eq_false_iff_not, ne_eq,
    ← UInt8.toNat_inj, UInt8.le_iff_toNat_le, UInt8.lt_iff_toNat_lt, value, value',
    UInt8.reduceToNat, true_and]
  omega

theorem decodeUtf8From_one (ascii : a < 128) :
    decodeUtf8From position done (UInt8.ofNat a :: rest) =
      decodeUtf8From (position + 1) (Char.ofNat a :: done) rest := by
  have value : (UInt8.ofNat a).toNat = a := toNat_ofNat_byte (by omega)
  rw [decodeUtf8From.eq_def]
  simp only [UInt8.lt_iff_toNat_lt, value, UInt8.reduceToNat, ascii, if_true]

theorem decodeUtf8From_two (proper : 2 ≤ a) (lead : a < 32) (second : b < 64) :
    decodeUtf8From position done (UInt8.ofNat (a + 192) :: UInt8.ofNat (b + 128) :: rest) =
      decodeUtf8From (position + 2) (Char.ofNat (a * 64 + b) :: done) rest := by
  have value : (UInt8.ofNat (a + 192)).toNat = a + 192 := toNat_ofNat_byte (by omega)
  have bits : (a + 192) % 32 = a := by omega
  rw [decodeUtf8From.eq_def]
  simp only [UInt8.lt_iff_toNat_lt, value, UInt8.reduceToNat, continues_ofNat second,
    tail6_ofNat second, bits, if_true]
  rw [if_neg (by omega), if_neg (by omega), if_pos (by omega)]

theorem decodeUtf8From_three (lead : a < 16) (second : b < 64) (third : c < 64)
    (shortest : a = 0 → 32 ≤ b) (noHalf : a = 13 → b < 32) :
    decodeUtf8From position done
        (UInt8.ofNat (a + 224) :: UInt8.ofNat (b + 128) :: UInt8.ofNat (c + 128) :: rest) =
      decodeUtf8From (position + 3) (Char.ofNat ((a * 64 + b) * 64 + c) :: done) rest := by
  have value : (UInt8.ofNat (a + 224)).toNat = a + 224 := toNat_ofNat_byte (by omega)
  have bits : (a + 224) % 16 = a := by omega
  have admitted : admits (UInt8.ofNat (a + 224)) (UInt8.ofNat (b + 128)) = true :=
    admits_ofNat (by omega) second shortest noHalf (by omega) (by omega)
  rw [decodeUtf8From.eq_def]
  simp only [UInt8.lt_iff_toNat_lt, value, UInt8.reduceToNat, continues_ofNat third,
    tail6_ofNat second, tail6_ofNat third, admitted, bits, if_true, Bool.not_true,
    Bool.false_eq_true, if_false]
  rw [if_neg (by omega), if_neg (by omega), if_neg (by omega), if_pos (by omega)]

theorem decodeUtf8From_four (lead : a < 5) (second : b < 64) (third : c < 64) (fourth : d < 64)
    (shortest : a = 0 → 16 ≤ b) (inRange : a = 4 → b < 16) :
    decodeUtf8From position done
        (UInt8.ofNat (a + 240) :: UInt8.ofNat (b + 128) :: UInt8.ofNat (c + 128) ::
          UInt8.ofNat (d + 128) :: rest) =
      decodeUtf8From (position + 4) (Char.ofNat (((a * 64 + b) * 64 + c) * 64 + d) :: done)
        rest := by
  have value : (UInt8.ofNat (a + 240)).toNat = a + 240 := toNat_ofNat_byte (by omega)
  have bits : (a + 240) % 8 = a := by omega
  have admitted : admits (UInt8.ofNat (a + 16 + 224)) (UInt8.ofNat (b + 128)) = true :=
    admits_ofNat (by omega) second (by omega) (by omega) (by omega) (by omega)
  rw [decodeUtf8From.eq_def]
  simp only [UInt8.lt_iff_toNat_lt, value, UInt8.reduceToNat, continues_ofNat third,
    continues_ofNat fourth, tail6_ofNat second, tail6_ofNat third, tail6_ofNat fourth, admitted,
    bits, if_true, Bool.not_true, Bool.false_eq_true, if_false]
  rw [if_neg (by omega), if_neg (by omega), if_neg (by omega), if_neg (by omega),
    if_pos (by omega)]

end Bytes

/-- The bytes of a character are read as that character, whatever stands after them. -/
theorem decodeUtf8From_char (position : Nat) (done : List Char) (c : Char) (rest : List UInt8) :
    decodeUtf8From position done (String.utf8EncodeChar c ++ rest) =
      decodeUtf8From (position + (String.utf8EncodeChar c).length) (c :: done) rest := by
  have inRange : c.toNat < 0xD800 ∨ (0xDFFF < c.toNat ∧ c.toNat < 0x110000) := c.valid
  have point : c.val.toNat = c.toNat := rfl
  have same {n : Nat} (value : n = c.toNat) : Char.ofNat n = c := by rw [value, Char.ofNat_toNat]
  unfold String.utf8EncodeChar
  simp only [point]
  split
  · refine (decodeUtf8From_one (by omega)).trans ?_
    rw [same rfl]
    rfl
  · split
    · refine (decodeUtf8From_two (by omega) (by omega) (by omega)).trans ?_
      rw [same (by omega)]
      rfl
    · split
      · refine (decodeUtf8From_three (by omega) (by omega) (by omega) (by omega)
          (by omega)).trans ?_
        rw [same (by omega)]
        rfl
      · refine (decodeUtf8From_four (by omega) (by omega) (by omega) (by omega) (by omega)
          (by omega)).trans ?_
        rw [same (by omega)]
        rfl

/-- Bytes of UTF-8 are read as the characters that were written. -/
theorem decodeUtf8_utf8 (cs : List Char) :
    decodeUtf8 (cs.flatMap String.utf8EncodeChar) = .ok cs := by
  have started (position : Nat) (done : List Char) :
      decodeUtf8From position done (cs.flatMap String.utf8EncodeChar) =
        .ok (done.reverse ++ cs) := by
    induction cs generalizing position done with
    | nil => simp [decodeUtf8From]
    | cons c cs ih =>
      rw [List.flatMap_cons, decodeUtf8From_char, ih]
      simp
  exact started 0 []

end SchemaInference.Text
