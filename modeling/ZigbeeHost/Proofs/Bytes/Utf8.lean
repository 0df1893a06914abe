import ZigbeeHost.Bytes.Utf8
/-!
# Text that is well formed

The bytes of a text are those of its characters (`toUTF8_toList`). `lossyText` takes one
character at a time off their front : the lead byte says how many bytes continue it, and
with the bounds for the second byte they are the digits of the code point in base 64
(`lossyChars_utf8EncodeChar`). So a well-formed text is read as it is (`lossyText_toUTF8`).
-/

namespace ZigbeeHost

/-! ## The bytes of a text -/

/-- The loop reads the bytes from its index on. -/
theorem toList_loop (bytes : ByteArray) (i : Nat) (read : List UInt8) :
    ByteArray.toList.loop bytes i read = read.reverse ++ bytes.data.toList.drop i := by
  fun_induction ByteArray.toList.loop bytes i read with
  | case1 i read hi ih =>
    have hlength : i < bytes.data.toList.length := by simpa using hi
    have hbyte : bytes.get! i = bytes.data.toList[i] := by
      simp [ByteArray.get!, getElem!_pos bytes.data i hi]
    rw [ih, List.drop_eq_getElem_cons hlength, hbyte]
    simp
  | case2 i read hi =>
    have hlength : bytes.data.toList.length ≤ i := by simpa using hi
    rw [List.drop_eq_nil_of_le hlength, List.append_nil]

/-- The bytes of a text are those of its characters, one after the other. -/
theorem toUTF8_toList (text : String) :
    text.toUTF8.toList = text.toList.flatMap String.utf8EncodeChar := by
  have hbytes : text.toUTF8 = text.toList.utf8Encode := by
    rw [String.toUTF8_eq_toByteArray, String.utf8Encode_toList]
  rw [hbytes, List.utf8Encode, ByteArray.toList, toList_loop]
  simp

/-! ## One character -/

/-- A byte that continues a sequence. -/
def continuationByte (n : Nat) : UInt8 := .ofNat (n % 64 + 0x80)

theorem toNat_continuationByte (n : Nat) : (continuationByte n).toNat = n % 64 + 0x80 := by
  rw [continuationByte, UInt8.toNat_ofNat']
  omega

theorem readContinuation_zero (acc : Nat) (lo hi : UInt8) (rest : Bytes) :
    readContinuation 0 acc lo hi rest = (some acc, rest) := by
  cases rest <;> rfl

/-- A continuation byte within the bounds brings six more bits. -/
theorem readContinuation_of_bounds {lo hi : UInt8} {n : Nat} (missing acc : Nat) (rest : Bytes)
    (hlo : lo.toNat ≤ n % 64 + 0x80) (hhi : n % 64 + 0x80 ≤ hi.toNat) :
    readContinuation (missing + 1) acc lo hi (continuationByte n :: rest) =
      readContinuation missing (64 * acc + n % 64) 0x80 0xBF rest := by
  have hbounds : lo ≤ continuationByte n ∧ continuationByte n ≤ hi := by
    rw [UInt8.le_iff_toNat_le, UInt8.le_iff_toNat_le, toNat_continuationByte]
    exact ⟨hlo, hhi⟩
  have hdigit : (n % 64 + 0x80) % 64 = n % 64 := by omega
  rw [readContinuation, if_pos hbounds, toNat_continuationByte, hdigit]

/-- Behind the second byte, any continuation will do. -/
theorem readContinuation_continuationByte (missing acc n : Nat) (rest : Bytes) :
    readContinuation (missing + 1) acc 0x80 0xBF (continuationByte n :: rest) =
      readContinuation missing (64 * acc + n % 64) 0x80 0xBF rest := by
  have hlo : (0x80 : UInt8).toNat = 128 := rfl
  have hhi : (0xBF : UInt8).toNat = 191 := rfl
  exact readContinuation_of_bounds missing acc rest (by omega) (by omega)

/-- The lead byte of a sequence, with the high digits of the code point. -/
def leadByte (mark digits : Nat) : UInt8 := .ofNat (digits + mark)

theorem toNat_leadByte (mark digits : Nat) (h : digits + mark < 256) :
    (leadByte mark digits).toNat = digits + mark := by
  rw [leadByte, UInt8.toNat_ofNat']
  exact Nat.mod_eq_of_lt h

/-- The bytes of a character, by its number: one, two, three or four of them. -/
theorem utf8EncodeChar_eq (c : Char) :
    String.utf8EncodeChar c =
      if c.toNat ≤ 0x7F then [.ofNat c.toNat]
      else if c.toNat ≤ 0x7FF then [leadByte 0xC0 (c.toNat / 64 % 32), continuationByte c.toNat]
      else if c.toNat ≤ 0xFFFF then
        [leadByte 0xE0 (c.toNat / 4096 % 16), continuationByte (c.toNat / 64),
          continuationByte c.toNat]
      else
        [leadByte 0xF0 (c.toNat / 262144 % 8), continuationByte (c.toNat / 4096),
          continuationByte (c.toNat / 64), continuationByte c.toNat] := rfl

theorem secondByteRange?_of_two {b : UInt8} (hlo : 0xC2 ≤ b.toNat) (hhi : b.toNat ≤ 0xDF) :
    secondByteRange? b = some (2, 0x80, 0xBF) := by
  rw [secondByteRange?, if_pos]
  exact ⟨UInt8.le_iff_toNat_le.2 hlo, UInt8.le_iff_toNat_le.2 hhi⟩

theorem secondByteRange?_of_three {b : UInt8} (hlo : 0xE0 < b.toNat) (hhi : b.toNat ≤ 0xEF)
    (hne : b.toNat ≠ 0xED) : secondByteRange? b = some (3, 0x80, 0xBF) := by
  simp only [secondByteRange?, UInt8.le_iff_toNat_le, ← UInt8.toNat_inj, UInt8.reduceToNat]
  rw [if_neg (by omega), if_neg (by omega), if_neg (by omega), if_pos (by omega)]

theorem secondByteRange?_of_four {b : UInt8} (hlo : 0xF0 < b.toNat) (hhi : b.toNat ≤ 0xF3) :
    secondByteRange? b = some (4, 0x80, 0xBF) := by
  simp only [secondByteRange?, UInt8.le_iff_toNat_le, ← UInt8.toNat_inj, UInt8.reduceToNat]
  rw [if_neg (by omega), if_neg (by omega), if_neg (by omega), if_neg (by omega),
    if_neg (by omega), if_pos (by omega)]

/-- Surrogates are no characters, and there is a last one. -/
theorem toNat_valid (c : Char) : c.toNat < 0xD800 ∨ 0xDFFF < c.toNat ∧ c.toNat < 0x110000 :=
  c.valid

/-- A sequence of several bytes, from what its lead byte says and how the others are read. -/
theorem lossyChars_of_range {b : UInt8} {count : Nat} {lo hi : UInt8} {c : Char}
    {bytes rest : Bytes} (hrange : secondByteRange? b = some (count, lo, hi))
    (hhigh : 0x80 ≤ b.toNat)
    (hread : readContinuation (count - 1) (b.toNat % (0x80 >>> count)) lo hi bytes =
      (some c.toNat, rest)) : lossyChars (b :: bytes) = c :: lossyChars rest := by
  have hlead : ¬b < 0x80 := by
    rw [UInt8.not_lt, UInt8.le_iff_toNat_le]
    exact hhigh
  rw [lossyChars, if_neg hlead, hrange]
  simp only [hread, Option.map_some, Option.getD_some, Char.ofNat_toNat]

section Characters

variable (c : Char) (rest : Bytes)

theorem lossyChars_of_one_byte (hc : c.toNat ≤ 0x7F) :
    lossyChars (.ofNat c.toNat :: rest) = c :: lossyChars rest := by
  have hnat : (UInt8.ofNat c.toNat).toNat = c.toNat := by
    rw [UInt8.toNat_ofNat']
    omega
  have hlow : UInt8.ofNat c.toNat < 0x80 := by
    rw [UInt8.lt_iff_toNat_lt, hnat]
    exact Nat.lt_succ_of_le hc
  rw [lossyChars, if_pos hlow, hnat, Char.ofNat_toNat]

/-- A character of two bytes reads back. -/
theorem lossyChars_of_two_bytes (hc : 0x7F < c.toNat) (hc' : c.toNat ≤ 0x7FF) :
    lossyChars (leadByte 0xC0 (c.toNat / 64 % 32) :: continuationByte c.toNat :: rest) =
      c :: lossyChars rest := by
  have hlead := toNat_leadByte 0xC0 (c.toNat / 64 % 32) (by omega)
  have hrange := secondByteRange?_of_two (b := leadByte 0xC0 (c.toNat / 64 % 32))
    (by omega) (by omega)
  have hcode : 64 * ((c.toNat / 64 % 32 + 0xC0) % 32) + c.toNat % 64 = c.toNat := by omega
  refine lossyChars_of_range hrange (by omega) ?_
  rw [hlead]
  calc readContinuation 1 ((c.toNat / 64 % 32 + 0xC0) % 32) 0x80 0xBF
        (continuationByte c.toNat :: rest)
      = readContinuation 0 c.toNat 0x80 0xBF rest := by
        rw [readContinuation_continuationByte, hcode]
    _ = (some c.toNat, rest) := readContinuation_zero ..

/-- The second byte of three is bounded where the lead byte alone would allow an overlong
form or a surrogate. -/
theorem lossyChars_of_three_bytes (hc : 0x7FF < c.toNat) (hc' : c.toNat ≤ 0xFFFF) :
    lossyChars (leadByte 0xE0 (c.toNat / 4096 % 16) :: continuationByte (c.toNat / 64) ::
      continuationByte c.toNat :: rest) = c :: lossyChars rest := by
  have hvalid := toNat_valid c
  have hlead := toNat_leadByte 0xE0 (c.toNat / 4096 % 16) (by omega)
  have hrange : ∃ lo hi : UInt8, secondByteRange? (leadByte 0xE0 (c.toNat / 4096 % 16)) =
      some (3, lo, hi) ∧ lo.toNat ≤ c.toNat / 64 % 64 + 0x80 ∧
        c.toNat / 64 % 64 + 0x80 ≤ hi.toNat := by
    rcases (by omega : c.toNat / 4096 % 16 = 0 ∨ c.toNat / 4096 % 16 = 13 ∨
      c.toNat / 4096 % 16 ≠ 0 ∧ c.toNat / 4096 % 16 ≠ 13) with h | h | ⟨hzero, hsurrogate⟩
    · refine ⟨0xA0, 0xBF, by rw [h]; rfl, ?_⟩
      simp only [UInt8.reduceToNat]
      omega
    · refine ⟨0x80, 0x9F, by rw [h]; rfl, ?_⟩
      simp only [UInt8.reduceToNat]
      omega
    · refine ⟨0x80, 0xBF, secondByteRange?_of_three (by omega) (by omega) (by omega), ?_⟩
      simp only [UInt8.reduceToNat]
      omega
  obtain ⟨lo, hi, hrange, hlo, hhi⟩ := hrange
  have hhigh : 64 * ((c.toNat / 4096 % 16 + 0xE0) % 16) + c.toNat / 64 % 64 = c.toNat / 64 := by
    omega
  have hcode : 64 * (c.toNat / 64) + c.toNat % 64 = c.toNat := by omega
  refine lossyChars_of_range hrange (by omega) ?_
  rw [hlead]
  calc readContinuation 2 ((c.toNat / 4096 % 16 + 0xE0) % 16) lo hi
        (continuationByte (c.toNat / 64) :: continuationByte c.toNat :: rest)
      = readContinuation 1 (c.toNat / 64) 0x80 0xBF (continuationByte c.toNat :: rest) := by
        rw [readContinuation_of_bounds _ _ _ hlo hhi, hhigh]
    _ = readContinuation 0 c.toNat 0x80 0xBF rest := by
        rw [readContinuation_continuationByte, hcode]
    _ = (some c.toNat, rest) := readContinuation_zero ..

/-- The second byte of four is bounded where the lead byte alone would allow an overlong
form or a number beyond the last code point. -/
theorem lossyChars_of_four_bytes (hc : 0xFFFF < c.toNat) :
    lossyChars (leadByte 0xF0 (c.toNat / 262144 % 8) :: continuationByte (c.toNat / 4096) ::
      continuationByte (c.toNat / 64) :: continuationByte c.toNat :: rest) =
        c :: lossyChars rest := by
  have hvalid := toNat_valid c
  have hlead := toNat_leadByte 0xF0 (c.toNat / 262144 % 8) (by omega)
  have hrange : ∃ lo hi : UInt8, secondByteRange? (leadByte 0xF0 (c.toNat / 262144 % 8)) =
      some (4, lo, hi) ∧ lo.toNat ≤ c.toNat / 4096 % 64 + 0x80 ∧
        c.toNat / 4096 % 64 + 0x80 ≤ hi.toNat := by
    rcases (by omega : c.toNat / 262144 % 8 = 0 ∨ c.toNat / 262144 % 8 = 4 ∨
      1 ≤ c.toNat / 262144 % 8 ∧ c.toNat / 262144 % 8 ≤ 3) with h | h | ⟨hone, hthree⟩
    · refine ⟨0x90, 0xBF, by rw [h]; rfl, ?_⟩
      simp only [UInt8.reduceToNat]
      omega
    · refine ⟨0x80, 0x8F, by rw [h]; rfl, ?_⟩
      simp only [UInt8.reduceToNat]
      omega
    · refine ⟨0x80, 0xBF, secondByteRange?_of_four (by omega) (by omega), ?_⟩
      simp only [UInt8.reduceToNat]
      omega
  obtain ⟨lo, hi, hrange, hlo, hhi⟩ := hrange
  have hhigh :
      64 * ((c.toNat / 262144 % 8 + 0xF0) % 8) + c.toNat / 4096 % 64 = c.toNat / 4096 := by
    omega
  have hmiddle : 64 * (c.toNat / 4096) + c.toNat / 64 % 64 = c.toNat / 64 := by omega
  have hcode : 64 * (c.toNat / 64) + c.toNat % 64 = c.toNat := by omega
  refine lossyChars_of_range hrange (by omega) ?_
  rw [hlead]
  calc readContinuation 3 ((c.toNat / 262144 % 8 + 0xF0) % 8) lo hi
        (continuationByte (c.toNat / 4096) :: continuationByte (c.toNat / 64) ::
          continuationByte c.toNat :: rest)
      = readContinuation 2 (c.toNat / 4096) 0x80 0xBF
          (continuationByte (c.toNat / 64) :: continuationByte c.toNat :: rest) := by
        rw [readContinuation_of_bounds _ _ _ hlo hhi, hhigh]
    _ = readContinuation 1 (c.toNat / 64) 0x80 0xBF (continuationByte c.toNat :: rest) := by
        rw [readContinuation_continuationByte, hmiddle]
    _ = readContinuation 0 c.toNat 0x80 0xBF rest := by
        rw [readContinuation_continuationByte, hcode]
    _ = (some c.toNat, rest) := readContinuation_zero ..

/-- A character is taken off the front. -/
theorem lossyChars_utf8EncodeChar :
    lossyChars (String.utf8EncodeChar c ++ rest) = c :: lossyChars rest := by
  rw [utf8EncodeChar_eq]
  by_cases hone : c.toNat ≤ 0x7F
  · rw [if_pos hone]
    exact lossyChars_of_one_byte c rest hone
  rw [if_neg hone]
  by_cases htwo : c.toNat ≤ 0x7FF
  · rw [if_pos htwo]
    exact lossyChars_of_two_bytes c rest (Nat.lt_of_not_le hone) htwo
  rw [if_neg htwo]
  by_cases hthree : c.toNat ≤ 0xFFFF
  · rw [if_pos hthree]
    exact lossyChars_of_three_bytes c rest (Nat.lt_of_not_le htwo) hthree
  · rw [if_neg hthree]
    exact lossyChars_of_four_bytes c rest (Nat.lt_of_not_le hthree)

end Characters

/-- A well-formed text is read as it is. -/
theorem lossyText_toUTF8 (text : String) : lossyText text.toUTF8.toList = text := by
  have hchars (chars : List Char) :
      lossyChars (chars.flatMap String.utf8EncodeChar) = chars := by
    induction chars with
    | nil => rw [List.flatMap_nil, lossyChars]
    | cons c chars ih => rw [List.flatMap_cons, lossyChars_utf8EncodeChar, ih]
  rw [lossyText, toUTF8_toList, hchars, String.ofList_toList]

end ZigbeeHost
