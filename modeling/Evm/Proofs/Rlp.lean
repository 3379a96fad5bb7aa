import Evm.Proofs.Bytes
import Evm.Rlp

/-! # Reading what was written

    A serialised string says where it ends: its first byte tells whether it
    is the whole string, holds the length, or holds the length of the length.
    So the reader finds the string again whatever stands behind it
    (`decodeString_encodeString_append`), and two strings that are written one
    after another can be told apart.
-/

namespace Evm.Rlp

open Bytes

variable {b : Bytes}

/-! ## The three forms -/

/-- A low byte stands for itself. -/
theorem decodeString_low (hsome : b.size ≠ 0) (hlow : (byteAt b 0).toNat < 0x80) :
    decodeString b = .ok (window b 0 1) := by
  unfold decodeString
  simp only [if_neg hsome, if_pos (show (byteAt b 0).toNat ≤ 0x7f by omega)]
  rfl

/-- The first byte holds the length. -/
theorem decodeString_short {data : Bytes} {length : Nat} (hsome : b.size ≠ 0)
    (hfirst : (byteAt b 0).toNat = 0x80 + length) (hlength : length ≤ 55)
    (hdata : take b 1 length = .ok data)
    (hproper : length = 1 → 0x80 ≤ (byteAt data 0).toNat) : decodeString b = .ok data := by
  have hback : 0x80 + length - 0x80 = length := by omega
  -- the reader refuses a low byte behind a header
  have haccepted : ¬(0x80 + length = 0x81 ∧ (byteAt data 0).toNat < 0x80) := by
    intro h
    have := hproper (by omega)
    omega
  unfold decodeString
  simp only [if_neg hsome, hfirst, if_neg (show ¬0x80 + length ≤ 0x7f by omega),
    if_pos (show 0x80 + length ≤ 0xb7 by omega), hback, hdata]
  show (if _ then _ else _) = _
  rw [if_neg haccepted]
  rfl

/-- The first byte holds the length of the length. -/
theorem decodeString_long {digits data : Bytes} {k length : Nat} (hsome : b.size ≠ 0)
    (hfirst : (byteAt b 0).toNat = 0xb7 + k) (hk : 0 < k ∧ k ≤ 8)
    (hdigits : take b 1 k = .ok digits) (hleading : byteAt digits 0 ≠ 0)
    (hlength : number digits 0 k = length) (hroom : 1 + k + length ≤ Word.maxUInt64)
    (hdata : take b (1 + k) length = .ok data) : decodeString b = .ok data := by
  have hback : 0xb7 + k - 0xb7 = k := by omega
  unfold decodeString
  simp only [if_neg hsome, hfirst, if_neg (show ¬0xb7 + k ≤ 0x7f by omega),
    if_neg (show ¬0xb7 + k ≤ 0xb7 by omega), if_pos (show 0xb7 + k ≤ 0xbf by omega), hback, hdigits]
  show (if _ then _ else _) = _
  rw [if_neg hleading, hlength]
  show (if Word.maxUInt64 < 1 + k + length then _ else _) = _
  rw [if_neg (Nat.not_lt.mpr hroom), hdata]

/-! ## Strings -/

theorem take_middle (a b c : Bytes) : take (a ++ b ++ c) a.size b.size = .ok b := by
  have hend : a.size + b.size ≤ (a ++ b ++ c).size := by
    simp only [ByteArray.size_append]
    omega
  have hslice : slice? (a ++ b ++ c) a.size (a.size + b.size) = some b :=
    slice?_eq_some_iff.mpr ⟨Nat.le_add_right _ _, hend, (extract_middle b c a).symm⟩
  rw [take, hslice]

/-- The byte that a header starts with. -/
theorem toNat_marker {n : Nat} (hn : n < 256) (c : Bytes) :
    (byteAt (ofNumber n 1 ++ c) 0).toNat = n := by
  rw [byteAt_append, if_pos (by simp), byteAt_ofNumber (by omega), UInt8.toNat_ofNat']
  simp
  omega

/-- A string that is written as itself. -/
theorem decodeString_append_of_low (hsize : b.size = 1) (hlow : (byteAt b 0).toNat < 0x80)
    (rest : Bytes) : decodeString (b ++ rest) = .ok b := by
  have hfirst : byteAt (b ++ rest) 0 = byteAt b 0 := by
    rw [byteAt_append, if_pos (by omega)]
  have hwindow : window (b ++ rest) 0 1 = b := by
    apply ext_byteAt (by rw [size_window, hsize])
    intro i hi
    rw [size_window] at hi
    rw [byteAt_window, if_pos hi, Nat.zero_add, byteAt_append, if_pos (by omega)]
  rw [decodeString_low, hwindow]
  · rw [ByteArray.size_append]
    omega
  · rw [hfirst]
    exact hlow

/-- A string behind a header of one byte. -/
theorem decodeString_header_of_short (hshort : b.size ≤ 55)
    (hproper : b.size = 1 → 0x80 ≤ (byteAt b 0).toNat) (rest : Bytes) :
    decodeString (header 0x80 0xb7 b.size ++ b ++ rest) = .ok b := by
  rw [header, if_pos hshort]
  have hdata := take_middle (ofNumber (0x80 + b.size) 1) b rest
  rw [size_ofNumber] at hdata
  apply decodeString_short _ _ hshort hdata hproper
  · simp only [ByteArray.size_append, size_ofNumber]
    omega
  · rw [ByteArray.append_assoc, toNat_marker (by omega)]

/-- A string behind a header with the length of the length. -/
theorem decodeString_header_of_long (hlong : ¬b.size ≤ 55)
    (hroom : (header 0x80 0xb7 b.size ++ b).size ≤ Word.maxUInt64) (rest : Bytes) :
    decodeString (header 0x80 0xb7 b.size ++ b ++ rest) = .ok b := by
  rw [header, if_neg hlong] at hroom ⊢
  simp only [ByteArray.size_append, size_ofNumber, Word.maxUInt64] at hroom ⊢
  -- a length that 64 bits count has one to eight bytes
  have hmost : (ofNumberShortest b.size).size ≤ 8 := by
    rw [size_ofNumberShortest_le_iff]
    omega
  have hleast : ¬(ofNumberShortest b.size).size ≤ 0 := by
    rw [size_ofNumberShortest_le_iff]
    omega
  have hdigits := take_middle (ofNumber (0xb7 + (ofNumberShortest b.size).size) 1)
    (ofNumberShortest b.size) (b ++ rest)
  have hdata := take_middle
    (ofNumber (0xb7 + (ofNumberShortest b.size).size) 1 ++ ofNumberShortest b.size) b rest
  rw [← ByteArray.append_assoc, size_ofNumber] at hdigits
  rw [ByteArray.size_append, size_ofNumber] at hdata
  apply decodeString_long _ _ ⟨by omega, hmost⟩ hdigits _ (number_ofNumberShortest _) _ hdata
  · simp only [ByteArray.size_append, size_ofNumber]
    omega
  · rw [ByteArray.append_assoc, ByteArray.append_assoc, toNat_marker (by omega)]
  · exact byteAt_ofNumberShortest (by omega)
  · rw [Word.maxUInt64]
    omega

/-- **What is written is read back**, whatever stands behind it, as long as the
    bytes that were written can be counted. -/
theorem decodeString_encodeString_append (b rest : Bytes)
    (hroom : (encodeString b).size ≤ Word.maxUInt64) :
    decodeString (encodeString b ++ rest) = .ok b := by
  unfold encodeString at hroom ⊢
  by_cases hlow : b.size = 1 ∧ (byteAt b 0).toNat < 0x80
  · rw [if_pos hlow]
    exact decodeString_append_of_low hlow.1 hlow.2 rest
  rw [if_neg hlow] at hroom ⊢
  by_cases hshort : b.size ≤ 55
  · apply decodeString_header_of_short hshort
    intro hone
    exact Nat.not_lt.mp fun hless => hlow ⟨hone, hless⟩
  · exact decodeString_header_of_long hshort hroom rest

/-- So no two strings are written alike. -/
theorem encodeString_inj {c : Bytes} (hroom : (encodeString b).size ≤ Word.maxUInt64)
    (h : encodeString b = encodeString c) : b = c := by
  have hb := decodeString_encodeString_append b ByteArray.empty hroom
  rw [h] at hb hroom
  exact Except.ok.inj (hb.symm.trans (decodeString_encodeString_append c ByteArray.empty hroom))

/-! ## Numbers and addresses -/

theorem size_encodeString_le (hshort : b.size ≤ 55) : (encodeString b).size ≤ b.size + 1 := by
  unfold encodeString
  split
  · omega
  · rw [header, if_pos hshort, ByteArray.size_append, size_ofNumber]
    omega

/-- A number of 64 bits has at most eight bytes behind at most one. -/
theorem size_encodeNumber_le {n : Nat} (hn : n < 2 ^ 64) : (encodeNumber n).size ≤ 9 := by
  have hsize : (ofNumberShortest n).size ≤ 8 := (size_ofNumberShortest_le_iff n 8).mpr hn
  have hwritten := size_encodeString_le (b := ofNumberShortest n) (by omega)
  rw [encodeNumber]
  omega

theorem encodeNumber_inj {n m : Nat} (hn : n < 2 ^ 64) (h : encodeNumber n = encodeNumber m) :
    n = m := by
  have hsize := size_encodeNumber_le hn
  have hroom : (encodeNumber n).size ≤ Word.maxUInt64 := by
    rw [Word.maxUInt64]
    omega
  rw [← number_ofNumberShortest n, encodeString_inj hroom h, number_ofNumberShortest]

theorem size_encodeAddress (a : Address) : (encodeAddress a).size = 21 := by
  have hsize : a.toBytes.size = 20 := size_ofNumber _ _
  rw [encodeAddress, encodeString, if_neg (by omega), header, if_pos (by omega),
    ByteArray.size_append, size_ofNumber, hsize]

theorem encodeAddress_inj {a a' : Address} (h : encodeAddress a = encodeAddress a') :
    a.toBytes = a'.toBytes := by
  have hroom : (encodeAddress a).size ≤ Word.maxUInt64 := by
    rw [size_encodeAddress, Word.maxUInt64]
    omega
  exact encodeString_inj hroom h

end Evm.Rlp
