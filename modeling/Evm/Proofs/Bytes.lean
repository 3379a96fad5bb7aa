import Mathlib.Algebra.BigOperators.Ring.Finset
import Evm.Word

/-! # Byte strings, byte by byte

    What the operations on byte strings do to the view that extends a string
    by zeros for ever: each operation has an equation for `byteAt`. A
    big-endian number is the sum of its bytes with their weights.
-/

namespace Evm.Bytes

variable (b c : Bytes)

theorem byteAt_eq (i : Nat) : byteAt b i = (b.data[i]?).getD 0 := by
  unfold byteAt
  by_cases h : i < b.size
  · have hget : b.data[i]? = some b[i] := Array.getElem?_eq_getElem h
    rw [dif_pos h, hget, Option.getD_some]
  · have hget : b.data[i]? = none := Array.getElem?_eq_none (Nat.le_of_not_lt h)
    rw [dif_neg h, hget, Option.getD_none]

/-! ## Putting together and cutting -/

@[simp] theorem byteAt_zeros (n i : Nat) : byteAt (zeros n) i = 0 := by
  rw [byteAt_eq, zeros, Array.getElem?_replicate]
  split <;> rfl

theorem byteAt_append (i : Nat) :
    byteAt (b ++ c) i = if i < b.size then byteAt b i else byteAt c (i - b.size) := by
  have hsize : b.size = b.data.size := rfl
  rw [byteAt_eq, ByteArray.data_append, Array.getElem?_append, hsize]
  by_cases h : i < b.data.size
  · rw [if_pos h, if_pos h, byteAt_eq]
  · rw [if_neg h, if_neg h, byteAt_eq]

theorem byteAt_extract (start stop i : Nat) :
    byteAt (b.extract start stop) i =
      if start + i < stop then byteAt b (start + i) else 0 := by
  have hsize : b.size = b.data.size := rfl
  rw [byteAt_eq, ByteArray.data_extract, Array.getElem?_extract, byteAt_eq]
  by_cases hstop : start + i < stop
  · rw [if_pos hstop]
    by_cases hend : start + i < b.data.size
    · rw [if_pos (by omega)]
    · rw [if_neg (by omega), Array.getElem?_eq_none (by omega)]
  · rw [if_neg hstop, if_neg (by omega), Option.getD_none]

/-- More zeros at the end do not show. -/
theorem byteAt_append_zeros (n i : Nat) : byteAt (b ++ zeros n) i = byteAt b i := by
  rw [byteAt_append]
  by_cases h : i < b.size
  · rw [if_pos h]
  · rw [if_neg h, byteAt_zeros, byteAt_of_le b i (Nat.le_of_not_lt h)]

theorem byteAt_window (start len i : Nat) :
    byteAt (window b start len) i = if i < len then byteAt b (start + i) else 0 := by
  simp only [window, byteAt_append_zeros, byteAt_extract]
  by_cases hin : start + i < b.size
  · rw [Nat.min_eq_left (by omega : start ≤ b.size)]
    by_cases hlen : i < len
    · rw [if_pos (by omega), if_pos hlen]
    · rw [if_neg (by omega), if_neg hlen]
  · rw [if_neg (by omega), byteAt_of_le b _ (Nat.le_of_not_lt hin), ite_self]

/-- A piece of a string replaced by another string. -/
theorem byteAt_copySlice {offset : Nat} (hoffset : offset ≤ c.size) (i : Nat) :
    byteAt (b.copySlice 0 c offset b.size) i =
      if offset ≤ i ∧ i < offset + b.size then byteAt b (i - offset) else byteAt c i := by
  have hwhole : b.extract 0 (0 + b.size) = b := by
    rw [Nat.zero_add]
    exact ByteArray.extract_zero_size
  have hlen : min b.size (b.data.size - 0) = b.size := Nat.min_self _
  have hsize : c.data.size = c.size := rfl
  have hhead : (c.extract 0 offset).size = offset := by
    rw [ByteArray.size_extract]
    omega
  rw [ByteArray.copySlice_eq_append, hwhole, hlen, hsize, byteAt_append, byteAt_append,
    ByteArray.size_append, hhead]
  by_cases hbefore : i < offset
  · rw [if_pos (by omega), if_pos hbefore, if_neg (by omega), byteAt_extract, if_pos (by omega),
      Nat.zero_add]
  by_cases hinside : i < offset + b.size
  · rw [if_pos hinside, if_neg hbefore, if_pos ⟨Nat.le_of_not_lt hbefore, hinside⟩]
  · -- behind the piece the string goes on as before
    have hrest : offset + b.size + (i - (offset + b.size)) = i := by omega
    rw [if_neg hinside, if_neg (by omega), byteAt_extract, hrest]
    by_cases hin : i < c.size
    · rw [if_pos hin]
    · rw [if_neg hin, byteAt_of_le c i (Nat.le_of_not_lt hin)]

theorem size_copySlice {offset : Nat} (hinside : offset + b.size ≤ c.size) :
    (b.copySlice 0 c offset b.size).size = c.size := by
  have hlen : min b.size (b.data.size - 0) = b.size := Nat.min_self _
  have hsize : c.data.size = c.size := rfl
  rw [ByteArray.copySlice_eq_append, hlen, hsize]
  simp only [ByteArray.size_append, ByteArray.size_extract]
  omega

/-- What stands between two strings can be cut out again. -/
theorem extract_middle (a : Bytes) : (a ++ b ++ c).extract a.size (a.size + b.size) = b := by
  have hsize : (a ++ b).size = a.size + b.size := ByteArray.size_append
  have hhead : (a ++ b).extract a.size (a.size + b.size) = b :=
    ByteArray.extract_append_eq_right rfl rfl
  rw [ByteArray.extract_append, hhead, hsize, Nat.sub_self,
    Nat.sub_eq_zero_of_le (Nat.le_add_right _ _), ByteArray.extract_same, ByteArray.append_empty]

theorem slice?_eq_some_iff {b part : Bytes} {start stop : Nat} :
    slice? b start stop = some part ↔
      start ≤ stop ∧ stop ≤ b.size ∧ part = b.extract start stop := by
  unfold slice?
  constructor
  · intro h
    split at h
    · rename_i hrange
      exact ⟨hrange.1, hrange.2, (Option.some.inj h).symm⟩
    · cases h
  · rintro ⟨hle, hend, rfl⟩
    exact if_pos ⟨hle, hend⟩

/-! ## Lists -/

theorem toList_eq_map : toList b = (List.range b.size).map (byteAt b) := by
  have hsize : b.data.size = b.size := rfl
  apply List.ext_getElem?
  intro i
  rw [toList, Array.getElem?_toList, List.getElem?_map]
  by_cases h : i < b.size
  · rw [List.getElem?_range h, Option.map_some, byteAt_eq, Array.getElem?_eq_getElem h,
      Option.getD_some]
  · rw [Array.getElem?_eq_none (by omega), List.getElem?_eq_none (by simpa using h),
      Option.map_none]

theorem toList_window (start len : Nat) :
    toList (window b start len) = (List.range len).map fun i => byteAt b (start + i) := by
  rw [toList_eq_map, size_window]
  apply List.map_congr_left
  intro i hi
  rw [byteAt_window, if_pos (List.mem_range.mp hi)]

theorem byteAt_ofList (l : List UInt8) (i : Nat) : byteAt (ofList l) i = l[i]?.getD 0 := by
  rw [byteAt_eq, ofList, List.getElem?_toArray]

/-- Two strings of one length are the same if their bytes are. -/
theorem ext_byteAt {b c : Bytes} (hsize : b.size = c.size)
    (h : ∀ i < b.size, byteAt b i = byteAt c i) : b = c := by
  have hlist : toList b = toList c := by
    rw [toList_eq_map, toList_eq_map, ← hsize]
    exact List.map_congr_left fun i hi => h i (List.mem_range.mp hi)
  exact ByteArray.ext (Array.toList_inj.mp hlist)

/-! ## Numbers -/

/-- The bytes of a number, most significant first. -/
theorem byteAt_ofNumber {n len i : Nat} (hi : i < len) :
    byteAt (ofNumber n len) i = UInt8.ofNat (n / 256 ^ (len - 1 - i)) := by
  have hweight : 2 ^ (8 * (len - 1 - i)) = 256 ^ (len - 1 - i) := by
    rw [pow_mul]
    rfl
  rw [byteAt_eq, ofNumber, Array.getElem?_ofFn, dif_pos hi, Option.getD_some,
    Nat.shiftRight_eq_div_pow, hweight]

theorem number_eq_sum (start len : Nat) :
    number b start len =
      ∑ i ∈ Finset.range len, (byteAt b (start + i)).toNat * 256 ^ (len - 1 - i) := by
  induction len with
  | zero => rfl
  | succ len ih =>
    have hshift : ∀ i ∈ Finset.range len,
        (byteAt b (start + i)).toNat * 256 ^ (len + 1 - 1 - i) =
          (byteAt b (start + i)).toNat * 256 ^ (len - 1 - i) * 256 := by
      intro i hi
      have hi : i < len := Finset.mem_range.mp hi
      have hexp : len + 1 - 1 - i = (len - 1 - i) + 1 := by omega
      rw [hexp, pow_succ, Nat.mul_assoc]
    rw [number, ih, Finset.sum_range_succ, Finset.sum_congr rfl hshift, Finset.sum_mul]
    simp

/-- A number depends on nothing but its bytes. -/
theorem number_congr {b c : Bytes} {start start' len : Nat}
    (h : ∀ i < len, byteAt b (start + i) = byteAt c (start' + i)) :
    number b start len = number c start' len := by
  rw [number_eq_sum, number_eq_sum]
  exact Finset.sum_congr rfl fun i hi => by rw [h i (Finset.mem_range.mp hi)]

theorem number_extract {start stop offset len : Nat} (h : start + offset + len ≤ stop) :
    number (b.extract start stop) offset len = number b (start + offset) len := by
  apply number_congr
  intro i hi
  rw [byteAt_extract, if_pos (by omega), Nat.add_assoc]

/-- The middle of three strings, read as a number. -/
theorem number_middle (a : Bytes) :
    number (a ++ b ++ c) a.size b.size = number b 0 b.size := by
  apply number_congr
  intro i hi
  rw [byteAt_append, ByteArray.size_append, if_pos (by omega), byteAt_append,
    if_neg (by omega), Nat.add_sub_cancel_left, Nat.zero_add]

/-- A piece of the bytes of a number spells the digits of the number there. -/
theorem number_ofNumber (n : Nat) {len start k : Nat} (h : start + k ≤ len) :
    number (ofNumber n len) start k = n / 256 ^ (len - start - k) % 256 ^ k := by
  induction k with
  | zero => simp [number, Nat.mod_one]
  | succ k ih =>
    have hlast : len - 1 - (start + k) = len - start - (k + 1) := by omega
    have hnext : len - start - k = (len - start - (k + 1)) + 1 := by omega
    rw [number, ih (by omega), byteAt_ofNumber (by omega), UInt8.toNat_ofNat', hlast, hnext,
      pow_succ 256 (len - start - (k + 1)), ← Nat.div_div_eq_div_mul, pow_succ' 256 k, Nat.mod_mul]
    omega

/-- A number is spelled by as many of its bytes as it takes. -/
theorem number_ofNumber_of_lt {n len : Nat} (hn : n < 256 ^ len) :
    number (ofNumber n len) 0 len = n := by
  rw [number_ofNumber n (by omega), Nat.sub_zero, Nat.sub_self, pow_zero, Nat.div_one,
    Nat.mod_eq_of_lt hn]

theorem ofNumber_inj {n m len : Nat} (hn : n < 256 ^ len) (hm : m < 256 ^ len)
    (h : ofNumber n len = ofNumber m len) : n = m := by
  have hread := congrArg (number · 0 len) h
  simpa only [number_ofNumber_of_lt hn, number_ofNumber_of_lt hm] using hread

/-- The bytes of a number, wherever they stand, spell the number. -/
theorem number_ofNumber_middle {n len start : Nat} (a c : Bytes) (ha : a.size = start)
    (hn : n < 256 ^ len) : number (a ++ ofNumber n len ++ c) start len = n := by
  have h := number_middle (ofNumber n len) c a
  rw [size_ofNumber, ha] at h
  rw [h, number_ofNumber_of_lt hn]

theorem number_window (start len : Nat) :
    number (window b start len) 0 len = number b start len := by
  apply number_congr
  intro i hi
  rw [byteAt_window, Nat.zero_add, if_pos hi]

/-- Zeros in front do not count. -/
theorem number_zeros_append (n len : Nat) :
    number (zeros n ++ b) 0 (n + len) = number b 0 len := by
  induction len with
  | zero =>
    rw [number_eq_sum]
    apply Finset.sum_eq_zero
    intro i hi
    have hi : i < n := Finset.mem_range.mp hi
    rw [byteAt_append, size_zeros, if_pos (by omega), byteAt_zeros]
    exact Nat.zero_mul _
  | succ len ih =>
    have hlast : 0 + (n + len) - n = 0 + len := by omega
    rw [Nat.add_succ, number, number, ih, byteAt_append, size_zeros, if_neg (by omega), hlast]

theorem number_lt (start len : Nat) : number b start len < 256 ^ len := by
  induction len with
  | zero => exact Nat.one_pos
  | succ len ih =>
    have hbyte : (byteAt b (start + len)).toNat < 256 := UInt8.toNat_lt _
    rw [number, pow_succ]
    omega

/-- A number is zero if all its bytes are. -/
theorem number_eq_zero_iff (start len : Nat) :
    number b start len = 0 ↔ ∀ i < len, byteAt b (start + i) = 0 := by
  induction len with
  | zero => simp [number]
  | succ len ih =>
    have hlast : (byteAt b (start + len)).toNat = 0 ↔ byteAt b (start + len) = 0 := by
      rw [← UInt8.toNat_inj]
      rfl
    rw [number]
    constructor
    · intro h i hi
      have hfront := ih.mp (by omega)
      rcases Nat.lt_succ_iff_lt_or_eq.mp hi with hlt | rfl
      · exact hfront i hlt
      · exact hlast.mp (by omega)
    · intro h
      have hfront := ih.mpr fun i hi => h i (by omega)
      have hend := hlast.mpr (h len (by omega))
      omega

/-- A number that one byte holds is spelled by the last byte, behind zeros. -/
theorem number_eq_small_iff {start k v : Nat} (hv : v < 256) :
    number b start (k + 1) = v ↔
      (∀ i < k, byteAt b (start + i) = 0) ∧ (byteAt b (start + k)).toNat = v := by
  rw [← number_eq_zero_iff, number]
  omega

/-! ## The shortest form -/

/-- A number has as many bytes as it takes, and no more. -/
theorem size_ofNumberShortest_le_iff (n k : Nat) :
    (ofNumberShortest n).size ≤ k ↔ n < 256 ^ k := by
  have hweight : 256 ^ k = 2 ^ (8 * k) := by
    rw [pow_mul]
    rfl
  unfold ofNumberShortest
  split
  · next hzero =>
    rw [hzero]
    exact iff_of_true (Nat.zero_le k) (Nat.pow_pos (by decide))
  · next hpos =>
    rw [size_ofNumber, hweight, ← Nat.log2_lt hpos]
    omega

theorem ofNumberShortest_eq (n : Nat) :
    ofNumberShortest n = ofNumber n (ofNumberShortest n).size := by
  unfold ofNumberShortest
  split <;> simp [*]

theorem number_ofNumberShortest (n : Nat) :
    number (ofNumberShortest n) 0 (ofNumberShortest n).size = n := by
  have hfits := (size_ofNumberShortest_le_iff n _).mp (Nat.le_refl _)
  have hread := number_ofNumber_of_lt hfits
  rwa [← ofNumberShortest_eq n] at hread

/-- No zero stands in front. -/
theorem byteAt_ofNumberShortest {n : Nat} (hn : n ≠ 0) : byteAt (ofNumberShortest n) 0 ≠ 0 := by
  have hfits := (size_ofNumberShortest_le_iff n _).mp (Nat.le_refl _)
  have hsize : (ofNumberShortest n).size ≠ 0 := by
    intro hzero
    rw [hzero] at hfits
    omega
  obtain ⟨len, hlen⟩ := Nat.exists_eq_add_one_of_ne_zero hsize
  -- one byte less does not do
  have hleast : 256 ^ len ≤ n := by
    have := size_ofNumberShortest_le_iff n len
    omega
  rw [hlen, pow_succ] at hfits
  have hhigh : 1 ≤ n / 256 ^ len := Nat.div_pos hleast (Nat.pow_pos (by decide))
  have hbyte : n / 256 ^ len < 256 := Nat.div_lt_of_lt_mul hfits
  intro h
  rw [ofNumberShortest_eq n, hlen, byteAt_ofNumber (by omega), Nat.add_sub_cancel,
    Nat.sub_zero] at h
  have hzero := congrArg UInt8.toNat h
  rw [UInt8.toNat_ofNat', Nat.mod_eq_of_lt hbyte] at hzero
  exact absurd hzero (by simp; omega)

end Evm.Bytes

/-- A word that is read from bytes is the number that they spell. -/
theorem Evm.Word.toNat_ofBytesAt (b : Bytes) (start : Nat) :
    (ofBytesAt b start).toNat = Bytes.number b start 32 := by
  have hlt : Bytes.number b start 32 < 2 ^ 256 := Bytes.number_lt b start 32
  rw [ofBytesAt, BitVec.toNat_ofNat, Nat.mod_eq_of_lt hlt]
