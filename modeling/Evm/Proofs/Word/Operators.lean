import Evm.Proofs.Bytes
import Evm.Word.Operator

/-! # What the operators on words compute

    The signed operators are made of unsigned ones, with tests of the sign bit,
    absolute values and masks, and the modular ones take a way over 512 bits.
    Here each of them is what its name says over the integers without bound,
    where `BitVec.toInt` reads a word in two's complement.

    Most go by way of the operation on bit vectors that does the same
    (`sdiv_eq`, `smod_eq`, `sar_eq`, `signextend_eq`), and the statement for all
    of them is `operators_exact`.
-/

namespace Evm.Word

/-! ## Division -/

theorem negate_eq_neg (x : Word) : negate x = -x := (BitVec.neg_eq_not_add x).symm

theorem abs_eq_cond (x : Word) : abs x = if x.msb then -x else x := by
  rw [abs, negate_eq_neg]
  rfl

theorem div_eq_udiv (a b : Word) : div a b = BitVec.udiv a b := by
  have hquotient : a.toNat / b.toNat < 2 ^ 256 := (Nat.div_le_self _ _).trans_lt a.isLt
  apply BitVec.eq_of_toNat_eq
  rw [div, BitVec.udiv_eq, BitVec.toNat_udiv]
  split
  · next hzero => simp [hzero]
  · rw [BitVec.toNat_ofNat, Nat.mod_eq_of_lt hquotient]

theorem rem_eq_umod (a : Word) {b : Word} (hb : b ≠ 0) : rem a b = a % b := by
  have hrest : a.toNat % b.toNat < 2 ^ 256 := (Nat.mod_le _ _).trans_lt a.isLt
  apply BitVec.eq_of_toNat_eq
  rw [rem, if_neg hb, BitVec.toNat_ofNat, Nat.mod_eq_of_lt hrest, BitVec.toNat_umod]

theorem sdiv_eq (a b : Word) : sdiv a b = BitVec.sdiv a b := by
  unfold sdiv
  by_cases hzero : b = 0
  · subst hzero
    exact BitVec.sdiv_zero.symm
  · rw [if_neg hzero, BitVec.sdiv_eq]
    -- one case for each pair of signs
    cases ha : a.msb <;> cases hb : b.msb <;>
      simp [isNegative, abs_eq_cond, ha, hb, div_eq_udiv, negate_eq_neg]

theorem smod_eq (a : Word) {b : Word} (hb : b ≠ 0) : smod a b = BitVec.srem a b := by
  have hneg : -b ≠ 0 := fun hzero => hb (BitVec.neg_eq_zero_iff.mp hzero)
  rw [smod, if_neg hb, BitVec.srem_eq]
  cases hsign : a.msb <;> cases hsign' : b.msb <;>
    simp [isNegative, abs_eq_cond, hsign, hsign', rem_eq_umod _ hb, rem_eq_umod _ hneg,
      negate_eq_neg]

/-- The quotient wraps: the least word divided by minus one is the least word. -/
theorem sdiv_eq_ofInt (a b : Word) : sdiv a b = BitVec.ofInt 256 (a.toInt.tdiv b.toInt) := by
  apply BitVec.eq_of_toInt_eq
  rw [sdiv_eq, BitVec.toInt_sdiv, BitVec.toInt_ofInt]

/-- The remainder never does. -/
theorem toInt_smod (a : Word) {b : Word} (hb : b ≠ 0) :
    (smod a b).toInt = a.toInt.tmod b.toInt := by
  rw [smod_eq a hb, BitVec.toInt_srem]

/-- Quotient and remainder give back the dividend. -/
theorem sdiv_mul_add_smod (a : Word) {b : Word} (hb : b ≠ 0) :
    sdiv a b * b + smod a b = a := by
  calc sdiv a b * b + smod a b
      = BitVec.ofInt 256 (a.toInt.tdiv b.toInt) * BitVec.ofInt 256 b.toInt +
          BitVec.ofInt 256 (a.toInt.tmod b.toInt) := by
        rw [← sdiv_eq_ofInt, ← toInt_smod a hb, BitVec.ofInt_toInt, BitVec.ofInt_toInt]
    _ = BitVec.ofInt 256 (a.toInt.tdiv b.toInt * b.toInt + a.toInt.tmod b.toInt) := by
        rw [BitVec.ofInt_add, BitVec.ofInt_mul]
    _ = a := by rw [Int.tdiv_mul_add_tmod, BitVec.ofInt_toInt]

/-! ## Signed order -/

theorem slt_iff (a b : Word) : slt a b = true ↔ a.toInt < b.toInt := by
  have ha := a.isLt
  have hb := b.isLt
  rw [BitVec.toInt_eq_msb_cond, BitVec.toInt_eq_msb_cond, slt, isNegative, isNegative]
  cases a.msb <;> cases b.msb <;> simp <;> omega

/-! ## Shifting the sign in -/

/-- The bits that a shift to the right leaves free. -/
theorem getLsbD_not_max_shift {i shift : Nat} (hi : i < 256) :
    (~~~(max >>> shift)).getLsbD i = !decide (shift + i < 256) := by
  rw [BitVec.getLsbD_not, BitVec.getLsbD_ushiftRight, max, BitVec.getLsbD_allOnes,
    decide_eq_true hi, Bool.true_and]

theorem sar_eq (s x : Word) : sar s x = BitVec.sshiftRight x s.toNat := by
  apply BitVec.eq_of_getLsbD_eq
  intro i hi
  have hwidth : decide (256 ≤ i) = false := decide_eq_false (Nat.not_le.mpr hi)
  rw [BitVec.getLsbD_sshiftRight, hwidth, Bool.not_false, Bool.true_and, sar, isNegative]
  by_cases hfar : 256 ≤ s.toNat
  · have hgone : ¬s.toNat + i < 256 := by omega
    rw [if_pos hfar, if_neg hgone]
    cases x.msb
    · exact BitVec.getLsbD_zero
    · rw [if_pos rfl, max, BitVec.getLsbD_allOnes, decide_eq_true hi]
  · rw [if_neg hfar]
    by_cases hinside : s.toNat + i < 256
    · rw [if_pos hinside]
      cases x.msb <;> simp [getLsbD_not_max_shift hi, hinside]
    · have hgone : x.getLsbD (s.toNat + i) = false :=
        BitVec.getLsbD_of_ge _ _ (Nat.le_of_not_lt hinside)
      rw [if_neg hinside]
      cases x.msb <;> simp [getLsbD_not_max_shift hi, hinside, hgone]

/-- Shifting divides and rounds down, by any number of bits. -/
theorem toInt_sar (s x : Word) : (sar s x).toInt = x.toInt.fdiv (2 ^ s.toNat) := by
  have hpow : (0 : Int) ≤ 2 ^ s.toNat := Int.le_of_lt (Int.pow_pos (by decide))
  rw [sar_eq, BitVec.toInt_sshiftRight, Int.shiftRight_eq_div_pow,
    Int.fdiv_eq_ediv_of_nonneg _ hpow, Nat.cast_pow, Nat.cast_ofNat]

/-! ## Extending the sign -/

/-- The mask of the bits below one bit. -/
theorem getLsbD_mask {i bit : Nat} (hbit : bit < 256) :
    (((1 : Word) <<< bit) - 1).getLsbD i = decide (i < bit) := by
  have hpow : 2 ^ bit < 2 ^ 256 := Nat.pow_lt_pow_right (by decide) hbit
  have hone : (1 : Word).toNat = 1 := rfl
  have hshifted : ((1 : Word) <<< bit).toNat = 2 ^ bit := by
    rw [BitVec.toNat_shiftLeft, hone, Nat.one_shiftLeft, Nat.mod_eq_of_lt hpow]
  have hle : (1 : Word) ≤ (1 : Word) <<< bit := by
    rw [BitVec.le_def, hshifted]
    exact Nat.one_le_two_pow
  rw [BitVec.getLsbD, BitVec.toNat_sub_of_le hle, hshifted, hone, Nat.testBit_two_pow_sub_one]

theorem signextend_eq {b : Word} (x : Word) (h : b.toNat < 31) :
    signextend b x = (x.setWidth (8 * (b.toNat + 1))).signExtend 256 := by
  have hwidth : 8 * (b.toNat + 1) = b.toNat * 8 + 7 + 1 := by omega
  have hbit : b.toNat * 8 + 7 < 256 := by omega
  apply BitVec.eq_of_getLsbD_eq
  intro i hi
  rw [BitVec.getLsbD_signExtend, decide_eq_true hi, Bool.true_and, hwidth,
    BitVec.getLsbD_setWidth, BitVec.msb_setWidth'', signextend, if_neg (Nat.not_le.mpr h)]
  simp only
  generalize b.toNat * 8 + 7 = bit at hbit
  have hmask := getLsbD_mask (i := i) hbit
  -- the mask ends below the sign bit, which is put right by being the sign
  cases hsign : x.getLsbD bit with
  | false =>
    rw [if_neg Bool.false_ne_true, BitVec.getLsbD_and, hmask]
    rcases Nat.lt_trichotomy i bit with hbelow | rfl | habove
    · rw [decide_eq_true hbelow, if_pos (by omega), decide_eq_true (by omega), Bool.and_true,
        Bool.true_and]
    · rw [hsign, Bool.false_and, Bool.and_false, ite_self]
    · rw [decide_eq_false (by omega), if_neg (by omega), Bool.and_false]
  | true =>
    rw [if_pos rfl, BitVec.getLsbD_or, BitVec.getLsbD_not, hmask, decide_eq_true hi,
      Bool.true_and]
    rcases Nat.lt_trichotomy i bit with hbelow | rfl | habove
    · rw [decide_eq_true hbelow, if_pos (by omega), decide_eq_true (by omega), Bool.true_and,
        Bool.not_true, Bool.or_false]
    · rw [hsign, Bool.true_or, Bool.and_true, decide_eq_true (by omega), ite_self]
    · rw [decide_eq_false (by omega), if_neg (by omega), Bool.not_false, Bool.or_true]

/-- The value is that of the low bytes. -/
theorem toInt_signextend {b : Word} (x : Word) (h : b.toNat < 31) :
    (signextend b x).toInt = (x.setWidth (8 * (b.toNat + 1))).toInt := by
  rw [signextend_eq x h, BitVec.toInt_signExtend_of_le (by omega)]

/-! ## Modular operators -/

theorem toNat_narrow (x : BitVec 512) : (narrow x).toNat = x.toNat % 2 ^ 256 := by
  rw [narrow, toNat_ofBytesAt, Bytes.number_ofNumber _ (by decide), Nat.sub_self, pow_zero,
    Nat.div_one]
  rfl

/-- A remainder by a word fits into a word again. -/
theorem toNat_narrow_umod (x : BitVec 512) {n : Word} (hn : n ≠ 0) :
    (narrow (x % n.setWidth 512)).toNat = x.toNat % n.toNat := by
  have hpos : 0 < n.toNat := Nat.pos_of_ne_zero fun hzero => hn (BitVec.eq_of_toNat_eq hzero)
  have hrest : x.toNat % n.toNat < 2 ^ 256 := (Nat.mod_lt _ hpos).trans n.isLt
  rw [toNat_narrow, BitVec.toNat_umod, BitVec.toNat_setWidth_of_le (by decide),
    Nat.mod_eq_of_lt hrest]

/-- A sum does not wrap in more bits. -/
theorem toNat_add_wide {w v : Nat} (h : w < v) (a b : BitVec w) :
    (a.setWidth v + b.setWidth v).toNat = a.toNat + b.toNat := by
  have hsum : a.toNat + b.toNat < 2 ^ v :=
    calc a.toNat + b.toNat
        < 2 ^ w + 2 ^ w := Nat.add_lt_add a.isLt b.isLt
      _ = 2 ^ (w + 1) := (Nat.two_pow_succ w).symm
      _ ≤ 2 ^ v := Nat.pow_le_pow_right (by decide) h
  rw [BitVec.toNat_add, BitVec.toNat_setWidth_of_le h.le, BitVec.toNat_setWidth_of_le h.le,
    Nat.mod_eq_of_lt hsum]

/-- A product does not wrap in twice as many bits. -/
theorem toNat_mul_wide {w v : Nat} (h : w + w ≤ v) (a b : BitVec w) :
    (a.setWidth v * b.setWidth v).toNat = a.toNat * b.toNat := by
  have hle : w ≤ v := (Nat.le_add_left w w).trans h
  have hproduct : a.toNat * b.toNat < 2 ^ v :=
    calc a.toNat * b.toNat
        < 2 ^ w * 2 ^ w := Nat.mul_lt_mul'' a.isLt b.isLt
      _ = 2 ^ (w + w) := (Nat.pow_add 2 w w).symm
      _ ≤ 2 ^ v := Nat.pow_le_pow_right (by decide) h
  rw [BitVec.toNat_mul, BitVec.toNat_setWidth_of_le hle, BitVec.toNat_setWidth_of_le hle,
    Nat.mod_eq_of_lt hproduct]

theorem toNat_addmod (a b n : Word) :
    (addmod a b n).toNat = if n = 0 then 0 else (a.toNat + b.toNat) % n.toNat := by
  unfold addmod
  split
  · rfl
  · next hn => rw [toNat_narrow_umod _ hn, toNat_add_wide (by decide)]

theorem toNat_mulmod (a b n : Word) :
    (mulmod a b n).toNat = if n = 0 then 0 else a.toNat * b.toNat % n.toNat := by
  unfold mulmod
  split
  · rfl
  · next hn => rw [toNat_narrow_umod _ hn, toNat_mul_wide (by decide)]

/-! ## Bytes -/

theorem toNat_byte (i x : Word) : (byte i x).toNat =
    if i.toNat < 32 then x.toNat / 2 ^ (8 * (31 - i.toNat)) % 256 else 0 := by
  have hbyte : x.toNat / 2 ^ (8 * (31 - i.toNat)) % 256 < 2 ^ 256 :=
    (Nat.mod_lt _ (by decide)).trans (by decide)
  unfold byte
  by_cases hi : i.toNat < 32
  · rw [if_neg (Nat.not_le.mpr hi), if_pos hi, Nat.shiftRight_eq_div_pow, BitVec.toNat_ofNat,
      Nat.mod_eq_of_lt hbyte]
  · rw [if_pos (Nat.le_of_not_lt hi), if_neg hi]
    rfl

/-! ## All operators -/

/-- **The operators compute what their names say**, on all words, with words
    read in two's complement over the integers where signs count. Signed
    division cuts toward zero and wraps, its remainder has the sign of the
    dividend, and the two give back the dividend; the signed orders are those
    of the values; a shift by any number of bits divides and rounds down; the
    sign is extended from the low bytes that `b` names, if they are not the
    whole word; a byte is a digit to base 256; and the modular operators are
    exact. -/
theorem operators_exact :
    (∀ a b : Word, sdiv a b =
      if b = 0 then 0 else BitVec.ofInt 256 (a.toInt.tdiv b.toInt)) ∧
    (∀ a b : Word, (smod a b).toInt = if b = 0 then 0 else a.toInt.tmod b.toInt) ∧
    (∀ a b : Word, b ≠ 0 → sdiv a b * b + smod a b = a) ∧
    (∀ a b : Word, (slt a b = true ↔ a.toInt < b.toInt) ∧
      (sgt a b = true ↔ b.toInt < a.toInt)) ∧
    (∀ s x : Word, (sar s x).toInt = x.toInt.fdiv (2 ^ s.toNat)) ∧
    (∀ b x : Word,
      if b.toNat < 31 then (signextend b x).toInt = (x.setWidth (8 * (b.toNat + 1))).toInt
      else signextend b x = x) ∧
    (∀ i x : Word, (byte i x).toNat =
      if i.toNat < 32 then x.toNat / 2 ^ (8 * (31 - i.toNat)) % 256 else 0) ∧
    (∀ a b n : Word, (addmod a b n).toNat =
      if n = 0 then 0 else (a.toNat + b.toNat) % n.toNat) ∧
    (∀ a b n : Word, (mulmod a b n).toNat =
      if n = 0 then 0 else a.toNat * b.toNat % n.toNat) := by
  refine ⟨fun a b => ?_, fun a b => ?_, fun a b hb => sdiv_mul_add_smod a hb,
    fun a b => ⟨slt_iff a b, slt_iff b a⟩, toInt_sar, fun b x => ?_, toNat_byte, toNat_addmod,
    toNat_mulmod⟩
  · split
    · next hb => rw [sdiv, if_pos hb]
    · exact sdiv_eq_ofInt a b
  · split
    · next hb => simp [smod, hb]
    · next hb => exact toInt_smod a hb
  · split
    · next hb => exact toInt_signextend x hb
    · next hb => rw [signextend, if_pos (Nat.le_of_not_lt hb)]

/-- The one quotient that wraps; a shift and a number of bytes that are beyond
    the word; and a sum and a product that are beyond 256 bits. -/
theorem operators_exact_at_extremes :
    let least : Word := 1 <<< 255
    max ≠ 0 ∧ least.toInt = -2 ^ 255 ∧ max.toInt = -1 ∧
      sdiv least max = least ∧ smod least max = 0 ∧ sdiv least max * max + smod least max = least ∧
      slt least max = true ∧ (sar 300 least).toInt = -1 ∧
      (signextend 1 0x1ff80).toInt = -128 ∧ signextend max 0xff = 0xff ∧
      (byte 31 0x1234).toNat = 0x34 ∧ (addmod max 2 2).toNat = 1 ∧
      (mulmod max max 12).toNat = 9 := by
  intro least
  obtain ⟨hsdiv, hsmod, hrecompose, horder, hsar, hextend, hbyte, hadd, hmul⟩ := operators_exact
  have hmax : max ≠ 0 := by decide
  refine ⟨hmax, by decide, by decide, (hsdiv _ _).trans (by decide), ?_, hrecompose _ _ hmax,
    (horder _ _).1.mpr (by decide), (hsar _ _).trans (by decide +kernel),
    (hextend 1 _).trans (by decide), hextend max _, (hbyte _ _).trans (by decide),
    (hadd _ _ _).trans (by decide), (hmul _ _ _).trans (by decide)⟩
  exact BitVec.eq_of_toInt_eq ((hsmod _ _).trans (by decide))

end Evm.Word
