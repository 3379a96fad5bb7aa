import Evm.JumpDests
import Mathlib.Data.Nat.Bitwise
import Mathlib.Tactic

/-! # Instruction starts

    Code is read from its first byte on, and the immediate bytes of a push
    belong to the push. The positions that are reached this way are the
    instruction starts (`IsStart`); all others hold push data. Reading is
    deterministic, so that no position is both (`IsStart.not_pushData`).

    The analysis goes from one instruction to the next as well, so that each
    round of its scan stands at an instruction start, and sets bits in words
    of 64. It marks exactly the instruction starts that hold a `JUMPDEST`
    (`isValid_analyze`).
-/

namespace Evm.JumpDests

variable {code : Bytes} {i j k : Nat}

/-! ## Reading code -/

/-- The immediate bytes of the instruction that a byte stands for: those of
    `PUSH1` to `PUSH32`. Bytes that stand for no instruction have none. -/
def immediates (b : UInt8) : Nat :=
  match Opcode.ofByte? b with
  | some op => op.immediateSize
  | none => 0

/-- The positions that are reached from the first one by passing over one
    instruction and its immediate bytes at a time. The last of them is at the
    end of the code, or past it if a push is cut short there. -/
inductive IsStart (code : Bytes) : Nat → Prop where
  | first : IsStart code 0
  | next {i : Nat} (h : i < code.size) : IsStart code i → IsStart code (i + 1 + immediates code[i])

/-- The position belongs to the immediate bytes of a push. -/
def IsPushData (code : Bytes) (k : Nat) : Prop :=
  ∃ i, ∃ h : i < code.size, IsStart code i ∧ i < k ∧ k < i + 1 + immediates code[i]

/-- The position holds a `JUMPDEST` that is an instruction. -/
def IsTarget (code : Bytes) (k : Nat) : Prop :=
  ∃ h : k < code.size, code[k] = 0x5b ∧ IsStart code k

/-- **No start lies within an instruction.** -/
theorem IsStart.next_le (hi : IsStart code i) (hj : IsStart code j) (hij : i < j)
    (h : i < code.size) : i + 1 + immediates code[i] ≤ j := by
  induction j using Nat.strong_induction_on generalizing i with
  | _ j ih =>
    cases hj with
    | first => omega
    | @next l hl hlstart =>
      rcases Nat.lt_trichotomy i l with hlt | rfl | hgt
      · -- one that comes before the last instruction ends before it
        have := ih l (by omega) hi hlstart hlt h
        omega
      · exact Nat.le_refl _
      · -- the last instruction would end before it
        have := ih i hij hlstart hi hgt hl
        omega

/-- **Instructions are not push data.** -/
theorem IsStart.not_pushData (hk : IsStart code k) : ¬IsPushData code k := by
  rintro ⟨i, h, hi, hlt, hgt⟩
  have := hi.next_le hk hlt h
  omega

/-! ## Immediate bytes -/

theorem immediateSize_of_singleByte {n : Nat} {op : Opcode}
    (h : Opcode.ofSingleByte? n = some op) : op.immediateSize = 0 := by
  unfold Opcode.ofSingleByte? at h
  split at h <;> cases h <;> rfl

/-- The analysis passes over as many bytes as the machine does. -/
theorem immediateSize_eq (b : UInt8) : immediateSize b = immediates b := by
  unfold immediateSize immediates Opcode.ofByte?
  by_cases hpush : 0x60 ≤ b.toNat ∧ b.toNat < 0x80
  · rw [if_pos hpush, dif_pos hpush]
    simp only [Opcode.immediateSize]
    omega
  · rw [if_neg hpush, dif_neg hpush]
    split_ifs
    · rfl
    · rfl
    · rfl
    · cases hsingle : Opcode.ofSingleByte? b.toNat with
      | none => rfl
      | some op => exact (immediateSize_of_singleByte hsingle).symm

/-! ## The bitmap -/

/-- The position is marked in the bitmap. Positions past the last word are not. -/
def IsMarked (bits : Array UInt64) (k : Nat) : Prop := bits.getD (k / 64) 0 &&& bit k ≠ 0

theorem toNat_bit (k : Nat) : (bit k).toNat = 2 ^ (k % 64) := by
  have hlt : k % 64 < 64 := Nat.mod_lt k (by decide)
  have hpow : 2 ^ (k % 64) < 2 ^ 64 := Nat.pow_lt_pow_right (by decide) hlt
  have hshift : (UInt64.ofNat (k % 64)).toNat = k % 64 :=
    UInt64.toNat_ofNat_of_lt (Nat.lt_trans hlt (by decide))
  rw [bit, UInt64.toNat_shiftLeft, hshift, Nat.mod_eq_of_lt hlt]
  simpa [Nat.shiftLeft_eq] using hpow

/-- A mask picks one bit out of a word. -/
theorem and_bit_ne_zero_iff (w : UInt64) (k : Nat) :
    w &&& bit k ≠ 0 ↔ w.toNat.testBit (k % 64) = true := by
  rw [ne_eq, ← UInt64.toNat_inj, UInt64.toNat_and, toNat_bit, Nat.and_two_pow]
  cases w.toNat.testBit (k % 64) <;> simp

/-- **Setting a bit marks one position**, whether the others are in the same
    word or in another one. -/
theorem isMarked_mark {bits : Array UInt64} (hi : i < 64 * bits.size) :
    IsMarked (mark bits i) k ↔ k = i ∨ IsMarked bits k := by
  have hword : i / 64 < bits.size := by omega
  unfold IsMarked mark
  rw [Array.getD_eq_getD_getElem?, Array.getD_eq_getD_getElem?, Array.getElem?_modify]
  by_cases hsame : i / 64 = k / 64
  · -- in the word that is written, the masks differ if the positions do
    have hpos : i % 64 = k % 64 ↔ k = i := by omega
    rw [if_pos hsame, ← hsame, Array.getElem?_eq_getElem hword, Option.map_some,
      Option.getD_some, Option.getD_some, and_bit_ne_zero_iff, and_bit_ne_zero_iff,
      UInt64.toNat_or, Nat.testBit_or, toNat_bit, Nat.testBit_two_pow]
    simp only [Bool.or_eq_true, decide_eq_true_eq, hpos]
    exact or_comm
  · have hne : k ≠ i := fun h => hsame (by rw [h])
    rw [if_neg hsame]
    simp [hne]

theorem not_isMarked_replicate (n : Nat) : ¬IsMarked (Array.replicate n 0) k := by
  unfold IsMarked
  rw [Array.getD_eq_getD_getElem?, Array.getElem?_replicate]
  split <;> simp

/-- A bit that is set within the code is a valid destination. -/
theorem isValid_iff (d : JumpDests) : d.isValid k = true ↔ k < d.len ∧ IsMarked d.bits k := by
  have hcovered := d.covered
  unfold isValid IsMarked
  split
  · next h =>
    have hword : k / 64 < d.bits.size := by omega
    simp [h, Array.getD_eq_getD_getElem?, Array.getElem?_eq_getElem hword]
  · next h => simp [h]

/-! ## The analysis -/

/-- **What a scan marks**: if it begins at an instruction, it adds the targets
    from there on to what was marked before. -/
theorem isMarked_scan {bits : Array UInt64} (hbits : code.size ≤ 64 * bits.size)
    (hi : IsStart code i) :
    IsMarked (scan code i bits) k ↔ IsMarked bits k ∨ (i ≤ k ∧ IsTarget code k) := by
  -- the scan goes from one instruction to the next, as `IsStart` does
  fun_induction scan with
  | case1 i bits h hdest ih =>
    have hnext : IsStart code (i + 1) := by
      have hlength : immediates code[i] = 0 := by rw [hdest]; rfl
      simpa [hlength] using hi.next h
    have hhere : IsTarget code i := ⟨h, hdest, hi⟩
    rw [ih (by rwa [size_mark]) hnext, isMarked_mark (by omega)]
    rcases Nat.lt_trichotomy k i with hlt | rfl | hgt
    · simp [Nat.ne_of_lt hlt, Nat.not_le.mpr hlt, show ¬i + 1 ≤ k by omega]
    · simp [hhere]
    · simp [Nat.ne_of_gt hgt, hgt.le, show i + 1 ≤ k by omega]
  | case2 i bits h hdest ih =>
    have hnext : IsStart code (i + immediateSize code[i] + 1) := by
      rw [immediateSize_eq, Nat.add_right_comm]
      exact hi.next h
    -- neither the instruction nor its immediate bytes are targets
    have hnone : i ≤ k → IsTarget code k → i + immediateSize code[i] + 1 ≤ k := by
      rintro hle ⟨hk, hbyte, hstart⟩
      rcases Nat.eq_or_lt_of_le hle with rfl | hlt
      · exact absurd hbyte hdest
      · have := hi.next_le hstart hlt h
        rw [immediateSize_eq]
        omega
    rw [ih hbits hnext]
    refine or_congr_right (and_congr_left fun htarget => ⟨fun hle => by omega, fun hle => ?_⟩)
    exact hnone hle htarget
  | case3 i bits h =>
    have hpast : ¬(i ≤ k ∧ IsTarget code k) := by
      rintro ⟨hle, hlt, _⟩
      omega
    simp [hpast]

/-- **The analysis is right**: a position is a valid destination if and only if
    it holds a `JUMPDEST` that is an instruction. -/
theorem isValid_analyze : (analyze code).isValid k = true ↔ IsTarget code k := by
  have hbits : code.size ≤ 64 * (Array.replicate ((code.size + 63) / 64) (0 : UInt64)).size := by
    rw [Array.size_replicate]
    omega
  rw [isValid_iff]
  unfold analyze
  rw [isMarked_scan hbits .first]
  simp only [not_isMarked_replicate, false_or, Nat.zero_le, true_and]
  exact ⟨And.right, fun htarget => ⟨htarget.1, htarget⟩⟩

end Evm.JumpDests
