import Evm.Proofs.EndState
import Evm.Proofs.Gas.Memory
import Evm.Proofs.Memory
import Evm.Frame.Basic

/-! # What growing memory costs

    Memory is paid for by the word, with a part that grows with the square. The
    plain rule for it is over numbers without bound (`Gas.exactExpansion`). A
    frame follows it with two short cuts: amounts are cut down to 64 bits, and
    a word that 32 bits do not hold is no index, whatever could be paid.

    The first one never shows: of the sizes that have an index none comes near
    the bound (`Gas.memory_eq_exact`). The second one shows only in frames that
    can pay for four gigabytes and more; in all others memory grows by the
    plain rule (`resizeMemory_by_price`).
-/

namespace Evm

/-- A word is an index of memory if 32 bits hold it. -/
def Word.IsIndex (w : Word) : Prop := w.toNat < 2 ^ 32

instance (w : Word) : Decidable w.IsIndex := inferInstanceAs (Decidable (w.toNat < 2 ^ 32))

theorem Word.toIndex?_of_isIndex {w : Word} (h : w.IsIndex) : w.toIndex? = some w.toNat :=
  if_pos (Nat.le_of_lt_succ h)

theorem Word.toIndex?_of_not_isIndex {w : Word} (h : ¬w.IsIndex) : w.toIndex? = none :=
  if_neg fun hle => h (Nat.lt_succ_of_le hle)

/-- A memory of as many words as a range needs does not grow for it. -/
theorem Memory.resize_of_words {m : Memory} {offset len : Nat}
    (h : Gas.words (offset + len) ≤ m.words) : m.resize offset len = m := by
  have hsize : m.words = m.data.size / 32 := rfl
  unfold Gas.words at h
  unfold resize
  simp only
  split
  · rfl
  · rw [if_neg]
    omega

/-! ## Frames -/

namespace Exec

variable {η : Type}

/-- A frame that has paid for a range of memory and covers it. -/
def expanded (x : Exec η) (offset len : Nat) : Exec η :=
  let price := Gas.exactExpansion x.frame.memory.words (offset + len)
  { x with frame := { x.frame with
    gas := { x.frame.gas with remaining := x.frame.gas.remaining - price }
    memory := x.frame.memory.resize offset len } }

theorem toIndex_of_isIndex {w : Word} (h : w.IsIndex) (x : Exec η) :
    toIndex w x = .ok w.toNat x := by
  rw [toIndex, Word.toIndex?_of_isIndex h]
  rfl

theorem toIndex_of_not_isIndex {w : Word} (h : ¬w.IsIndex) (x : Exec η) :
    toIndex w x = .error .outOfGas x := by
  rw [toIndex, Word.toIndex?_of_not_isIndex h]
  rfl

/-- Two indices end well below what is cut down. -/
theorem bounded_of_isIndex {offset len : Word} (hoffset : offset.IsIndex) (hlen : len.IsIndex) :
    Memory.Bounded offset.toNat len.toNat ∧
      Gas.words (offset.toNat + len.toNat) < 2 ^ 32 := by
  unfold Word.IsIndex at hoffset hlen
  unfold Memory.Bounded Gas.words Word.maxUInt64
  omega

variable {x : Exec η} {offset len : Word}

/-- A range that is too far away or too long halts the frame. -/
theorem resizeMemory_of_not_isIndex (hlen : len ≠ 0) (h : ¬offset.IsIndex ∨ ¬len.IsIndex) :
    resizeMemory offset len x = .error .outOfGas x := by
  unfold resizeMemory
  rw [if_neg hlen, bind_apply]
  by_cases hoffset : offset.IsIndex
  · have hlong : ¬len.IsIndex := h.resolve_left (not_not_intro hoffset)
    rw [toIndex_of_isIndex hoffset]
    simp only [bind_apply]
    rw [toIndex_of_not_isIndex hlong]
  · rw [toIndex_of_not_isIndex hoffset]

/-- A range of indices is a matter of its price. -/
theorem resizeMemory_of_isIndex (hlen : len ≠ 0) (hoffset : offset.IsIndex)
    (hlength : len.IsIndex) :
    resizeMemory offset len x =
      if x.frame.gas.remaining <
          Gas.exactExpansion x.frame.memory.words (offset.toNat + len.toNat) then
        .error .outOfGas x
      else .ok (offset.toNat, len.toNat) (x.expanded offset.toNat len.toNat) := by
  obtain ⟨_, hsmall⟩ := bounded_of_isIndex hoffset hlength
  unfold resizeMemory
  rw [if_neg hlen, bind_apply, toIndex_of_isIndex hoffset]
  simp only [bind_apply]
  rw [toIndex_of_isIndex hlength]
  simp only [frameGet]
  by_cases hgrows : x.frame.memory.words < Gas.words (offset.toNat + len.toNat)
  · rw [if_pos hgrows, bind_apply, charge, Gas.charge?,
      Gas.memoryExpansion_eq_exact hsmall hgrows]
    by_cases hpoor : x.frame.gas.remaining <
        Gas.exactExpansion x.frame.memory.words (offset.toNat + len.toNat)
    · rw [if_pos hpoor, if_pos hpoor]
    · rw [if_neg hpoor, if_neg hpoor]
      rfl
  · -- the memory has what is asked for, and nothing is paid
    have hcovered := Nat.le_of_not_lt hgrows
    have hsame : x.expanded offset.toNat len.toNat = x := by
      simp only [expanded, Gas.exactExpansion_of_covered hcovered, Nat.sub_zero,
        Memory.resize_of_words hcovered]
    rw [if_neg hgrows, Gas.exactExpansion_of_covered hcovered, if_neg (Nat.not_lt_zero _), hsame]
    rfl

/-- A range of which one word is no index ends behind four gigabytes. -/
theorem le_last_of_not_isIndex (h : ¬offset.IsIndex ∨ ¬len.IsIndex) :
    2 ^ 32 ≤ offset.toNat + len.toNat := by
  unfold Word.IsIndex at h
  omega

/-- What makes a frame halt over a range: a word that is no index, or the price. -/
theorem resizeMemory_halts_iff (hlen : len ≠ 0) :
    (∃ y, resizeMemory offset len x = .error .outOfGas y) ↔
      ¬offset.IsIndex ∨ ¬len.IsIndex ∨ x.frame.gas.remaining <
        Gas.exactExpansion x.frame.memory.words (offset.toNat + len.toNat) := by
  by_cases hoffset : offset.IsIndex
  · by_cases hlength : len.IsIndex
    · rw [resizeMemory_of_isIndex hlen hoffset hlength]
      split
      · next hpoor => exact iff_of_true ⟨x, rfl⟩ (.inr (.inr hpoor))
      · next hrich =>
        refine iff_of_false (fun ⟨_, h⟩ => nomatch h) ?_
        rintro (h | h | h)
        · exact h hoffset
        · exact h hlength
        · exact hrich h
    · exact iff_of_true ⟨x, resizeMemory_of_not_isIndex hlen (.inr hlength)⟩ (.inr (.inl hlength))
  · exact iff_of_true ⟨x, resizeMemory_of_not_isIndex hlen (.inl hoffset)⟩ (.inl hoffset)

/-- **Memory grows by its price.** For a range that is not empty, of any two
    words, a frame halts if and only if a word is no index or the price of
    growth, in numbers without bound, is more than the gas that is left.
    Otherwise that price is what it pays, and its memory covers the range. A
    frame that could not pay for four gigabytes halts by the price alone. -/
theorem resizeMemory_by_price (x : Exec η) (offset len : Word) (hlen : len ≠ 0) :
    let price := Gas.exactExpansion x.frame.memory.words (offset.toNat + len.toNat)
    let halts := ∃ y, resizeMemory offset len x = .error .outOfGas y
    (halts ↔ ¬offset.IsIndex ∨ ¬len.IsIndex ∨ x.frame.gas.remaining < price) ∧
    (¬halts → ∃ y, resizeMemory offset len x = .ok (offset.toNat, len.toNat) y ∧
      y.frame.gas.remaining + price = x.frame.gas.remaining ∧
      offset.toNat + len.toNat ≤ y.frame.memory.size ∧
      y = x.expanded offset.toNat len.toNat) ∧
    (x.frame.gas.remaining < Gas.exactExpansion x.frame.memory.words (2 ^ 32) →
      (halts ↔ x.frame.gas.remaining < price)) := by
  intro price halts
  have hlen' : len.toNat ≠ 0 := fun h => hlen (BitVec.eq_of_toNat_eq h)
  have hhalts : halts ↔ ¬offset.IsIndex ∨ ¬len.IsIndex ∨ x.frame.gas.remaining < price :=
    resizeMemory_halts_iff hlen
  refine ⟨hhalts, ?_, ?_⟩
  · intro hgoes
    rw [hhalts, not_or, not_or, Classical.not_not, Classical.not_not, Nat.not_lt] at hgoes
    obtain ⟨hoffset, hlength, hrich⟩ := hgoes
    obtain ⟨hbound, _⟩ := bounded_of_isIndex hoffset hlength
    refine ⟨x.expanded offset.toNat len.toNat, ?_, ?_, Memory.resize_covers hbound hlen', rfl⟩
    · rw [resizeMemory_of_isIndex hlen hoffset hlength, if_neg (Nat.not_lt.mpr hrich)]
    · exact Nat.sub_add_cancel hrich
  · intro hpoor
    -- whatever is no index costs more than four gigabytes
    have hfar : ¬offset.IsIndex ∨ ¬len.IsIndex → x.frame.gas.remaining < price := fun h =>
      hpoor.trans_le (Gas.exactExpansion_mono _ (le_last_of_not_isIndex h))
    rw [hhalts, ← or_assoc]
    exact ⟨fun h => h.elim hfar id, .inr⟩

/-- A frame of no code, with some gas. -/
def idle (gas : Nat) : Exec Unit :=
  ⟨Frame.start ByteArray.empty (.analyze ByteArray.empty)
    ⟨.zero, .zero, 0, ByteArray.empty, false, 0⟩ gas .cancun, ()⟩

/-- A range of 70 bytes takes three words, which cost nine: with less the frame
    halts, and with so much nothing is left. -/
theorem resizeMemory_by_price_unaligned :
    (30 : Word) ≠ 0 ∧
      (∃ y, resizeMemory 40 30 (idle 8) = .error .outOfGas y) ∧
      ∃ y, resizeMemory 40 30 (idle 9) = .ok (40, 30) y ∧ y.frame.gas.remaining = 0 ∧
        70 ≤ y.frame.memory.size := by
  have hlen : (30 : Word) ≠ 0 := by decide
  have hpoor : (idle 8).frame.gas.remaining <
      Gas.exactExpansion (idle 8).frame.memory.words 70 := by
    decide
  have hrich : Gas.exactExpansion (idle 9).frame.memory.words 70 = 9 := by decide
  obtain ⟨hhalts, _, _⟩ := resizeMemory_by_price (idle 8) 40 30 hlen
  obtain ⟨hfails, hpays, _⟩ := resizeMemory_by_price (idle 9) 40 30 hlen
  refine ⟨hlen, hhalts.mpr (.inr (.inr hpoor)), ?_⟩
  have hgoes : ¬∃ y, resizeMemory 40 30 (idle 9) = .error .outOfGas y := by
    rw [hfails]
    decide
  obtain ⟨y, hok, hgas, hcovers, _⟩ := hpays hgoes
  have hleft : y.frame.gas.remaining + 9 = 9 := by
    rw [← hrich]
    exact hgas
  exact ⟨y, hok, by omega, hcovers⟩

/-- **What can be paid may still be no index**: with all the gas that 64 bits
    hold a frame is refused the byte at `2 ^ 32`, at a price far below. -/
theorem resizeMemory_refuses_payable :
    ¬((∃ y, resizeMemory 0x100000000 1 (idle Word.maxUInt64) = .error .outOfGas y) ↔
      (idle Word.maxUInt64).frame.gas.remaining <
        Gas.exactExpansion (idle Word.maxUInt64).frame.memory.words (0x100000000 + 1)) := by
  have hhalts : resizeMemory 0x100000000 1 (idle Word.maxUInt64) =
      .error .outOfGas (idle Word.maxUInt64) :=
    resizeMemory_of_not_isIndex (by decide) (.inl (by decide))
  have hrich : ¬(idle Word.maxUInt64).frame.gas.remaining <
      Gas.exactExpansion (idle Word.maxUInt64).frame.memory.words (0x100000000 + 1) := by decide
  exact fun h => hrich (h.mp ⟨_, hhalts⟩)

end Exec

end Evm
