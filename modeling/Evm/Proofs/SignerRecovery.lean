import Evm.Precompile
import Evm.Proofs.Bytes
import Mathlib.Data.Nat.Bitwise
import Mathlib.Tactic.IntervalCases

/-! # Who signed

    For every signature `(r, s)` of a key there is a second one, `(r, n - s)`
    with the other parity. Recovery brings both into the form whose `s` is in
    the lower half first. The group order is odd, so of `s` and `n - s` exactly
    one is there, and both come to the same form (`lowForm_negated`).

    The precompiled contract reads its input from a buffer of 128 bytes, so
    that bytes past them do not count and missing ones are zeros, and looks at
    the bytes of `v` one by one, which is the same as reading the whole word
    (`hasParity_iff`). It never fails: without a signer its output is empty.
-/

namespace Evm

namespace Crypto

open Secp256k1

/-! ## The second signature -/

/-- The opposite of a scalar: `n - s`. -/
def negated (s : Hash) : Hash := .ofWord (.ofNat (n - s.toWord.toNat))

theorem isScalar_iff (k : Nat) : isScalar k = true ↔ 0 < k ∧ k < n := by
  simp [isScalar]

theorem toNat_negated (s : Hash) : (negated s).toWord.toNat = n - s.toWord.toNat := by
  have hn : n < 2 ^ 256 := by decide
  rw [negated, Hash.ofWord, BitVec.toNat_ofNat, Nat.mod_eq_of_lt (by omega)]

theorem isScalar_negated {s : Hash} (hs : isScalar s.toWord.toNat) :
    isScalar (negated s).toWord.toNat := by
  have hrange := (isScalar_iff _).mp hs
  rw [toNat_negated, isScalar_iff]
  omega

/-- **A signature and the second one have the same low form.** -/
theorem lowForm_negated {s id : Nat} (hs : isScalar s) :
    lowForm (n - s) (id ^^^ 1) = lowForm s id := by
  have hrange := (isScalar_iff s).mp hs
  have hodd : n % 2 = 1 := by decide
  unfold lowForm
  by_cases hhigh : n / 2 < s
  · rw [if_pos hhigh, if_neg (by omega)]
  · have hback : n - (n - s) = s := by omega
    rw [if_neg hhigh, if_pos (by omega), hback, Nat.xor_xor_cancel_right]

/-- An id stays valid when its parity is flipped, also one that says that `r`
    was reduced. -/
theorem xor_one_le {id : Nat} (hid : id ≤ 3) : id ^^^ 1 ≤ 3 := by
  interval_cases id <;> decide

theorem recoverAddress_negated (message : Hash) {id : Nat} (hid : id ≤ 3) (r : Hash) {s : Hash}
    (hs : isScalar s.toWord.toNat) :
    recoverAddress message (id ^^^ 1) r (negated s) = recoverAddress message id r s := by
  have hflipped := xor_one_le hid
  have hnegated := isScalar_negated hs
  unfold recoverAddress
  -- both signatures pass the checks
  simp only [hs, hnegated, if_neg (Nat.not_lt.mpr hid), if_neg (Nat.not_lt.mpr hflipped)]
  rw [toNat_negated, lowForm_negated hs]

end Crypto

/-! ## The precompiled contract -/

namespace Precompile

open Bytes Crypto

variable (input : Bytes)

/-- `v` is 27 or 28 as a whole word. -/
def HasParity : Prop := number input 32 32 = 27 ∨ number input 32 32 = 28

/-- The signer of the hash by `r` and `s`, for the id that `v` stands for. -/
def signerOf : Except RecoveryError Address :=
  recoverAddress (.ofWord (Word.ofBytesAt input 0)) (number input 32 32 - 27)
    (.ofWord (Word.ofBytesAt input 64)) (.ofWord (Word.ofBytesAt input 96))

theorem byteAt_buffer {i : Nat} (hi : i < 128) :
    byteAt (window input 0 128) i = byteAt input i := by
  rw [byteAt_window, if_pos hi, Nat.zero_add]

theorem number_buffer {start : Nat} (hstart : start + 32 ≤ 128) :
    number (window input 0 128) start 32 = number input start 32 :=
  number_congr fun i hi => byteAt_buffer input (by omega)

/-- Looking at the bytes of `v` one by one. -/
theorem hasParity_iff :
    ((∀ i < 31, byteAt (window input 0 128) (32 + i) = 0) ∧
      ((byteAt (window input 0 128) 63).toNat = 27 ∨
        (byteAt (window input 0 128) 63).toNat = 28)) ↔ HasParity input := by
  rw [HasParity, ← number_buffer input (by decide : 32 + 32 ≤ 128),
    number_eq_small_iff _ (by decide), number_eq_small_iff _ (by decide), ← and_or_left]

variable {input}

theorem recoverSigner_of_hasParity (h : HasParity input) :
    recoverSigner input =
      (signerOf input).toOption.elim ByteArray.empty fun address => address.toWord.toBytes := by
  have hbytes := (hasParity_iff input).mpr h
  have hword : ∀ start, start + 32 ≤ 128 →
      Word.ofBytesAt (window input 0 128) start = Word.ofBytesAt input start := by
    intro start hstart
    rw [Word.ofBytesAt, Word.ofBytesAt, number_buffer input hstart]
  have hlast : (byteAt (window input 0 128) 63).toNat = number input 32 32 := by
    rw [← number_buffer input (by decide : 32 + 32 ≤ 128)]
    exact ((number_eq_small_iff _ (UInt8.toNat_lt _)).mpr ⟨hbytes.1, rfl⟩).symm
  unfold recoverSigner signerOf
  rw [hlast] at hbytes
  simp only [hlast, hword 0 (by decide), hword 64 (by decide), hword 96 (by decide)]
  rw [if_pos hbytes]
  -- either way the two sides are the same
  split <;> next hsigner => simp [hsigner, Except.toOption]

theorem recoverSigner_of_not_hasParity (h : ¬HasParity input) :
    recoverSigner input = ByteArray.empty := by
  unfold recoverSigner
  exact if_neg fun hbytes => h ((hasParity_iff input).mp hbytes)

/-- The output is empty if and only if there is no signer to name. -/
theorem size_recoverSigner_eq_zero_iff :
    (recoverSigner input).size = 0 ↔ ¬HasParity input ∨ ∃ e, signerOf input = .error e := by
  by_cases hparity : HasParity input
  · rw [recoverSigner_of_hasParity hparity]
    cases hsigner : signerOf input with
    | ok address =>
      have hsize : address.toWord.toBytes.size = 32 := size_ofNumber _ _
      simp [hsize, hparity, Except.toOption]
    | error e => simp [Except.toOption]
  · rw [recoverSigner_of_not_hasParity hparity]
    simp [hparity]

/-- Nothing behind the first 128 bytes counts. -/
theorem recoverSigner_congr {other : Bytes} (h : ∀ i < 128, byteAt input i = byteAt other i) :
    recoverSigner input = recoverSigner other := by
  have hbuffer : window input 0 128 = window other 0 128 := by
    apply ext_byteAt (by rw [size_window, size_window])
    intro i hi
    rw [size_window] at hi
    rw [byteAt_buffer input hi, byteAt_buffer other hi, h i hi]
  unfold recoverSigner
  rw [hbuffer]

end Precompile

namespace Crypto

open Secp256k1 Precompile

/-- **Recovery does not depend on the form.** Both signatures of a key name the
    same signer, or fail for the same reason, for every `r`. The precompiled
    contract gives for an input what it gives for the input cut off or extended
    by zeros to 128 bytes. It never fails, its output is empty if and only if
    `v` is neither 27 nor 28 or there is no signer, and otherwise it is the
    address of the signer as a word. -/
theorem recovery_ignores_form :
    (∀ (message r s : Hash) (id : Nat), id ≤ 3 → 0 < s.toWord.toNat → s.toWord.toNat < n →
      recoverAddress message (id ^^^ 1) r (negated s) = recoverAddress message id r s) ∧
    (∀ input : Bytes, ecRecover.execute input = ecRecover.execute (Bytes.window input 0 128)) ∧
    (∀ input : Bytes, ∃ output, ecRecover.execute input = .ok output ∧
      (output.size = 0 ↔ ¬HasParity input ∨ ∃ e, signerOf input = .error e) ∧
      ∀ address, HasParity input → signerOf input = .ok address →
        output = address.toWord.toBytes) := by
  refine ⟨?_, ?_, ?_⟩
  · intro message r s id hid hpos hlt
    exact recoverAddress_negated message hid r ((isScalar_iff _).mpr ⟨hpos, hlt⟩)
  · intro input
    apply congrArg Except.ok
    apply recoverSigner_congr
    intro i hi
    exact (byteAt_buffer input hi).symm
  · intro input
    refine ⟨_, rfl, size_recoverSigner_eq_zero_iff, ?_⟩
    intro address hparity hsigner
    rw [recoverSigner_of_hasParity hparity, hsigner]
    rfl

/-- The largest `s` of the lower half and the least of the upper half, under an
    id that says that `r` was reduced; and an input without any byte. -/
theorem recovery_ignores_form_at_half :
    let s : Hash := .ofWord (.ofNat (n / 2))
    (3 ≤ 3 ∧ 0 < s.toWord.toNat ∧ s.toWord.toNat < n) ∧
      negated s = .ofWord (.ofNat (n / 2 + 1)) ∧
      recoverAddress ⟨7⟩ 2 ⟨1⟩ (negated s) = recoverAddress ⟨7⟩ 3 ⟨1⟩ s ∧
      ∃ output, ecRecover.execute ByteArray.empty = .ok output ∧ output.size = 0 := by
  intro s
  obtain ⟨hsame, -, hrun⟩ := recovery_ignores_form
  obtain ⟨output, houtput, hempty, -⟩ := hrun ByteArray.empty
  have hzero : ¬HasParity ByteArray.empty := by
    unfold HasParity
    decide
  exact ⟨by decide, by decide, hsame ⟨7⟩ ⟨1⟩ s 3 (by decide) (by decide) (by decide),
    output, houtput, hempty.mpr (.inl hzero)⟩

end Crypto

end Evm
