import Evm.ContractAddress
import Evm.Proofs.Rlp

/-! # What contract addresses are made of

    The bytes that are hashed for the address of a new contract say who makes
    it and with what. Two contracts are hashed from the same bytes only if
    they have the same creator and the same nonce, or the same creator, salt
    and init code hash (`preimages_apart`); so two addresses can only be the
    same by a collision of the hash in the low 20 bytes.

    With a nonce, the creator and the nonce are items of a list, whose lengths
    vary with the nonce: they are told apart by reading them back. With a salt,
    all parts have fixed widths. The list has at most 30 bytes behind its
    header, which therefore is far below the marker that stands in front of a
    salted preimage.
-/

namespace Evm

open Bytes

/-! ## Parts of fixed width -/

theorem Address.toBytes_inj {a b : Address} (h : a.toBytes = b.toBytes) : a = b := by
  have hbits : a.bits.toNat = b.bits.toNat := ofNumber_inj a.bits.isLt b.bits.isLt h
  cases a
  cases b
  exact congrArg Address.mk (BitVec.eq_of_toNat_eq hbits)

theorem Word.toBytes_inj {x y : Word} (h : x.toBytes = y.toBytes) : x = y :=
  BitVec.eq_of_toNat_eq (ofNumber_inj x.isLt y.isLt h)

theorem Hash.toBytes_inj {h k : Hash} (heq : h.toBytes = k.toBytes) : h = k := by
  cases h
  cases k
  exact congrArg Hash.mk (Word.toBytes_inj heq)

/-! ## With a nonce -/

variable {a b : Address} {n m : Nat}

/-- The list is short: one byte stands in front of the two items. -/
theorem createPreimage_eq (hn : n < 2 ^ 64) :
    createPreimage a n =
      ofNumber (0xd5 + (Rlp.encodeNumber n).size) 1 ++
        (Rlp.encodeAddress a ++ Rlp.encodeNumber n) := by
  have hbody : [Rlp.encodeAddress a, Rlp.encodeNumber n].foldl (· ++ ·) ByteArray.empty =
      Rlp.encodeAddress a ++ Rlp.encodeNumber n := by
    simp only [List.foldl_cons, List.foldl_nil, ByteArray.empty_append]
  have hsize : (Rlp.encodeAddress a ++ Rlp.encodeNumber n).size =
      21 + (Rlp.encodeNumber n).size := by
    rw [ByteArray.size_append, Rlp.size_encodeAddress]
  have hshort := Rlp.size_encodeNumber_le hn
  simp only [createPreimage, Rlp.encodeList, hbody]
  rw [Rlp.header, if_pos (by omega), hsize, ← Nat.add_assoc]

theorem createPreimage_inj (hn : n < 2 ^ 64) (hm : m < 2 ^ 64)
    (h : createPreimage a n = createPreimage b m) : a = b ∧ n = m := by
  rw [createPreimage_eq hn, createPreimage_eq hm,
    ByteArray.append_eq_append_iff_of_size_eq_left (by rw [size_ofNumber, size_ofNumber])] at h
  -- the first item always has the same length, so the second ones are the same too
  obtain ⟨haddress, hnonce⟩ := (ByteArray.append_eq_append_iff_of_size_eq_left
    (by rw [Rlp.size_encodeAddress, Rlp.size_encodeAddress])).mp h.2
  exact ⟨Address.toBytes_inj (Rlp.encodeAddress_inj haddress), Rlp.encodeNumber_inj hn hnonce⟩

/-! ## With a salt -/

theorem create2Preimage_inj {s t : Word} {h k : Hash}
    (heq : create2Preimage a s h = create2Preimage b t k) : a = b ∧ s = t ∧ h = k := by
  have haddress : a.toBytes.size = b.toBytes.size := by
    rw [Address.toBytes, Address.toBytes, size_ofNumber, size_ofNumber]
  have hword : ∀ x y : Word, x.toBytes.size = y.toBytes.size := by
    intro x y
    rw [Word.toBytes, Word.toBytes, size_ofNumber, size_ofNumber]
  simp only [create2Preimage, ByteArray.append_assoc] at heq
  obtain ⟨hcreator, heq⟩ := (ByteArray.append_eq_append_iff_of_size_eq_left haddress).mp
    ((ByteArray.append_right_inj _).mp heq)
  obtain ⟨hsalt, hhash⟩ := (ByteArray.append_eq_append_iff_of_size_eq_left (hword s t)).mp heq
  exact ⟨Address.toBytes_inj hcreator, Word.toBytes_inj hsalt, Hash.toBytes_inj hhash⟩

/-! ## One with a nonce and one with a salt -/

/-- The header of the list is at most `0xde`, and the marker is `0xff`. -/
theorem createPreimage_ne_create2Preimage (hn : n < 2 ^ 64) (s : Word) (h : Hash) :
    createPreimage a n ≠ create2Preimage b s h := by
  intro heq
  have hshort := Rlp.size_encodeNumber_le hn
  have hlist : (byteAt (createPreimage a n) 0).toNat = 0xd5 + (Rlp.encodeNumber n).size := by
    rw [createPreimage_eq hn, Rlp.toNat_marker (by omega)]
  have hmarker : (byteAt (create2Preimage b s h) 0).toNat = 0xff := by
    rw [create2Preimage, ByteArray.append_assoc, ByteArray.append_assoc, byteAt_append,
      if_pos (by decide)]
    rfl
  rw [heq, hmarker] at hlist
  omega

/-- **No bytes are hashed for two contracts.** Preimages with a nonce are the
    same only for the same creator and nonce, preimages with a salt only for
    the same creator, salt and init code hash, and one with a nonce is never
    one with a salt. -/
theorem preimages_apart :
    (∀ (a b : Address) (n m : Nat), n < 2 ^ 64 → m < 2 ^ 64 →
      createPreimage a n = createPreimage b m → a = b ∧ n = m) ∧
    (∀ (a b : Address) (s t : Word) (h k : Hash),
      create2Preimage a s h = create2Preimage b t k → a = b ∧ s = t ∧ h = k) ∧
    (∀ (a b : Address) (n : Nat) (s : Word) (h : Hash), n < 2 ^ 64 →
      createPreimage a n ≠ create2Preimage b s h) := by
  refine ⟨?_, ?_, ?_⟩
  · intro a b n m hn hm h
    exact createPreimage_inj hn hm h
  · intro a b s t h k heq
    exact create2Preimage_inj heq
  · intro a b n s h hn
    exact createPreimage_ne_create2Preimage hn s h

/-- A nonce that stands for itself and the next one, which has a header; a salt
    and a hash that change places; the longest list and a salted preimage; and
    two ways to write one creator. -/
theorem preimages_apart_at_borders :
    createPreimage (.ofNat 1) 0x7f ≠ createPreimage (.ofNat 1) 0x80 ∧
    create2Preimage (.ofNat 1) 2 ⟨3⟩ ≠ create2Preimage (.ofNat 1) 3 ⟨2⟩ ∧
    createPreimage (.ofNat 1) (2 ^ 64 - 1) ≠ create2Preimage (.ofNat 1) 2 ⟨3⟩ ∧
    createPreimage (.ofNat 1) 0 = createPreimage (.ofNat (2 ^ 160 + 1)) 0 ∧
    Address.ofNat 1 = .ofNat (2 ^ 160 + 1) := by
  obtain ⟨hnonce, hsalt, hapart⟩ := preimages_apart
  have hsame : createPreimage (.ofNat 1) 0 = createPreimage (.ofNat (2 ^ 160 + 1)) 0 :=
    congrArg (createPreimage · 0) (by decide)
  refine ⟨?_, ?_, hapart _ _ _ _ _ (by decide), hsame,
    (hnonce _ _ _ _ (by decide) (by decide) hsame).1⟩
  · intro h
    exact absurd (hnonce _ _ _ _ (by decide) (by decide) h).2 (by decide)
  · intro h
    exact absurd (hsalt _ _ _ _ _ _ h).2.1 (by decide)

end Evm
