import Evm.Address
import Evm.Hash

/-!
# Accounts

    What the state says of an address: a nonce, a balance and the hash of
    its code. Storage is kept apart, by address and key. The module also has
    the two other records that the state is made of, slots and logs.
-/

namespace Evm

/-- The hash of no code. -/
def emptyCodeHash : Hash :=
  ⟨0xc5d2460186f7233c927e7db2dcc703c0e500b653ca82273b7bfad8045d85a470⟩

/-! ## Accounts -/

/-- An account. -/
structure Account where
  nonce : Nat
  balance : Word
  /-- The hash of the account's code, `emptyCodeHash` if it has none. -/
  codeHash : Hash
  deriving DecidableEq

namespace Account

/-- The account that an address without one reads as. -/
def empty : Account := ⟨0, 0, emptyCodeHash⟩

instance : Inhabited Account := ⟨empty⟩

/-- An account that holds only a balance. -/
def withBalance (balance : Word) : Account := { empty with balance }

/-- Whether the account has code. The zero hash stands for no code, too. -/
def hasCode (a : Account) : Bool := a.codeHash != emptyCodeHash && !a.codeHash.isZero

/-- Whether the account is as good as none: no nonce, no balance, no code. -/
def isEmpty (a : Account) : Bool := a.nonce == 0 && a.balance == 0 && !a.hasCode

/-- The largest nonce. -/
def maxNonce : Nat := 0xffffffffffffffff

end Account

/-! ## Slots -/

/-- A storage slot: an account and a key. -/
structure Slot where
  address : Address
  key : Word
  deriving DecidableEq, Inhabited

namespace Slot

/-- Slots are ordered by address and then by key. -/
instance : Ord Slot := ⟨compareLex (compareOn Slot.address) (compareOn Slot.key)⟩

instance : Std.TransOrd Slot :=
  inferInstanceAs (Std.TransCmp (compareLex (compareOn Slot.address) (compareOn Slot.key)))

instance : Std.LawfulEqOrd Slot where
  eq_of_compare {a b} h := by
    have h : (compare a.address b.address).then (compare a.key b.key) = .eq := h
    obtain ⟨ha, hk⟩ := Ordering.then_eq_eq.mp h
    cases a; cases b
    simp_all

end Slot

/-! ## Logs -/

/-- A record that a contract leaves behind. -/
structure Log where
  /-- The account that left it. -/
  address : Address
  /-- Up to four words to search by. -/
  topics : List Hash
  data : Bytes
  deriving DecidableEq

end Evm
