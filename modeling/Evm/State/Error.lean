import Evm.Address
import Evm.Hash

/-!
# Failures of the state

    What can go wrong when state is read or written: the backing store
    refuses, or an account cannot take part in what is asked of it.
-/

namespace Evm

/-- Why a state operation failed. -/
inductive StateError where
  /-- The backing store refused. -/
  | backend (reason : String)
  /-- An account refers to code that the store does not have. -/
  | missingCode (hash : Hash)
  /-- A debit larger than the balance. -/
  | insufficientBalance (address : Address) (available required : Word)
  /-- A credit that 256 bits do not hold. -/
  | balanceOverflow (address : Address)
  /-- The nonce has its largest value already. -/
  | nonceOverflow (address : Address)
  deriving DecidableEq

/-- The wording of a failure. Amounts are in decimal. -/
def StateError.message : StateError → String
  | .backend reason => s!"backend error: {reason}"
  | .missingCode hash => s!"missing code for hash {hash.toHex}"
  | .insufficientBalance address available required =>
    s!"insufficient balance for {address.toHex}: have {available.toNat}, need {required.toNat}"
  | .balanceOverflow address => s!"balance overflow for {address.toHex}"
  | .nonceOverflow address => s!"nonce overflow for {address.toHex}"

end Evm
