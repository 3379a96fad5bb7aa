import Evm.Environment
import Evm.Error
import Evm.Hardfork
import Evm.State.Account

/-!
# Hosts

    Everything that a running frame needs from outside itself. A frame has a
    stack, a memory and a meter of its own; accounts, storage, logs and the
    environment belong to its host.

    An access to an account or slot through the host marks it as accessed
    and says whether it was the first access, which the frame has to pay for.
    What the host did before a failure stays done.
-/

namespace Evm

/-- A value and whether it was accessed for the first time. -/
structure Loaded (α : Type) where
  value : α
  isCold : Bool

/-- What a call has to know of its target to be priced. -/
structure AccountLoad where
  isCold : Bool
  /-- Whether the account is missing or empty. -/
  isEmpty : Bool

/-- The values of a slot around a write. -/
structure StoreOutcome where
  /-- At the start of the transaction. -/
  initial : Word
  /-- Before the write. -/
  present : Word
  /-- After the write. -/
  new : Word
  isCold : Bool

/-- What has to be known of a destruction for it to be priced. -/
structure DestructOutcome where
  /-- Whether the account had a balance. -/
  hadValue : Bool
  /-- Whether the beneficiary was there before. -/
  targetExists : Bool
  /-- Whether the beneficiary was accessed for the first time. -/
  isCold : Bool
  /-- Whether the account was to be deleted already. -/
  previouslyDestroyed : Bool

/-- Operations of a host. -/
abbrev HostM (η : Type) := EStateM EvmError η

/-- What a frame needs from outside itself. -/
class Host (η : Type) where
  env : η → Environment
  config : η → Config
  /-- Touch an account to price a call. -/
  loadAccount : Address → HostM η AccountLoad
  balance : Address → HostM η (Loaded Word)
  code : Address → HostM η (Loaded Bytes)
  /-- The hash of the code of an account, zero for a missing or empty one. -/
  codeHash : Address → HostM η (Loaded Hash)
  /-- The hash of one of the last 256 blocks, zero for any other number. -/
  blockHash : Word → HostM η Hash
  sload : Slot → HostM η (Loaded Word)
  /-- Write a slot and tell what is needed to price the write. -/
  sstore : Slot → Word → HostM η StoreOutcome
  tload : Slot → HostM η Word
  tstore : Slot → Word → HostM η Unit
  log : Log → HostM η Unit
  /-- Move the balance of an account to a beneficiary and have the account
      deleted, if the rules want it. -/
  selfDestruct : (address target : Address) → HostM η DestructOutcome

end Evm
