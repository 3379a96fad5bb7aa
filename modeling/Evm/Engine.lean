import Evm.Host
import Evm.JumpDests
import Evm.Precompile
import Evm.State.Settlement

/-!
# Engines

    An engine is what runs transactions: journaled state over a store, the
    environment, a rule set with limits, precompiled contracts, and the jump
    analyses made so far. It is the host of the frames that it runs.
-/

namespace Evm

/-- An engine over a store. -/
structure Engine (β : Type) where
  journal : Journal β
  env : Environment
  config : Config
  precompiles : Precompiles
  codeCache : CodeCache

namespace Engine

variable {β : Type}

/-- A new engine with the standard precompiled contracts. -/
def new (store : β) (env : Environment) (config : Config) : Engine β where
  journal := .ofBackend store
  env
  config
  precompiles := .standard
  codeCache := .empty

/-! ## Use of the state -/

/-- Change the state. -/
def modifyState (f : Journal β → Journal β) (engine : Engine β) : Engine β :=
  { engine with journal := f engine.journal }

/-- Do something with the state; a failure is told and what was done before
    it stays done. -/
def attempt {α : Type} (op : JournalM β α) : StateM (Engine β) (Except StateError α) :=
  fun engine =>
    match op engine.journal with
    | .ok a journal => (.ok a, { engine with journal })
    | .error e journal => (.error e, { engine with journal })

/-- Do something with the state on behalf of a frame. -/
def onState {α : Type} (op : JournalM β α) : HostM (Engine β) α := fun engine =>
  match op engine.journal with
  | .ok a journal => .ok a { engine with journal }
  | .error e journal => .error (.ofStateError e) { engine with journal }

/-! ## As a host -/

/-- Record an access to an address; true if it is the first one. -/
def touch (a : Address) : HostM (Engine β) Bool :=
  modifyGet fun engine =>
    let (isCold, journal) := engine.journal.warmAddress a
    (isCold, { engine with journal })

/-- Record an access to a slot; true if it is the first one. -/
def touchSlot (s : Slot) : HostM (Engine β) Bool :=
  modifyGet fun engine =>
    let (isCold, journal) := engine.journal.warmSlot s
    (isCold, { engine with journal })

variable [Backend β]

/-- The hash of one of the last 256 blocks; zero for other numbers, which the
    store is not asked about. -/
def recentBlockHash (number : Word) : HostM (Engine β) Hash := do
  let current := (← get).env.block.number
  if current ≤ number.toNat ∨ 256 < current - number.toNat then
    return .zero
  onState (Journal.blockHash number.toNat)

/-- Move a balance to the beneficiary of a destruction. -/
def sweep (address target : Address) (balance : Word) : HostM (Engine β) Unit :=
  if target ≠ address then onState (Journal.transfer address target balance) else return

/-- Have an account deleted if the rules want it: from Cancun on only an
    account created in the same transaction is. -/
def scheduleDeletion (address : Address) : HostM (Engine β) Unit := do
  let engine ← get
  if !engine.config.hardfork.includes .cancun || engine.journal.isCreated address then
    onState (Journal.setBalance address 0)
    modify (modifyState (·.markDestroyed address))

/-- Move the balance of an account to a beneficiary, and delete the account
    if the rules want it. -/
def destroy (address target : Address) : HostM (Engine β) DestructOutcome := do
  let isCold ← touch target
  let balance ← onState (Journal.balance address)
  let targetExists := !(← onState (Journal.isEmpty target))
  let previouslyDestroyed := (← get).journal.isDestroyed address
  sweep address target balance
  scheduleDeletion address
  return { hadValue := balance != 0, targetExists, isCold, previouslyDestroyed }

instance : Host (Engine β) where
  env engine := engine.env
  config engine := engine.config
  loadAccount a := do
    let isCold ← touch a
    return { isCold, isEmpty := ← onState (Journal.isEmpty a) }
  balance a := do
    let isCold ← touch a
    return { value := ← onState (Journal.balance a), isCold }
  code a := do
    let isCold ← touch a
    return { value := (← onState (Journal.code a)).1, isCold }
  codeHash a := do
    let isCold ← touch a
    if (← onState (Journal.isEmpty a)) then
      return { value := .zero, isCold }
    return { value := (← onState (Journal.code a)).2, isCold }
  blockHash := recentBlockHash
  sload s := do
    let isCold ← touchSlot s
    return { value := ← onState (Journal.storage s), isCold }
  sstore s value := do
    let isCold ← touchSlot s
    let slot ← onState (Journal.slot s)
    let _ ← onState (Journal.setStorage s value)
    return { initial := slot.initial, present := slot.present, new := value, isCold }
  tload s := do
    return (← get).journal.tload s
  tstore s value := modify (modifyState (·.tstore s value))
  log entry := modify (modifyState (·.addLog entry))
  selfDestruct := destroy

end Engine

end Evm
