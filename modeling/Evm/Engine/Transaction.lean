import Evm.Engine.Frames
import Evm.RevertReason

/-!
# Transactions

    A transaction pays for its envelope, marks what it is known to access,
    and runs one call or creation. If that succeeds its changes are written
    to the store, otherwise they are undone; in both cases the gas is
    settled.
-/

namespace Evm

/-! ## Transactions and their results -/

/-- What a transaction does. -/
inductive TxKind where
  | call (callee : Address)
  /-- A call that may not write. -/
  | staticCall (callee : Address)
  /-- The code of an account, run on the sender's own state. -/
  | delegateCall (callee : Address)
  | create
  | create2 (salt : Word)
  deriving DecidableEq

/-- The account that a transaction calls, if it is a call. -/
def TxKind.target? : TxKind → Option Address
  | .call callee | .staticCall callee | .delegateCall callee => some callee
  | .create | .create2 _ => none

/-- Whether a transaction creates a contract. -/
def TxKind.isCreate (kind : TxKind) : Bool := kind.target?.isNone

/-- An account and slots of it that count as accessed from the start. -/
structure AccessListItem where
  address : Address
  keys : List Word
  deriving DecidableEq

/-- A transaction. -/
structure Transaction where
  caller : Address
  kind : TxKind
  value : Word
  /-- Call data, or init code. -/
  data : Bytes
  gasLimit : Nat
  accessList : List AccessListItem
  deriving DecidableEq

/-- The result of a transaction. -/
structure TransactionResult where
  success : Bool
  /-- Gas left, with the refund. -/
  gasLeft : Nat
  /-- Gas used, less the refund. -/
  gasUsed : Nat
  gasRefunded : Nat
  /-- Returned data, or the payload of a revert. -/
  output : Bytes
  /-- The reason of a revert. -/
  revertReason : Option String
  /-- The logs that were left; none after a failure. -/
  logs : List Log
  /-- How the first frame ended. -/
  exit : ExitReason
  /-- The new contract of a successful creation. -/
  createdAddress : Option Address
  deriving DecidableEq

/-- The result of a transaction that was turned down; its gas is gone. -/
def TransactionResult.rejected (error : EvmError) (gasLimit : Nat) : TransactionResult where
  success := false
  gasLeft := 0
  gasUsed := gasLimit
  gasRefunded := 0
  output := ByteArray.empty
  revertReason := none
  logs := []
  exit := .halt error
  createdAddress := none

namespace Engine

variable {β : Type}

/-! ## Before the first frame -/

/-- What a transaction pays for its envelope, if the engine charges it. -/
def intrinsicGas (config : Config) (tx : Transaction) : Nat :=
  if config.intrinsicGas then
    Gas.intrinsic config.hardfork tx.data tx.kind.isCreate tx.accessList.length
      (tx.accessList.foldl (fun count item => count + item.keys.length) 0)
  else 0

/-- Mark an item of the access list as accessed. -/
def warmItem (j : Journal β) (item : AccessListItem) : Journal β :=
  item.keys.foldl (fun j key => (j.warmSlot ⟨item.address, key⟩).2)
    (j.warmAddress item.address).2

/-- Mark what a transaction is known to access: sender, target, precompiled
    contracts, access list, and from Shanghai on the coinbase. -/
def warmTransaction (tx : Transaction) (engine : Engine β) : Engine β :=
  let warm (j : Journal β) (a : Address) : Journal β := (j.warmAddress a).2
  let j := tx.kind.target?.toList.foldl warm (warm engine.journal tx.caller)
  let j := engine.precompiles.keys.foldl warm j
  let j := tx.accessList.foldl warmItem j
  let journal :=
    if engine.config.hardfork.includes .shanghai then warm j engine.env.block.coinbase else j
  { engine with journal }

/-! ## The frames -/

variable [Backend β]

/-- The message of a transaction that calls. -/
def messageOfCall (tx : Transaction) (scheme : CallScheme) (callee : Address) (gasLimit : Nat) :
    CallMessage where
  scheme
  caller := tx.caller
  target := if scheme = .delegateCall then tx.caller else callee
  codeAddress := callee
  value :=
    match scheme with
    | .delegateCall => .apparent tx.value
    | .staticCall => .transfer 0
    | _ => .transfer tx.value
  input := tx.data
  gasLimit
  isStatic := scheme = .staticCall
  depth := 0

/-- The message of a transaction that creates. -/
def messageOfCreate (tx : Transaction) (scheme : CreateScheme) (gasLimit : Nat) :
    CreateMessage where
  caller := tx.caller
  scheme
  value := tx.value
  initCode := tx.data
  gasLimit
  depth := 0

/-- Run the call or creation of a transaction. -/
def runTransaction (tx : Transaction) (gasLimit : Nat) : StateM (Engine β) FrameResult :=
  match tx.kind with
  | .call callee => call (messageOfCall tx .call callee gasLimit)
  | .staticCall callee => call (messageOfCall tx .staticCall callee gasLimit)
  | .delegateCall callee => call (messageOfCall tx .delegateCall callee gasLimit)
  | .create => create (messageOfCreate tx .create gasLimit)
  | .create2 salt => create (messageOfCreate tx (.create2 salt) gasLimit)

/-! ## After the last frame -/

/-- Undo all changes and forget the transaction. -/
def discard : StateM (Engine β) Unit :=
  modify (modifyState fun j => j.discard.2)

/-- Settle gas and state. The refund counts only after a success, and is
    limited to a share of the gas used. -/
def finish (gasLimit : Nat) (frame : FrameResult) : StateM (Engine β) TransactionResult := do
  let success := frame.isSuccess
  let gas := (Gas.empty gasLimit).giveBack frame.gas.remaining
  let quotient := (← get).config.hardfork.refundQuotient
  let refund := if success then (gas.refund frame.gas.refunded).finalRefund quotient else 0
  let gasUsed := gas.spent - refund
  let result (logs : List Log) : TransactionResult :=
    { success
      gasLeft := gasLimit - gasUsed
      gasUsed
      gasRefunded := refund
      output := frame.output
      revertReason := if frame.exit.isRevert then RevertReason.decode frame.output else none
      logs
      exit := frame.exit
      createdAddress := frame.createdAddress }
  if success then
    match (← attempt Journal.settle) with
    | .ok logs => return result logs
    | .error e =>
      discard
      return .rejected (.ofStateError e) gasLimit
  else
    discard
    return result []

/-- **Run a transaction.** Where the envelope is charged, a call counts up
    the nonce of its sender; a creation does so anyway. -/
def transact (tx : Transaction) : StateM (Engine β) TransactionResult := do
  let config := (← get).config
  let intrinsic := intrinsicGas config tx
  if tx.gasLimit < intrinsic then
    return .rejected .outOfGas tx.gasLimit
  modify (warmTransaction tx)
  let countNonce : StateM (Engine β) (Except StateError Unit) :=
    if config.intrinsicGas ∧ !tx.kind.isCreate then
      attempt (do let _ ← Journal.incrementNonce tx.caller)
    else return .ok ()
  match (← countNonce) with
  | .error e =>
    discard
    return .rejected (.ofStateError e) tx.gasLimit
  | .ok _ =>
    let frame ← runTransaction tx (tx.gasLimit - intrinsic)
    finish tx.gasLimit frame

/-! ## Code from outside -/

/-- Give code to an account and write it to the store at once, together with
    whatever else is pending. -/
def installCode (a : Address) (code : Bytes) : StateM (Engine β) (Except EvmError Hash) := do
  let install : JournalM β Hash := do
    let hash ← Journal.setCode a code
    let _ ← Journal.settle
    return hash
  return (← attempt install).mapError .ofStateError

end Engine

/-! ## One call on a store -/

/-- **Run code as a call.** Code that is not empty is given to the target
    first and stays there even if the call fails. The rules are those of
    Cancun, and no envelope is charged. -/
def execute {β : Type} [Backend β] (code input : Bytes) (caller target : Address) (value : Word)
    (gasLimit : Nat) (block : BlockEnv) (store : β) : TransactionResult × β :=
  let env : Environment := ⟨block, { TxEnv.default with origin := caller }⟩
  let engine := Engine.new store env (.ofHardfork .cancun)
  let tx : Transaction := ⟨caller, .call target, value, input, gasLimit, []⟩
  let run : StateM (Engine β) TransactionResult := do
    if code.isEmpty then
      Engine.transact tx
    else
      match (← Engine.installCode target code) with
      | .error e => return .rejected e gasLimit
      | .ok _ => Engine.transact tx
  let (result, engine) := run engine
  (result, engine.journal.backend)

end Evm
