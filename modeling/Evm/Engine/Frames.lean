import Evm.ContractAddress
import Evm.Engine
import Evm.Frame.Run

/-!
# Driving frames

    A call or creation is a tree of frames. The engine opens a frame, runs
    it, opens a frame for what it asks for, and so on; a frame that ends is
    closed and its outcome told to the frame that waits for it. Waiting
    frames are on a list, the innermost first.

    Every frame has a checkpoint of its own. Closing the frame keeps its
    changes if it succeeded and reverts to the checkpoint otherwise.
-/

namespace Evm

/-- What has to be done when a frame ends. -/
inductive FrameKind where
  | call (checkpoint : Checkpoint)
  | create (checkpoint : Checkpoint) (address : Address)

/-- A frame that runs or waits. -/
structure Activation where
  frame : Frame
  kind : FrameKind

/-- What became of a request for a frame. -/
inductive FrameStart where
  /-- It is settled without running code. -/
  | done (result : FrameResult)
  /-- There is code to run. -/
  | run (activation : Activation)

namespace Engine

variable {β : Type} [Backend β]

/-! ## Calls -/

/-- Close a call: keep the changes of a success, revert to the checkpoint
    otherwise. -/
def endCall (checkpoint : Checkpoint) (result : FrameResult) : StateM (Engine β) FrameResult := do
  unless result.isSuccess do
    modify (modifyState (·.revert checkpoint))
  return result

/-- Run a precompiled contract. -/
def runPrecompile (precompile : Precompile) (input : Bytes) (gasLimit : Nat) : FrameResult :=
  let cost := precompile.gasCost input
  if gasLimit < cost then .halted .outOfGas gasLimit
  else
    match precompile.execute input with
    | .ok output => .ended .ret (.full (gasLimit - cost)) output
    | .error e => .halted (.precompileFailure e.message) gasLimit

/-- The frame of a call to some code. -/
def callFrame (message : CallMessage) (code : Bytes) (jumpDests : JumpDests)
    (hardfork : Hardfork) : Frame :=
  let context : FrameContext :=
    { address := message.target, caller := message.caller, value := message.value.shown,
      input := message.input, isStatic := message.isStatic, depth := message.depth }
  .start code jumpDests context message.gasLimit hardfork

/-- **Open a call.** The value is moved under the checkpoint of the call, so
    that it goes back if the call fails. Precompiled contracts and accounts
    without code need no frame. -/
def startCall (message : CallMessage) : StateM (Engine β) FrameStart := do
  let gasLimit := message.gasLimit
  if (← get).config.maxCallDepth < message.depth then
    return .done (.notEntered .callDepthExceeded gasLimit)
  let checkpoint := (← get).journal.checkpoint
  match (← attempt (Journal.transfer message.caller message.target message.value.moved)) with
  | .error e =>
    modify (modifyState (·.revert checkpoint))
    return .done (.notEntered (.ofStateError e) gasLimit)
  | .ok _ =>
    match (← get).precompiles[message.codeAddress]? with
    | some precompile =>
      return .done (← endCall checkpoint (runPrecompile precompile message.input gasLimit))
    | none =>
      match (← attempt (Journal.code message.codeAddress)) with
      | .error e => return .done (← endCall checkpoint (.halted (.ofStateError e) gasLimit))
      | .ok (code, codeHash) =>
        if code.isEmpty then
          return .done (← endCall checkpoint (.ended .stop (.full gasLimit) ByteArray.empty))
        let jumpDests ← modifyGet fun engine =>
          let (jumpDests, codeCache) := engine.codeCache.getOrAnalyze codeHash code
          (jumpDests, { engine with codeCache })
        let hardfork := (← get).config.hardfork
        return .run ⟨callFrame message code jumpDests hardfork, .call checkpoint⟩

/-! ## Creations -/

/-- The address that a creation is for, from the nonce of the creator before
    it is counted up. -/
def newAddress (message : CreateMessage) (nonce : Nat) : Address :=
  match message.scheme with
  | .create => createAddress message.caller nonce
  | .create2 salt => create2Address message.caller salt (keccak256 message.initCode)

/-- Whether an account may not be created anew. -/
def isTaken (account : Account) : Bool := account.nonce != 0 || account.hasCode

/-- The frame of a creation. -/
def createFrame (message : CreateMessage) (address : Address) (hardfork : Hardfork) : Frame :=
  let context : FrameContext :=
    { address, caller := message.caller, value := message.value, input := ByteArray.empty,
      isStatic := false, depth := message.depth }
  .start message.initCode (.analyze message.initCode) context message.gasLimit hardfork

/-- Give a new account its first nonce and its endowment. -/
def endow (message : CreateMessage) (address : Address) : JournalM β Unit := do
  Journal.setNonce address 1
  Journal.transfer message.caller address message.value

/-- Open the frame of a creation at an address that is free. -/
def openCreate (message : CreateMessage) (address : Address) : StateM (Engine β) FrameStart := do
  let checkpoint := (← get).journal.checkpoint
  modify (modifyState (·.markCreated address))
  match (← attempt (endow message address)) with
  | .error e =>
    modify (modifyState (·.revert checkpoint))
    return .done (.halted (.ofStateError e) message.gasLimit)
  | .ok _ =>
    let hardfork := (← get).config.hardfork
    return .run ⟨createFrame message address hardfork, .create checkpoint address⟩

/-- Derive the address of a creation and see whether it is free. The nonce of
    the creator and the access to the address are counted before the
    checkpoint: they stay when the creation fails. -/
def claimAddress (message : CreateMessage) (nonce : Nat) : StateM (Engine β) FrameStart := do
  let gasLimit := message.gasLimit
  let address := newAddress message nonce
  match (← attempt (Journal.incrementNonce message.caller)) with
  | .error e => return .done (.halted (.ofStateError e) gasLimit)
  | .ok _ =>
    modify (modifyState fun j => (j.warmAddress address).2)
    match (← attempt (Journal.account address)) with
    | .error e => return .done (.halted (.ofStateError e) gasLimit)
    | .ok existing =>
      if isTaken existing then return .done (.halted .createCollision gasLimit)
      else openCreate message address

/-- **Open a creation.** A creator that is too deep, too poor or at its last
    nonce gets its gas back; init code that is too long costs it. -/
def startCreate (message : CreateMessage) : StateM (Engine β) FrameStart := do
  let gasLimit := message.gasLimit
  let config := (← get).config
  if config.maxCallDepth < message.depth then
    return .done (.notEntered .callDepthExceeded gasLimit)
  if config.hardfork.includes .shanghai ∧ config.maxInitCodeSize < message.initCode.size then
    return .done (.halted .maxInitCodeSizeExceeded gasLimit)
  match (← attempt (Journal.account message.caller)) with
  | .error e => return .done (.halted (.ofStateError e) gasLimit)
  | .ok creator =>
    if creator.balance.toNat < message.value.toNat then
      return .done (.notEntered .insufficientBalance gasLimit)
    if creator.nonce = Account.maxNonce then
      return .done (.notEntered .nonceOverflow gasLimit)
    claimAddress message creator.nonce

/-- Check the code that a creation returned, pay for it and give it to the
    new account; the meter comes back. -/
def deploy (address : Address) (code : Bytes) (gas : Gas) :
    StateM (Engine β) (Except EvmError Gas) := do
  let config := (← get).config
  if config.hardfork.includes .london ∧ code.size ≠ 0 ∧ Bytes.byteAt code 0 = 0xef then
    return .error .invalidCodePrefix
  if config.maxCodeSize < code.size then
    return .error .maxCodeSizeExceeded
  match gas.charge? (Gas.codeDeposit code.size) with
  | none => return .error .outOfGas
  | some gas =>
    match (← attempt (Journal.setCode address code)) with
    | .error e => return .error (.ofStateError e)
    | .ok _ => return .ok gas

/-- Close a creation. The code is deployed under its checkpoint; if it cannot
    be, the creation fails and its gas is gone. -/
def endCreate (checkpoint : Checkpoint) (address : Address) (ending : Ending) :
    StateM (Engine β) FrameResult := do
  if !ending.exit.isSuccess then
    modify (modifyState (·.revert checkpoint))
    return .ended ending.exit ending.gas ending.output
  match (← deploy address ending.output ending.gas) with
  | .ok gas => return ⟨ending.exit, gas, ending.output, some address⟩
  | .error e =>
    modify (modifyState (·.revert checkpoint))
    return .halted e ending.gas.limit

/-- Close a frame. -/
def endFrame (kind : FrameKind) (ending : Ending) : StateM (Engine β) FrameResult :=
  match kind with
  | .call checkpoint => endCall checkpoint (.ended ending.exit ending.gas ending.output)
  | .create checkpoint address => endCreate checkpoint address ending

end Engine

/-! ## The driver -/

/-- A tree of frames under way. -/
structure Machine (β : Type) where
  engine : Engine β
  /-- The frame whose turn it is. -/
  current : Activation
  /-- The frames that wait, innermost first. -/
  parents : List Activation
  /-- The outcome that the current frame has been waiting for, if any. -/
  answer : Option FrameResult

/-- What a turn of the driver leads to. -/
inductive Progress (β : Type) where
  | running (machine : Machine β)
  | finished (result : FrameResult) (engine : Engine β)

namespace Machine

variable {β : Type} [Backend β]

/-- Go on after a request: the current frame gets the answer at once, or it
    waits behind the new frame. -/
def afterStart (start : FrameStart) (engine : Engine β) (current : Activation)
    (parents : List Activation) : Machine β :=
  match start with
  | .done result => ⟨engine, current, parents, some result⟩
  | .run child => ⟨engine, child, current :: parents, none⟩

/-- Run the current frame until it waits or ends. -/
def runCurrent (m : Machine β) : Action × Exec (Engine β) :=
  let exec : Exec (Engine β) := ⟨m.current.frame, m.engine⟩
  match m.answer with
  | some result => exec.resume result
  | none => exec.run

/-- One turn: run the current frame and do what it leads to. -/
def advance (m : Machine β) : Progress β :=
  let kind := m.current.kind
  let parents := m.parents
  match m.runCurrent with
  | (.call message, ⟨frame, engine⟩) =>
    let (start, engine) := Engine.startCall message engine
    .running (afterStart start engine ⟨frame, kind⟩ parents)
  | (.create message, ⟨frame, engine⟩) =>
    let (start, engine) := Engine.startCreate message engine
    .running (afterStart start engine ⟨frame, kind⟩ parents)
  | (.finished ending, ⟨_, engine⟩) =>
    let (result, engine) := Engine.endFrame kind ending engine
    match parents with
    | [] => .finished result engine
    | parent :: parents => .running ⟨engine, parent, parents, some result⟩

/-- Take at most `bound` turns. -/
def driveFor : (bound : Nat) → Machine β → FrameResult × Engine β
  | 0, m => (.halted .outOfGas m.current.frame.gas.limit, m.engine)
  | bound + 1, m =>
    match m.advance with
    | .running m => driveFor bound m
    | .finished result engine => (result, engine)

/-- **Drive a tree of frames to its end.** Every request costs gas, and every
    frame but the first was requested, so twice the gas of the first frame
    bounds the number of turns. -/
def drive (m : Machine β) : FrameResult × Engine β :=
  driveFor (2 * m.current.frame.gas.remaining + 2) m

end Machine

namespace Engine

variable {β : Type} [Backend β]

/-- Carry out what a request led to. -/
def complete (start : FrameStart) : StateM (Engine β) FrameResult := fun engine =>
  match start with
  | .done result => (result, engine)
  | .run activation => Machine.drive ⟨engine, activation, [], none⟩

/-- **A call** with every frame that it leads to. Its changes stay pending in
    the journal. -/
def call (message : CallMessage) : StateM (Engine β) FrameResult := do
  complete (← startCall message)

/-- **A creation** with every frame that it leads to. Its changes stay
    pending in the journal. -/
def create (message : CreateMessage) : StateM (Engine β) FrameResult := do
  complete (← startCreate message)

end Engine

end Evm
