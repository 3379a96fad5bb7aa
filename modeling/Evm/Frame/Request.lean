import Evm.Frame.Basic
import Evm.Message

/-!
# Requests to the outside

    The instructions with which a frame reaches beyond its own account:
    leaving a log, calling, creating, destroying itself. A call or creation
    is not carried out here. The frame works out what it asks for, pays, and
    waits.
-/

namespace Evm

/-- What an instruction leads to. -/
inductive Step where
  /-- The next instruction. -/
  | next
  /-- The end of the frame. -/
  | exit (reason : ExitReason) (output : Bytes)
  /-- A call whose outcome the frame waits for. -/
  | call (message : CallMessage)
  /-- A creation whose outcome the frame waits for. -/
  | create (message : CreateMessage)

namespace Exec

variable {η : Type} [Host η]

/-- Leave a log with a number of topics. -/
def log (topicCount : Nat) : StepM η Step := do
  requireWritable
  let offset ← pop
  let len ← pop
  let topics ← popList topicCount
  let (offset, len) ← resizeMemory offset len
  charge (Gas.logData len)
  let data ← readMemory offset len
  let address ← frameGet (·.context.address)
  onHost (Host.log ⟨address, topics.map Hash.ofWord, data⟩)
  return .next

/-- Who calls whom with what, for a call of some kind to an address. -/
def callMessage (context : FrameContext) (scheme : CallScheme) (callee : Address) (value : Word)
    (input : Bytes) (gasLimit : Nat) : CallMessage :=
  let depth := context.depth + 1
  match scheme with
  | .call =>
    { scheme, caller := context.address, target := callee, codeAddress := callee,
      value := .transfer value, input, gasLimit, isStatic := context.isStatic, depth }
  | .callCode =>
    { scheme, caller := context.address, target := context.address, codeAddress := callee,
      value := .transfer value, input, gasLimit, isStatic := context.isStatic, depth }
  | .delegateCall =>
    { scheme, caller := context.caller, target := context.address, codeAddress := callee,
      value := .apparent context.value, input, gasLimit, isStatic := context.isStatic, depth }
  | .staticCall =>
    { scheme, caller := context.address, target := callee, codeAddress := callee,
      value := .transfer 0, input, gasLimit, isStatic := true, depth }

/-- Whether a call of some kind takes a value from the stack. -/
def takesValue : CallScheme → Bool
  | .call | .callCode => true
  | .delegateCall | .staticCall => false

/-- The value of a call, if it takes one. -/
def popValue (scheme : CallScheme) : StepM η Word :=
  if takesValue scheme then pop else return 0

/-- Fail in a frame that may not write if the call would move value. -/
def requireMovable (scheme : CallScheme) (value : Word) : StepM η Unit :=
  if scheme = .call ∧ value ≠ 0 then requireWritable else return

/-- Pay for a call: for the access, for value, and for bringing the target
    into being. -/
def chargeCall (scheme : CallScheme) (value : Word) (account : AccountLoad) : StepM η Unit := do
  chargeCold account.isCold
  chargeWhen (value ≠ 0) Gas.callValue
  chargeWhen (value ≠ 0 ∧ scheme = .call ∧ account.isEmpty) Gas.newAccount

/-- Ask for a call. The child gets what is requested, but no more than all
    but one 64th of the gas that is left after everything else is paid; with
    a value it gets the stipend on top. -/
def call (scheme : CallScheme) : StepM η Step := do
  let requested ← pop
  let callee := Address.ofWord (← pop)
  let value ← popValue scheme
  let inOffset ← pop
  let inLen ← pop
  let outOffset ← pop
  let outLen ← pop
  requireMovable scheme value
  let (inOffset, inLen) ← resizeMemory inOffset inLen
  let (outOffset, outLen) ← resizeMemory outOffset outLen
  let account ← onHost (Host.loadAccount callee)
  chargeCall scheme value account
  let forwarded ← setAside requested.toNatCapped
  let gasLimit := if value ≠ 0 then forwarded + Gas.callStipend else forwarded
  let input ← readMemory inOffset inLen
  let context ← frameGet (·.context)
  modifyFrame fun frame => { frame with waiting := some (.call outOffset outLen) }
  return .call (callMessage context scheme callee value input gasLimit)

/-- How the address of a new contract is derived; a salt is taken from the
    stack. -/
def popScheme (salted : Bool) : StepM η CreateScheme :=
  if salted then (do return .create2 (← pop)) else return .create

/-- Ask for a creation; with `salted` the address depends on a salt and the
    init code. The child gets all but one 64th of the gas that is left. -/
def create (salted : Bool) : StepM η Step := do
  requireWritable
  let value ← pop
  let offset ← pop
  let len ← pop
  let scheme ← popScheme salted
  let (offset, len) ← resizeMemory offset len
  let hardfork ← frameGet (·.hardfork)
  let config ← hostGet Host.config
  failWhen (hardfork.includes .shanghai ∧ config.maxInitCodeSize < len) .maxInitCodeSizeExceeded
  charge (Gas.create hardfork len salted)
  let initCode ← readMemory offset len
  let available ← frameGet (·.gas.remaining)
  let gasLimit ← setAside available
  let context ← frameGet (·.context)
  modifyFrame fun frame => { frame with waiting := some .create }
  return .create
    { caller := context.address, scheme, value, initCode, gasLimit, depth := context.depth + 1 }

/-- Destroy the account in favour of another. -/
def selfDestruct : StepM η Step := do
  requireWritable
  let target := Address.ofWord (← pop)
  let address ← frameGet (·.context.address)
  let outcome ← onHost (Host.selfDestruct address target)
  chargeWhen outcome.isCold Gas.coldAccountAccess
  chargeWhen (outcome.hadValue && !outcome.targetExists) Gas.newAccount
  let hardfork ← frameGet (·.hardfork)
  refund (if !hardfork.includes .london && !outcome.previouslyDestroyed then Gas.selfDestructRefund
    else 0)
  return .exit .selfDestruct ByteArray.empty

end Exec

end Evm
