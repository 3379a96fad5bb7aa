import Evm.Frame.Instruction
import Evm.InstructionSet

/-!
# Running a frame

    A frame runs instruction by instruction until it ends or asks for a call
    or creation. Before an instruction is carried out its byte is looked up
    in the table of the rule set, the stack is checked for its operands and
    results, and its static cost is paid; a frame that fails one of these
    stays where it is.

    Every instruction that lets the frame go on costs at least one unit of
    gas, so a frame cannot take more steps than it has gas, plus the one that
    ends it. The bound of `runFor` is that number.
-/

namespace Evm

/-- How a frame ended by itself. -/
structure Ending where
  exit : ExitReason
  output : Bytes
  gas : Gas

/-- Why a frame stopped running. -/
inductive Action where
  /-- It waits for the outcome of a call. -/
  | call (message : CallMessage)
  /-- It waits for the outcome of a creation. -/
  | create (message : CreateMessage)
  /-- It ended. -/
  | finished (ending : Ending)

namespace Exec

variable {η : Type} [Host η]

/-! ## One step -/

/-- One step of a frame. The end of the code is a stop. -/
def step : StepM η Step := do
  let frame ← frameGet id
  if h : frame.pc < frame.code.size then
    let b := frame.code[frame.pc]
    match frame.hardfork.instruction? b with
    | none => throw (.invalidOpcode b)
    | some instruction =>
      let height := frame.stack.length
      failWhen (height < instruction.inputs) .stackUnderflow
      failWhen (Stack.limit < height - instruction.inputs + instruction.outputs) .stackOverflow
      charge instruction.staticGas
      modifyFrame fun frame => { frame with pc := frame.pc + 1 }
      execute instruction.opcode frame.pc
  else return .exit .stop ByteArray.empty

/-! ## Many steps -/

/-- A halt forfeits the gas of the frame. -/
def halt (e : EvmError) (x : Exec η) : Action × Exec η :=
  let gas := x.frame.gas.forfeit
  (.finished ⟨.halt e, ByteArray.empty, gas⟩, { x with frame := { x.frame with gas } })

/-- Run for at most `bound` steps. -/
def runFor : (bound : Nat) → Exec η → Action × Exec η
  | 0, x => halt .outOfGas x
  | bound + 1, x =>
    match step x with
    | .ok .next x => runFor bound x
    | .ok (.call message) x => (.call message, x)
    | .ok (.create message) x => (.create message, x)
    | .ok (.exit exit output) x => (.finished ⟨exit, output, x.frame.gas⟩, x)
    | .error e x => halt e x

/-- Run until the frame ends or waits. -/
def run (x : Exec η) : Action × Exec η := runFor (x.frame.gas.remaining + 1) x

/-! ## Taking an outcome -/

/-- Take back the gas that was not used and wait no longer. -/
def takeBack (result : FrameResult) : StepM η Unit :=
  modifyFrame fun frame =>
    { frame with waiting := none, gas := frame.gas.giveBack result.gas.remaining }

/-- Take the outcome of a call whose output goes to a range of memory. -/
def deliverCall (outOffset outLen : Nat) (result : FrameResult) : StepM η Unit := do
  refund (if result.isSuccess then result.gas.refunded else 0)
  let copied := min outLen result.output.size
  modifyMemory (·.store outOffset (result.output.extract 0 copied))
  modifyFrame fun frame => { frame with returnData := result.output }
  push (Word.ofBool result.isSuccess)

/-- Take the outcome of a creation. -/
def deliverCreate (result : FrameResult) : StepM η Unit := do
  match result.createdAddress, result.isSuccess with
  | some address, true =>
    refund result.gas.refunded
    modifyFrame fun frame => { frame with returnData := ByteArray.empty }
    push address.toWord
  | _, _ =>
    let returnData := if result.exit.isRevert then result.output else ByteArray.empty
    modifyFrame fun frame => { frame with returnData }
    push 0

/-- Tell a waiting frame the outcome of what it asked for. Gas that was not
    used comes back, and one word goes on the stack: for a call whether it
    succeeded, for a creation the new address or zero. A frame that does not
    wait is not changed. -/
def deliver (result : FrameResult) : StepM η Unit := do
  match (← frameGet (·.waiting)) with
  | none => return
  | some pending =>
    takeBack result
    match pending with
    | .call outOffset outLen => deliverCall outOffset outLen result
    | .create => deliverCreate result

/-- Tell a frame an outcome and run it on. -/
def resume (result : FrameResult) (x : Exec η) : Action × Exec η :=
  match deliver result x with
  | .ok _ x => run x
  | .error e x => halt e x

end Exec

end Evm
