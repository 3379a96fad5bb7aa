import Evm.Error
import Evm.Gas.Meter

/-!
# Outcomes of frames

    How a frame ended, and what the frame above it is told.
-/

namespace Evm

/-- How a frame ended. -/
inductive ExitReason where
  /-- It stopped, or its code came to an end. -/
  | stop
  /-- It returned. -/
  | ret
  /-- It destroyed its account. -/
  | selfDestruct
  /-- It reverted: its changes are undone, its output and unused gas kept. -/
  | revert
  /-- It halted: its changes are undone and all its gas is gone. -/
  | halt (error : EvmError)
  deriving DecidableEq

/-- Whether the changes of the frame are kept. -/
def ExitReason.isSuccess : ExitReason → Bool
  | .stop | .ret | .selfDestruct => true
  | .revert | .halt _ => false

/-- Whether the frame reverted on its own account. -/
def ExitReason.isRevert : ExitReason → Bool
  | .revert => true
  | _ => false

/-- The name of an exit, with the halt if it is one. -/
def ExitReason.describe : ExitReason → String
  | .stop => "Stop"
  | .ret => "Return"
  | .selfDestruct => "SelfDestruct"
  | .revert => "Revert"
  | .halt error => s!"Halt({error.describe})"

/-- The outcome of a call or creation, as the frame that asked for it sees
    it. -/
structure FrameResult where
  exit : ExitReason
  /-- The meter of the frame at its end. -/
  gas : Gas
  /-- Returned data; after a creation the deployed code. -/
  output : Bytes
  /-- The address of the new contract after a creation. -/
  createdAddress : Option Address

namespace FrameResult

/-- The outcome of a frame that ended by itself. -/
def ended (exit : ExitReason) (gas : Gas) (output : Bytes) : FrameResult :=
  ⟨exit, gas, output, none⟩

/-- The outcome of a frame that was not entered; its gas goes back. -/
def notEntered (error : EvmError) (gasLimit : Nat) : FrameResult :=
  ended (.halt error) (.full gasLimit) ByteArray.empty

/-- The outcome of a frame that halted; its gas is gone. -/
def halted (error : EvmError) (gasLimit : Nat) : FrameResult :=
  ended (.halt error) (.empty gasLimit) ByteArray.empty

/-- Whether the changes of the frame are kept. -/
def isSuccess (r : FrameResult) : Bool := r.exit.isSuccess

end FrameResult

end Evm
