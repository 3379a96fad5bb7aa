import Evm.State.Error

/-!
# Exceptional halts

    Why a frame stops without an answer. A halt is local to its frame: the
    frame that asked for it sees a failed call, never the halt itself.
-/

namespace Evm

/-- Why a frame, or a frame that was to be entered, halts. -/
inductive EvmError where
  | outOfGas
  | stackUnderflow
  | stackOverflow
  /-- A jump to a position that is no jump destination. -/
  | invalidJump (target : Nat)
  /-- A byte that is no instruction under the active rules. -/
  | invalidOpcode (byte : UInt8)
  /-- A write where only reads are allowed. -/
  | staticCallViolation
  /-- A copy from beyond the end of the return data. -/
  | returnDataOutOfBounds
  /-- The address of a new contract is taken. -/
  | createCollision
  | maxCodeSizeExceeded
  | maxInitCodeSizeExceeded
  /-- Deployed code that starts with the reserved byte. -/
  | invalidCodePrefix
  | callDepthExceeded
  | insufficientBalance
  | nonceOverflow
  /-- A precompiled contract rejected its input. -/
  | precompileFailure (reason : String)
  /-- The state could not be read or written. -/
  | state (cause : StateError)
  deriving DecidableEq

namespace EvmError

/-- A byte as two lower-case digits. -/
def byteHex (b : UInt8) : String := Text.Hex.pushByte "" b

/-- The wording of a halt. -/
def message : EvmError → String
  | .outOfGas => "out of gas"
  | .stackUnderflow => "stack underflow"
  | .stackOverflow => "stack overflow (max 1024)"
  | .invalidJump target => s!"invalid jump destination: {target}"
  | .invalidOpcode byte => s!"invalid opcode: 0x{byteHex byte}"
  | .staticCallViolation => "state modification in static context"
  | .returnDataOutOfBounds => "return data out of bounds"
  | .createCollision => "contract address collision"
  | .maxCodeSizeExceeded => "max code size exceeded"
  | .maxInitCodeSizeExceeded => "max initcode size exceeded"
  | .invalidCodePrefix => "deployed code starts with 0xef"
  | .callDepthExceeded => "call depth exceeded (max 1024)"
  | .insufficientBalance => "insufficient balance"
  | .nonceOverflow => "nonce overflow"
  | .precompileFailure reason => s!"precompile error: {reason}"
  | .state cause => s!"state error: {cause.message}"

/-- The name of a halt. -/
def name : EvmError → String
  | .outOfGas => "OutOfGas"
  | .stackUnderflow => "StackUnderflow"
  | .stackOverflow => "StackOverflow"
  | .invalidJump _ => "InvalidJump"
  | .invalidOpcode _ => "InvalidOpcode"
  | .staticCallViolation => "StaticCallViolation"
  | .returnDataOutOfBounds => "ReturnDataOutOfBounds"
  | .createCollision => "CreateCollision"
  | .maxCodeSizeExceeded => "MaxCodeSizeExceeded"
  | .maxInitCodeSizeExceeded => "MaxInitCodeSizeExceeded"
  | .invalidCodePrefix => "InvalidCodePrefix"
  | .callDepthExceeded => "CallDepthExceeded"
  | .insufficientBalance => "InsufficientBalance"
  | .nonceOverflow => "NonceOverflow"
  | .precompileFailure _ => "PrecompileFailure"
  | .state _ => "State"

/-- The name of a halt with its details, numbers in decimal and texts in
    quotes. -/
def describe (e : EvmError) : String :=
  match e with
  | .invalidJump target => s!"{e.name}({target})"
  | .invalidOpcode byte => s!"{e.name}({byte.toNat})"
  | .precompileFailure reason => s!"{e.name}(\"{reason}\")"
  | .state cause => s!"{e.name}(\"{cause.message}\")"
  | _ => e.name

/-- The halt that a failure of the state causes. A balance that is too low
    and a nonce that is too high are rules of the machine and have halts of
    their own; every other failure is handed on. -/
def ofStateError : StateError → EvmError
  | .insufficientBalance _ _ _ => .insufficientBalance
  | .nonceOverflow _ => .nonceOverflow
  | cause => .state cause

end EvmError

end Evm
