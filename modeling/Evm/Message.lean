import Evm.Address

/-!
# Messages

    What one frame sends to start another: a call to an account, or the
    creation of one.
-/

namespace Evm

/-! ## Calls -/

/-- The four kinds of message call. -/
inductive CallScheme where
  /-- The target's code on the target's state. -/
  | call
  /-- Another account's code on the caller's state. -/
  | callCode
  /-- Another account's code on the caller's state, with the caller's own
      caller and value. -/
  | delegateCall
  /-- A call that may not write. -/
  | staticCall
  deriving DecidableEq, Inhabited

/-- The value attached to a call. -/
inductive CallValue where
  /-- Moved from caller to target before the frame runs. -/
  | transfer (amount : Word)
  /-- Shown to the frame and not moved. -/
  | apparent (amount : Word)
  deriving DecidableEq, Inhabited

/-- The value that the frame sees. -/
def CallValue.shown : CallValue → Word
  | .transfer amount => amount
  | .apparent amount => amount

/-- The value that is moved. -/
def CallValue.moved : CallValue → Word
  | .transfer amount => amount
  | .apparent _ => 0

/-- A request for a call frame. -/
structure CallMessage where
  scheme : CallScheme
  /-- Who the frame sees as its caller. -/
  caller : Address
  /-- The account on whose state the frame acts. -/
  target : Address
  /-- The account whose code runs. -/
  codeAddress : Address
  value : CallValue
  input : Bytes
  /-- Gas for the frame, the stipend included. -/
  gasLimit : Nat
  isStatic : Bool
  /-- The depth of the new frame. -/
  depth : Nat

/-! ## Creations -/

/-- How the address of a new contract is derived. -/
inductive CreateScheme where
  /-- From the creator and its nonce. -/
  | create
  /-- From the creator, a salt and the init code. -/
  | create2 (salt : Word)
  deriving DecidableEq, Inhabited

/-- A request for a create frame. -/
structure CreateMessage where
  caller : Address
  scheme : CreateScheme
  /-- The endowment of the new contract. -/
  value : Word
  initCode : Bytes
  gasLimit : Nat
  /-- The depth of the new frame. -/
  depth : Nat

end Evm
