import Evm.Address
import Evm.Hash

/-!
# Environment

    What a frame can ask about the block, the transaction and its own call.
-/

namespace Evm

/-- The block in which code runs. -/
structure BlockEnv where
  number : Nat
  timestamp : Nat
  gasLimit : Nat
  coinbase : Address
  baseFee : Word
  chainId : Nat
  /-- The difficulty, on chains that still have one. -/
  difficulty : Word
  /-- The random value of the block, which takes the place of its
      difficulty. -/
  prevRandao : Option Hash
  blobBaseFee : Word
  deriving DecidableEq

/-- The block that is assumed where none is given. -/
def BlockEnv.default : BlockEnv where
  number := 1
  timestamp := 1000
  gasLimit := 30000000
  coinbase := .zero
  baseFee := 1000000000
  chainId := 1
  difficulty := 0
  prevRandao := some .zero
  blobBaseFee := 1

/-- The word that a frame is given as the random value. -/
def BlockEnv.prevRandaoWord (b : BlockEnv) : Word :=
  match b.prevRandao with
  | some hash => hash.toWord
  | none => b.difficulty

/-- The transaction in which code runs. -/
structure TxEnv where
  /-- Who sent the transaction. -/
  origin : Address
  gasPrice : Word
  blobHashes : List Hash
  deriving DecidableEq

/-- The transaction that is assumed where none is given. -/
def TxEnv.default : TxEnv := ⟨.zero, 0, []⟩

/-- Block and transaction. -/
structure Environment where
  block : BlockEnv
  tx : TxEnv
  deriving DecidableEq

/-- The environment that is assumed where none is given. -/
def Environment.default : Environment := ⟨.default, .default⟩

/-- The call that a frame answers. -/
structure FrameContext where
  /-- The account on whose storage and balance the frame acts. -/
  address : Address
  caller : Address
  value : Word
  input : Bytes
  /-- Whether the frame may not write. -/
  isStatic : Bool
  /-- The depth of the frame; the first one has depth zero. -/
  depth : Nat

end Evm
