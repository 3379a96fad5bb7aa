import Evm.Crypto.Recovery
import Evm.Crypto.Sha256
import Evm.Gas.Schedule

/-!
# Precompiled contracts

    Accounts whose code is a function of the engine. A call to one pays what
    the function asks for its input and gets the function's output; a
    function may also reject its input.
-/

namespace Evm

/-- Why a precompiled contract gives no output. -/
inductive PrecompileError where
  /-- The input is not well formed. -/
  | invalidInput (reason : String)
  /-- The engine does not have the function. -/
  | unsupported (name : String)
  deriving DecidableEq

/-- The wording of a complaint. -/
def PrecompileError.message : PrecompileError → String
  | .invalidInput reason => s!"invalid input: {reason}"
  | .unsupported name => s!"precompile {name} is not supported"

/-- A precompiled contract. -/
structure Precompile where
  /-- The price for an input. -/
  gasCost : Bytes → Nat
  /-- The output for an input. -/
  execute : Bytes → Except PrecompileError Bytes

namespace Precompile

/-- **Signer recovery.** The input is a hash, `v`, `r` and `s`, 32 bytes
    each, cut off or extended by zeros. The last byte of `v` has to be 27 or
    28 and the others zero. If no signer is found the output is empty. -/
def recoverSigner (input : Bytes) : Bytes :=
  let buffer := Bytes.window input 0 128
  let v := (Bytes.byteAt buffer 63).toNat
  if (∀ i < 31, Bytes.byteAt buffer (32 + i) = 0) ∧ (v = 27 ∨ v = 28) then
    let hash := Hash.ofWord (Word.ofBytesAt buffer 0)
    let r := Hash.ofWord (Word.ofBytesAt buffer 64)
    let s := Hash.ofWord (Word.ofBytesAt buffer 96)
    match Crypto.recoverAddress hash (v - 27) r s with
    | .ok address => address.toWord.toBytes
    | .error _ => ByteArray.empty
  else ByteArray.empty

/-- Signer recovery at its price. -/
def ecRecover : Precompile where
  gasCost _ := 3000
  execute input := .ok (recoverSigner input)

/-- The SHA-256 digest. -/
def sha256 : Precompile where
  gasCost input := 60 + 12 * Gas.words input.size
  execute input := .ok (Evm.sha256 input).toBytes

/-- The input itself. -/
def identity : Precompile where
  gasCost input := 15 + 3 * Gas.words input.size
  execute input := .ok input

/-- A function that the engine does not have: free, and always a failure. -/
def unsupported (name : String) : Precompile where
  gasCost _ := 0
  execute _ := .error (.unsupported name)

end Precompile

/-! ## Registries -/

/-- Precompiled contracts by address. -/
abbrev Precompiles := Std.ExtTreeMap Address Precompile compare

namespace Precompiles

/-- Add contracts to a registry, later ones taking the place of earlier ones. -/
def register (set : Precompiles) (entries : List (Nat × Precompile)) : Precompiles :=
  entries.foldl (fun set e => set.insert (.ofNat e.1) e.2) set

/-- The contracts at the addresses from one to ten. -/
def standard : Precompiles :=
  register ∅
    [(1, .ecRecover), (2, .sha256), (3, .unsupported "RIPEMD160"), (4, .identity),
     (5, .unsupported "MODEXP"), (6, .unsupported "BN254_ADD"), (7, .unsupported "BN254_MUL"),
     (8, .unsupported "BN254_PAIRING"), (9, .unsupported "BLAKE2F"),
     (10, .unsupported "POINT_EVALUATION")]

end Precompiles

end Evm
