import Evm.Address
import Evm.Crypto.Keccak
import Evm.Crypto.Secp256k1

/-!
# Recovering a signer

    From a message hash and a signature `(r, s)` with a recovery id, find the
    address whose key made the signature. Signatures with `s` in the upper
    half of the group order are accepted: `s` is replaced by its negative and
    the parity in the id flipped, which names the same key.
-/

namespace Evm.Crypto

open Secp256k1

/-- Why no signer is found. -/
inductive RecoveryError where
  /-- `r` or `s` is zero or not below the group order. -/
  | invalidSignature
  /-- The recovery id is none of 0 to 3. -/
  | invalidRecoveryId (id : Nat)
  /-- No key matches the signature. -/
  | recoveryFailed
  deriving DecidableEq

/-- The wording of a complaint. -/
def RecoveryError.message : RecoveryError → String
  | .invalidSignature => "invalid signature: signature error"
  | .invalidRecoveryId id => s!"invalid recovery id: {id}"
  | .recoveryFailed => "public key recovery failed: signature error"

/-- Whether a number is a non-zero scalar of the group. -/
def isScalar (k : Nat) : Bool := 0 < k && k < n

/-- The affine key that signed the message `z`. Bit 0 of the id is the
    parity of the nonce point's y coordinate; bit 1 says that its x
    coordinate is `r + n` and was reduced. -/
def recoverKey? (z r s id : Nat) : Option (Nat × Nat) := do
  let x := if id / 2 % 2 = 1 then r + n else r
  let noncePoint ← liftX? x (id % 2 == 1)
  let rInverse := inverse n r
  let u1 := (n - rInverse * (z % n) % n) % n
  let u2 := rInverse * s % n
  ((generator.multiple 256 u1).add (noncePoint.multiple 256 u2)).coordinates?

/-- The address of an affine key: the low 20 bytes of the hash of both
    coordinates. -/
def addressOfKey (key : Nat × Nat) : Address :=
  .ofWord (keccak256 (Bytes.ofNumber key.1 32 ++ Bytes.ofNumber key.2 32)).toWord

/-- The signature with `s` in the lower half that names the same key: of `s`
    and `n - s` exactly one lies there. -/
def lowForm (s id : Nat) : Nat × Nat := if n / 2 < s then (n - s, id ^^^ 1) else (s, id)

/-- **Signer recovery.** The signature is checked before the id. -/
def recoverAddress (message : Hash) (id : Nat) (r s : Hash) : Except RecoveryError Address :=
  let r := r.toWord.toNat
  let s := s.toWord.toNat
  if !(isScalar r && isScalar s) then .error .invalidSignature
  else if 3 < id then .error (.invalidRecoveryId id)
  else
    let (s, id) := lowForm s id
    match recoverKey? message.toWord.toNat r s id with
    | some key => .ok (addressOfKey key)
    | none => .error .recoveryFailed

end Evm.Crypto
