import Evm.Crypto.Keccak
import Evm.Rlp

/-!
# Addresses of new contracts

    The address of a new contract is the low 20 bytes of a hash. What is
    hashed is either the creator with its nonce, as a list, or the creator
    with a salt and the hash of the init code behind a marker byte that no
    such list starts with.
-/

namespace Evm

/-- The bytes behind the address of a contract made with a nonce. -/
def createPreimage (creator : Address) (nonce : Nat) : Bytes :=
  Rlp.encodeList [Rlp.encodeAddress creator, Rlp.encodeNumber nonce]

/-- The bytes behind the address of a contract made with a salt. -/
def create2Preimage (creator : Address) (salt : Word) (initCodeHash : Hash) : Bytes :=
  Bytes.ofList [0xff] ++ creator.toBytes ++ salt.toBytes ++ initCodeHash.toBytes

/-- The low 20 bytes of a hash. -/
def Address.ofHash (h : Hash) : Address := .ofWord h.toWord

/-- The address of a contract made with a nonce. -/
def createAddress (creator : Address) (nonce : Nat) : Address :=
  .ofHash (keccak256 (createPreimage creator nonce))

/-- The address of a contract made with a salt. -/
def create2Address (creator : Address) (salt : Word) (initCodeHash : Hash) : Address :=
  .ofHash (keccak256 (create2Preimage creator salt initCodeHash))

end Evm
