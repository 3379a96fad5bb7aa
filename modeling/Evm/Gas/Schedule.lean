import Evm.Opcode

/-!
# Gas schedule

    What instructions and transactions cost. An instruction has a static cost
    that is charged before it runs and depends on nothing else; this module
    gives that cost and the dynamic parts of it, as functions of the sizes
    and values they depend on.

    Amounts are numbers that 64 bits hold. Where a product or sum could be
    larger it is cut down to the largest such number, which nothing can pay
    for.
-/

namespace Evm.Gas

/-! ## Amounts -/

/-- An amount cut down to 64 bits. -/
def capped (amount : Nat) : Nat := min amount Word.maxUInt64

/-- Reading an account or slot that was accessed before. -/
def warmAccess : Nat := 100

/-- Reading an account for the first time. -/
def coldAccountAccess : Nat := 2600

/-- Reading a slot for the first time. -/
def coldSload : Nat := 2100

/-- Setting a slot that was zero. -/
def sstoreSet : Nat := 20000

/-- Changing a slot that was not zero. -/
def sstoreReset : Nat := 2900

/-- A slot is not written while no more gas than this is left. -/
def sstoreSentry : Nat := 2300

/-- Moving value with a call. -/
def callValue : Nat := 9000

/-- Bringing an account into being. -/
def newAccount : Nat := 25000

/-- Gas that a call with value is given on top. -/
def callStipend : Nat := 2300

/-- Refund for destroying an account, before London. -/
def selfDestructRefund : Int := 24000

/-! ## Static costs -/

/-- The gas charged before an instruction runs. Instructions with warm and
    cold pricing have the warm cost here. -/
def static : Opcode → Nat
  | .stop | .ret | .revert | .invalid | .sstore => 0
  | .jumpDest => 1
  | .query _ | .pop | .push0 => 2
  | .binary .mul | .binary .div | .binary .sdiv | .binary .mod | .binary .smod
  | .binary .signextend | .selfBalance => 5
  | .unary _ | .binary _ | .callDataLoad | .callDataCopy | .codeCopy | .returnDataCopy | .mload
  | .mstore | .mstore8 | .mcopy | .blobHash | .push _ | .dup _ | .swap _ => 3
  | .ternary _ | .jump => 8
  | .jumpi | .exp => 10
  | .blockHash => 20
  | .keccak256 => 30
  | .balance | .extCodeSize | .extCodeCopy | .extCodeHash | .sload | .tload | .tstore
  | .call _ => warmAccess
  | .log topics => 375 + topics.val * 375
  | .create | .create2 => 32000
  | .selfDestruct => 5000

/-! ## Sizes -/

/-- The number of words that hold a number of bytes. -/
def words (length : Nat) : Nat := (length + 31) / 32

/-- All of a memory of `w` words: three a word and a square part that makes
    large memories dear. -/
def memory (w : Nat) : Nat := capped (capped (3 * w) + capped (w * w) / 512)

/-- Growing memory from `current` to `wanted` words. -/
def memoryExpansion (current wanted : Nat) : Nat :=
  if wanted ≤ current then 0 else memory wanted - memory current

/-- Copying, by the word. -/
def copy (length : Nat) : Nat := capped (3 * words length)

/-- Raising to a power, by the byte of the exponent. -/
def exp (exponent : Word) : Nat := 50 * exponent.byteLength

/-- Hashing, by the word. -/
def keccak256 (length : Nat) : Nat := capped (6 * words length)

/-- Logging, by the byte of data. -/
def logData (length : Nat) : Nat := capped (8 * length)

/-- Init code by the word from Shanghai on, and its hash if the address is
    derived from it. -/
def create (fork : Hardfork) (initCodeLength : Nat) (hashed : Bool) : Nat :=
  let metered := if fork.includes .shanghai then capped (2 * words initCodeLength) else 0
  if hashed then capped (metered + keccak256 initCodeLength) else metered

/-- Deployed code, by the byte. -/
def codeDeposit (length : Nat) : Nat := capped (200 * length)

/-- **The part of the gas that a child frame may have**: all but one 64th. -/
def forwardable (available : Nat) : Nat := available - available / 64

/-! ## Storage writes -/

/-- Writing a slot, from its value at the start of the transaction, its value
    before the write and its value after it. Only the first change in a
    transaction is dear. -/
def sstore (initial present new : Word) (isCold : Bool) : Nat :=
  let base :=
    if new ≠ present ∧ initial = present then
      if initial = 0 then sstoreSet else sstoreReset
    else warmAccess
  if isCold then base + coldSload else base

/-- What a write adds to the refund counter; negative when it takes back an
    earlier refund. -/
def sstoreRefund (fork : Hardfork) (initial present new : Word) : Int :=
  if new = present then 0
  else if initial = present then
    if initial ≠ 0 ∧ new = 0 then fork.clearRefund else 0
  else
    let cleared :=
      if initial = 0 then 0
      else if present = 0 then -fork.clearRefund
      else if new = 0 then fork.clearRefund
      else 0
    let restored : Int :=
      if initial = new then
        if initial = 0 then sstoreSet - warmAccess else sstoreReset - warmAccess
      else 0
    cleared + restored

/-! ## Transactions -/

/-- What a transaction pays before it runs: its envelope, its data by the
    byte, its access list, and for a creation the creation itself. -/
def intrinsic (fork : Hardfork) (data : Bytes) (isCreate : Bool)
    (accessAddresses accessKeys : Nat) : Nat :=
  let zeros := (Bytes.toList data).count 0
  let envelope :=
    21000 + zeros * 4 + (data.size - zeros) * 16 + accessAddresses * 2400 + accessKeys * 1900
  if isCreate then
    envelope + 32000 + (if fork.includes .shanghai then 2 * words data.size else 0)
  else envelope

end Evm.Gas
