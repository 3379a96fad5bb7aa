import Evm.Fixture.Case
import Evm.Json.Parser
import Evm.Json.Settings

/-!
# Reading fixture files

    A fixture file is a JSON object of cases by name. All values in it are
    hexadecimal texts behind an optional marker: bytes with two digits each,
    addresses in full, and words and counts of any number of digits, no
    digit standing for zero.

    A file is read as a whole: one value that cannot be read makes the file
    unreadable. Of members with the same name the last one counts.
-/

namespace Evm.Fixture

/-! ## Values -/

/-- Bytes. -/
def bytes? (j : Json) : Option Bytes :=
  j.asString?.bind fun s => (Text.Hex.decode (Text.Hex.dropMarker s)).toOption

/-- A word. What is behind the marker is a word with its own marker, if it
    has one. -/
def word? (j : Json) : Option Word :=
  j.asString?.bind fun s => (Word.ofHex (Text.Hex.dropMarker s)).toOption

/-- A hash, which may be written without its leading zeros. -/
def hash? (j : Json) : Option Hash := (word? j).map .ofWord

/-- The number of a text of at least one digit. -/
def number? (digits : List UInt8) : Option Nat :=
  if digits.isEmpty then none
  else (digits.mapM Text.Hex.digit?).map fun l => l.foldl (fun n d => 16 * n + d) 0

/-- The number of a text of digits, which may have a plus sign in front. -/
def count? : List UInt8 → Option Nat
  | 43 :: digits => number? digits
  | digits => number? digits

/-- A count of 64 bits. -/
def uint64? (j : Json) : Option Nat := do
  let text := Text.Hex.dropMarker (← j.asString?)
  if text.isEmpty then return 0
  let n ← count? (Bytes.toList text.toUTF8)
  if n ≤ 0xffffffffffffffff then return n else none

/-! ## Records -/

/-- The values of an object by name, in the order of the names. -/
def byName? {α : Type} (read : Json → Option α) (j : Json) : Option (List (String × α)) := do
  let members ← j.asMembers? read
  let sorted : Std.ExtTreeMap String α compare :=
    members.foldl (fun map m => map.insert m.1 m.2) ∅
  return sorted.toList

/-- An account. -/
def account? (j : Json) : Option AccountSpec := do
  let fields ← j.fields? ["balance", "code", "nonce", "storage"] false
  let balance ← Json.required? fields "balance" word?
  let code ← Json.required? fields "code" bytes?
  let nonce ← Json.required? fields "nonce" uint64?
  let storage ← Json.required? fields "storage" (byName? word?)
  return { balance, code, nonce, storage }

/-- Accounts by address. -/
def world? (j : Json) : Option World := do
  let members ← j.asMembers? account?
  members.foldlM
    (fun world m => (Address.ofHex m.1).toOption.map fun a => world.insert a m.2) (∅ : World)

/-- The block of a case. It has no random value unless one is stated, and no
    base fee either; its chain and blob fee are the usual ones. -/
def block? (j : Json) : Option BlockEnv := do
  let fields ← j.fields?
    ["currentCoinbase", "currentDifficulty", "currentGasLimit", "currentNumber",
      "currentTimestamp", "currentBaseFee", "currentRandom"] false
  let coinbase ← Json.required? fields "currentCoinbase" Address.ofJson?
  let difficulty ← Json.required? fields "currentDifficulty" word?
  let gasLimit ← Json.required? fields "currentGasLimit" uint64?
  let number ← Json.required? fields "currentNumber" uint64?
  let timestamp ← Json.required? fields "currentTimestamp" uint64?
  let baseFee ← Json.optional? fields "currentBaseFee" word?
  let prevRandao ← Json.optional? fields "currentRandom" hash?
  return { BlockEnv.default with
    number, timestamp, gasLimit, coinbase, baseFee := baseFee.getD 0, difficulty, prevRandao }

/-- The call of a case. -/
def execution? (j : Json) : Option Execution := do
  let fields ← j.fields?
    ["address", "caller", "code", "data", "gas", "gasPrice", "origin", "value"] false
  let address ← Json.required? fields "address" Address.ofJson?
  let caller ← Json.required? fields "caller" Address.ofJson?
  let code ← Json.required? fields "code" bytes?
  let data ← Json.required? fields "data" bytes?
  let gas ← Json.required? fields "gas" uint64?
  let gasPrice ← Json.required? fields "gasPrice" word?
  let origin ← Json.required? fields "origin" Address.ofJson?
  let value ← Json.required? fields "value" word?
  return { address, caller, code, data, gas, gasPrice, origin, value }

/-- A case. -/
def case? (j : Json) : Option Case := do
  let fields ← j.fields? ["fork", "env", "exec", "gas", "logs", "out", "pre", "post"] false
  let fork ← Json.optional? fields "fork" Hardfork.ofJson?
  let block ← Json.required? fields "env" block?
  let exec ← Json.required? fields "exec" execution?
  let gas ← Json.optional? fields "gas" uint64?
  let logs ← Json.optional? fields "logs" hash?
  let out ← Json.optional? fields "out" bytes?
  let pre ← Json.required? fields "pre" world?
  let post ← Json.optional? fields "post" world?
  return { fork, block, exec, gas, logs, out, pre, post }

/-! ## Files -/

/-- **The cases of a file.** -/
def readFile? (text : String) : Option CaseFile := (Json.parse? text).bind (byName? case?)

end Evm.Fixture
