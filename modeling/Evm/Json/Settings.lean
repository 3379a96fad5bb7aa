import Evm.Environment
import Evm.Hardfork
import Evm.Json
import Evm.Word.Text

/-!
# Settings as JSON

    How rule sets, limits and environments are kept in JSON. Every record
    here may leave out fields, which then have their default values. Words
    are quantities, texts of at least one digit; addresses and hashes are
    written in full.
-/

namespace Evm

/-! ## Words, addresses, hashes -/

namespace Word

/-- A blank that a quantity may contain. -/
def isQuantityBlank (c : UInt8) : Bool := c == 32 || c == 9 || c == 10 || c == 13

/-- The word of a quantity, which has one to 64 characters behind an optional
    marker. Digits come in pairs, the first one standing alone if the length
    of the text is odd. Blanks are passed over but count for that length, so
    the last digit may be left without a partner; it is dropped then. -/
def ofQuantity? (s : String) : Option Word := do
  let text := Bytes.toList (Text.Hex.dropMarker s).toUTF8
  if text.isEmpty ∨ 64 < text.length then none
  let digits ← (text.filter fun c => !isQuantityBlank c).mapM Text.Hex.digit?
  let paired := if (text.length - digits.length) % 2 = 1 then digits.dropLast else digits
  return ofNat (paired.foldl (fun n d => 16 * n + d) 0)

/-- Read a word. -/
def ofJson? (j : Json) : Option Word := j.asString?.bind ofQuantity?

/-- A word as a quantity. -/
def toJson (w : Word) : Json := .string w.toHex

end Word

/-- Read an address. -/
def Address.ofJson? (j : Json) : Option Address :=
  j.asString?.bind fun s => (Address.ofHex s).toOption

/-- An address in full. -/
def Address.toJson (a : Address) : Json := .string a.toHex

/-- Read a hash. -/
def Hash.ofJson? (j : Json) : Option Hash :=
  j.asString?.bind fun s => (Hash.ofHex s).toOption

/-- A hash in full. -/
def Hash.toJson (h : Hash) : Json := .string h.toHex

/-- A whole number. -/
def Json.ofNat (n : Nat) : Json := .integer n

/-! ## Rule sets and limits -/

/-- Read a rule set: its name, or an object whose only member has that name
    and is null. -/
def Hardfork.ofJson? : Json → Option Hardfork
  | .string name => Hardfork.ofName? name
  | .object [(name, .null)] => Hardfork.ofName? name
  | _ => none

/-- A rule set by its name. -/
def Hardfork.toJson (fork : Hardfork) : Json := .string fork.name

/-- The limits that are assumed where none are given. -/
def Config.default : Config := .ofHardfork .cancun

/-- Read rule set and limits. -/
def Config.ofJson? (j : Json) : Option Config := do
  let fields ← j.fields?
    ["hardfork", "max_call_depth", "max_code_size", "max_initcode_size", "intrinsic_gas"] true
  let d := Config.default
  let hardfork ← Json.defaulted? fields "hardfork" d.hardfork Hardfork.ofJson?
  let maxCallDepth ← Json.defaulted? fields "max_call_depth" d.maxCallDepth Json.asUInt64?
  let maxCodeSize ← Json.defaulted? fields "max_code_size" d.maxCodeSize Json.asUInt64?
  let maxInitCodeSize ←
    Json.defaulted? fields "max_initcode_size" d.maxInitCodeSize Json.asUInt64?
  let intrinsicGas ← Json.defaulted? fields "intrinsic_gas" d.intrinsicGas Json.asBool?
  return { hardfork, maxCallDepth, maxCodeSize, maxInitCodeSize, intrinsicGas }

/-- Rule set and limits as a record. -/
def Config.toJson (c : Config) : Json :=
  .object
    [("hardfork", c.hardfork.toJson), ("max_call_depth", .ofNat c.maxCallDepth),
      ("max_code_size", .ofNat c.maxCodeSize), ("max_initcode_size", .ofNat c.maxInitCodeSize),
      ("intrinsic_gas", .bool c.intrinsicGas)]

/-! ## Environments -/

/-- Read a block. Its random value alone may be null, for a block that has
    none. -/
def BlockEnv.ofJson? (j : Json) : Option BlockEnv := do
  let fields ← j.fields?
    ["number", "timestamp", "gas_limit", "coinbase", "base_fee", "chain_id", "difficulty",
      "prevrandao", "blob_base_fee"] true
  let d := BlockEnv.default
  let number ← Json.defaulted? fields "number" d.number Json.asUInt64?
  let timestamp ← Json.defaulted? fields "timestamp" d.timestamp Json.asUInt64?
  let gasLimit ← Json.defaulted? fields "gas_limit" d.gasLimit Json.asUInt64?
  let coinbase ← Json.defaulted? fields "coinbase" d.coinbase Address.ofJson?
  let baseFee ← Json.defaulted? fields "base_fee" d.baseFee Word.ofJson?
  let chainId ← Json.defaulted? fields "chain_id" d.chainId Json.asUInt64?
  let difficulty ← Json.defaulted? fields "difficulty" d.difficulty Word.ofJson?
  let prevRandao ←
    Json.defaulted? fields "prevrandao" d.prevRandao (Json.asOptional? Hash.ofJson?)
  let blobBaseFee ← Json.defaulted? fields "blob_base_fee" d.blobBaseFee Word.ofJson?
  return ⟨number, timestamp, gasLimit, coinbase, baseFee, chainId, difficulty, prevRandao,
    blobBaseFee⟩

/-- A block as a record. -/
def BlockEnv.toJson (b : BlockEnv) : Json :=
  .object
    [("number", .ofNat b.number), ("timestamp", .ofNat b.timestamp),
      ("gas_limit", .ofNat b.gasLimit), ("coinbase", b.coinbase.toJson),
      ("base_fee", b.baseFee.toJson), ("chain_id", .ofNat b.chainId),
      ("difficulty", b.difficulty.toJson),
      ("prevrandao", (b.prevRandao.map Hash.toJson).getD .null),
      ("blob_base_fee", b.blobBaseFee.toJson)]

/-- Read what is said of a transaction. -/
def TxEnv.ofJson? (j : Json) : Option TxEnv := do
  let fields ← j.fields? ["origin", "gas_price", "blob_hashes"] true
  let d := TxEnv.default
  let origin ← Json.defaulted? fields "origin" d.origin Address.ofJson?
  let gasPrice ← Json.defaulted? fields "gas_price" d.gasPrice Word.ofJson?
  let blobHashes ←
    Json.defaulted? fields "blob_hashes" d.blobHashes (Json.asList? Hash.ofJson?)
  return { origin, gasPrice, blobHashes }

/-- What is said of a transaction as a record. -/
def TxEnv.toJson (t : TxEnv) : Json :=
  .object
    [("origin", t.origin.toJson), ("gas_price", t.gasPrice.toJson),
      ("blob_hashes", .array (t.blobHashes.map Hash.toJson))]

/-- Read an environment. -/
def Environment.ofJson? (j : Json) : Option Environment := do
  let fields ← j.fields? ["block", "tx"] true
  let block ← Json.defaulted? fields "block" .default BlockEnv.ofJson?
  let tx ← Json.defaulted? fields "tx" .default TxEnv.ofJson?
  return { block, tx }

/-- An environment as a record. -/
def Environment.toJson (e : Environment) : Json :=
  .object [("block", e.block.toJson), ("tx", e.tx.toJson)]

end Evm
