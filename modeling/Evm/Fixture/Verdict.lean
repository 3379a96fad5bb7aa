import Evm.Engine.Transaction
import Evm.Fixture.Case
import Evm.State.Database
import Evm.Word.Text

/-!
# Verdicts

    A case is run on a store of its own and passes or fails for a reason.
    Expectations are checked in a fixed order, and the first one that is not
    met is the reason: gas before output, output before state, and in the
    state the accounts in the order of their addresses, the stated slots of
    one account before its code.
-/

namespace Evm.Fixture

/-! ## Reasons -/

/-- Why a case fails. -/
inductive Failure where
  /-- A storage key is no word. -/
  | invalidKey (key : String) (reason : Word.NumeralError)
  /-- The call should have failed. -/
  | unexpectedSuccess
  /-- The call should not have failed. -/
  | unexpectedExit (exit : ExitReason)
  | gasMismatch (expected got : Nat)
  | outputMismatch (expected got : Bytes)
  | storageMismatch (address : Address) (key expected got : Word)
  /-- The code of an account is another one; only the sizes are told. -/
  | codeMismatch (address : Address) (expected got : Nat)
  deriving DecidableEq

/-- The wording of a reason. -/
def Failure.message : Failure → String
  | .invalidKey key reason => "Parse error: " ++ Word.fixtureErrorMessage key reason
  | .unexpectedSuccess => "Assertion failed: expected execution to fail, but it succeeded"
  | .unexpectedExit exit => s!"Assertion failed: expected success, got {exit.describe}"
  | .gasMismatch expected got =>
    s!"Assertion failed: gas mismatch: expected {expected}, got {got}"
  | .outputMismatch expected got =>
    s!"Assertion failed: output mismatch: expected {Text.Hex.encodeMarked expected}, "
      ++ s!"got {Text.Hex.encodeMarked got}"
  | .storageMismatch address key expected got =>
    s!"Assertion failed: storage mismatch at {address.toHex} slot {key.toHex}: "
      ++ s!"expected {expected.toHex}, got {got.toHex}"
  | .codeMismatch address expected got =>
    s!"Assertion failed: code mismatch at {address.toHex}: "
      ++ s!"expected {expected} bytes, got {got}"

/-- What becomes of a case: nothing is said if it passes. -/
abbrev Verdict := Except Failure Unit

/-! ## Before the call -/

/-- A storage key. -/
def storageKey (text : String) : Except Failure Word :=
  (Word.ofHex text).mapError (.invalidKey text)

/-- Put one account into a store. -/
def AccountSpec.seed (a : Address) (spec : AccountSpec) (db : Database) :
    Except Failure Database :=
  let db := db.insertAccount a ⟨spec.nonce, spec.balance, emptyCodeHash⟩
  let db := if spec.code.isEmpty then db else (db.deploy a spec.code).2
  spec.storage.foldlM
    (fun db entry => (storageKey entry.1).map fun key => db.insertStorage ⟨a, key⟩ entry.2) db

/-- The store that a case runs on. -/
def Case.store (c : Case) : Except Failure Database := do
  let db ← c.pre.toList.foldlM (fun db entry => entry.2.seed entry.1 db) Database.empty
  return if c.exec.code.isEmpty then db else (db.deploy c.exec.address c.exec.code).2

/-- The environment that a case runs in. -/
def Case.environment (c : Case) : Environment where
  block := c.block
  tx := { TxEnv.default with origin := c.exec.origin, gasPrice := c.exec.gasPrice }

/-- The transaction of a case. -/
def Case.transaction (c : Case) : Transaction where
  caller := c.exec.caller
  kind := .call c.exec.address
  value := c.exec.value
  data := c.exec.data
  gasLimit := c.exec.gas
  accessList := []

/-! ## After the call -/

/-- Check the stated slots of one account, then its code. -/
def AccountSpec.check (a : Address) (spec : AccountSpec) (db : Database) : Verdict := do
  spec.storage.forM fun entry => do
    let key ← storageKey entry.1
    let got := db.storageValue ⟨a, key⟩
    if got ≠ entry.2 then
      throw (.storageMismatch a key entry.2 got)
  let code := db.codeAt a
  if code ≠ spec.code then
    throw (.codeMismatch a spec.code.size code.size)

/-- Check the result of the call and the store after it. -/
def Case.check (c : Case) (result : TransactionResult) (db : Database) : Verdict := do
  match c.gas with
  | none =>
    if result.success then
      throw .unexpectedSuccess
  | some gas =>
    if !result.success then
      throw (.unexpectedExit result.exit)
    if result.gasLeft ≠ gas then
      throw (.gasMismatch gas result.gasLeft)
    if let some out := c.out then
      if result.output ≠ out then
        throw (.outputMismatch out result.output)
    if let some post := c.post then
      post.toList.forM fun entry => entry.2.check entry.1 db

/-! ## The whole case -/

/-- **Run a case** under its own rule set or the given one. Jump analyses
    are taken from a cache, which comes back with those that were added. -/
def Case.run (c : Case) (fork : Hardfork) : StateM CodeCache Verdict := fun cache =>
  match c.store with
  | .error failure => (.error failure, cache)
  | .ok db =>
    let config := Config.ofHardfork (c.fork.getD fork)
    let engine := { Engine.new db c.environment config with codeCache := cache }
    let (result, engine) := Engine.transact c.transaction engine
    (c.check result engine.journal.backend, engine.codeCache)

end Evm.Fixture
