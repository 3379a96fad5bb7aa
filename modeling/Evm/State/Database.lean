import Evm.Crypto.Keccak
import Evm.State.Backend

/-!
# Database

    A store in memory that never refuses. It can be filled before anything
    runs on it, and read directly afterwards. Slots that hold zero are not
    kept.
-/

namespace Evm

/-- A store in memory. -/
structure Database where
  accounts : Std.ExtTreeMap Address Account compare
  storage : Std.ExtTreeMap Slot Word compare
  code : Std.ExtTreeMap Hash Bytes compare
  blockHashes : Std.ExtTreeMap Nat Hash compare

namespace Database

/-- A store with nothing in it. -/
def empty : Database := ⟨∅, ∅, ∅, ∅⟩

instance : Inhabited Database := ⟨empty⟩

/-! ## Filling -/

/-- Set an account. -/
def insertAccount (db : Database) (a : Address) (account : Account) : Database :=
  { db with accounts := db.accounts.insert a account }

/-- Change an account, which is empty if it was not there. -/
def updateAccount (db : Database) (a : Address) (f : Account → Account) : Database :=
  db.insertAccount a (f (db.accounts.getD a .empty))

/-- Set the balance of an account. -/
def setBalance (db : Database) (a : Address) (balance : Word) : Database :=
  db.updateAccount a fun account => { account with balance }

/-- Keep code under its hash and give it to an account; the hash comes back.
    Empty code is not kept. -/
def deploy (db : Database) (a : Address) (code : Bytes) : Hash × Database :=
  if code.isEmpty then
    (emptyCodeHash, db.updateAccount a fun account => { account with codeHash := emptyCodeHash })
  else
    let codeHash := keccak256 code
    let db := { db with code := db.code.insert codeHash code }
    (codeHash, db.updateAccount a fun account => { account with codeHash })

/-- Set a slot. -/
def insertStorage (db : Database) (s : Slot) (value : Word) : Database :=
  if value = 0 then { db with storage := db.storage.erase s }
  else { db with storage := db.storage.insert s value }

/-- Record the hash of an earlier block. -/
def insertBlockHash (db : Database) (number : Nat) (hash : Hash) : Database :=
  { db with blockHashes := db.blockHashes.insert number hash }

/-! ## Reading -/

/-- The value of a slot. -/
def storageValue (db : Database) (s : Slot) : Word := db.storage.getD s 0

/-- The code of an account; empty if there is no account or no such code. -/
def codeAt (db : Database) (a : Address) : Bytes :=
  match db.accounts[a]? with
  | some account => db.code.getD account.codeHash ByteArray.empty
  | none => ByteArray.empty

/-- The code with a given hash; the hash of no code needs no entry. -/
def code? (db : Database) (hash : Hash) : Option Bytes :=
  if hash = emptyCodeHash then some ByteArray.empty else db.code[hash]?

/-! ## As a store -/

/-- Delete an account and every slot of it. -/
def eraseAccount (db : Database) (a : Address) : Database :=
  { db with
    accounts := db.accounts.erase a
    storage := db.storage.filter fun s _ => s.address != a }

/-- Keep code; the hash of no code is not entered. -/
def insertCode (db : Database) (hash : Hash) (code : Bytes) : Database :=
  if hash = emptyCodeHash then db else { db with code := db.code.insert hash code }

instance : Backend Database where
  account? db a := .ok db.accounts[a]?
  storage db s := .ok (db.storageValue s)
  code? db h := .ok (db.code? h)
  blockHash db n := .ok (db.blockHashes.getD n .zero)
  setAccount db a account := .ok (db.insertAccount a account)
  deleteAccount db a := .ok (db.eraseAccount a)
  setStorage db s v := .ok (db.insertStorage s v)
  setCode db h c := .ok (db.insertCode h c)

end Database

end Evm
