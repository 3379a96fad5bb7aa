import Evm.State.Account
import Evm.State.Error

/-!
# Backing stores

    Where the state is kept between transactions. A store answers reads and
    takes writes, and may refuse either; a write that is refused leaves the
    store as it was.
-/

namespace Evm

/-- A store for accounts, storage and code. -/
class Backend (β : Type) where
  /-- The account at an address. -/
  account? : β → Address → Except StateError (Option Account)
  /-- The value of a slot, zero if it was never set. -/
  storage : β → Slot → Except StateError Word
  /-- The code with a given hash. -/
  code? : β → Hash → Except StateError (Option Bytes)
  /-- The hash of an earlier block, zero if it is not known. -/
  blockHash : β → Nat → Except StateError Hash := fun _ _ => .ok .zero
  /-- Set an account. -/
  setAccount : β → Address → Account → Except StateError β
  /-- Delete an account together with its storage. -/
  deleteAccount : β → Address → Except StateError β
  /-- Set a slot; zero removes it. -/
  setStorage : β → Slot → Word → Except StateError β
  /-- Keep code under its hash. -/
  setCode : β → Hash → Bytes → Except StateError β

namespace Backend

variable {β : Type} [Backend β]

/-- Whether there is an account at an address. -/
def exists? (b : β) (a : Address) : Except StateError Bool :=
  (account? b a).map Option.isSome

/-- The nonce at an address, zero if there is no account. -/
def nonce (b : β) (a : Address) : Except StateError Nat :=
  (account? b a).map fun acc => (acc.getD .empty).nonce

/-- The balance at an address, zero if there is no account. -/
def balance (b : β) (a : Address) : Except StateError Word :=
  (account? b a).map fun acc => (acc.getD .empty).balance

end Backend

/-! ## Stores that refuse -/

/-- One use of a store. -/
inductive Access where
  | getAccount (address : Address)
  | getStorage (slot : Slot)
  | getCode (hash : Hash)
  | getBlockHash (number : Nat)
  | setAccount (address : Address)
  | deleteAccount (address : Address)
  | setStorage (slot : Slot)
  | setCode (hash : Hash)
  deriving DecidableEq

/-- A store behind a guard that refuses some uses of it, with a reason. -/
structure Guarded (β : Type) where
  store : β
  refusal : Access → Option String

namespace Guarded

variable {β : Type}

/-- Go on unless the guard refuses the use. -/
def consult {α : Type} (g : Guarded β) (access : Access) (go : Except StateError α) :
    Except StateError α :=
  match g.refusal access with
  | some reason => .error (.backend reason)
  | none => go

/-- Write to the store behind the guard unless the guard refuses it; the
    guard stays in front of the result. -/
def update (g : Guarded β) (access : Access) (write : β → Except StateError β) :
    Except StateError (Guarded β) :=
  (g.consult access (write g.store)).map fun store => { g with store }

/-- The guard lets reads and writes through to the store behind it. -/
instance [Backend β] : Backend (Guarded β) where
  account? g a := g.consult (.getAccount a) (Backend.account? g.store a)
  storage g s := g.consult (.getStorage s) (Backend.storage g.store s)
  code? g h := g.consult (.getCode h) (Backend.code? g.store h)
  blockHash g n := g.consult (.getBlockHash n) (Backend.blockHash g.store n)
  setAccount g a account := g.update (.setAccount a) (Backend.setAccount · a account)
  deleteAccount g a := g.update (.deleteAccount a) (Backend.deleteAccount · a)
  setStorage g s value := g.update (.setStorage s) (Backend.setStorage · s value)
  setCode g h code := g.update (.setCode h) (Backend.setCode · h code)

end Guarded

end Evm
