import Evm.Crypto.Keccak
import Evm.State.Backend
import Std.Data.ExtTreeSet

/-!
# Journaled state

    The state during one transaction. Reads are cached, writes go to the
    cache only, and every write leaves an entry in a journal that says how
    to undo it. A checkpoint is the length of the journal when it was taken;
    reverting to it undoes entries, newest first, until the journal is that
    long again. Checkpoints nest, the innermost being released first.

    Nothing reaches the backing store before the transaction is settled
    (`Evm.State.Settlement`).

    An operation that fails keeps what it has done up to its failure, so the
    operations run in a monad whose state survives errors.
-/

namespace Evm

/-! ## Transient storage -/

/-- Storage that lasts for one transaction. Zero is not kept, so two of them
    that read alike are the same. -/
structure TransientStorage where
  values : Std.ExtTreeMap Slot Word compare
  nonzero : ∀ s : Slot, values[s]? ≠ some 0

namespace TransientStorage

/-- Storage with nothing in it. -/
def empty : TransientStorage := ⟨∅, by simp⟩

/-- The value of a slot. -/
def read (t : TransientStorage) (s : Slot) : Word := t.values.getD s 0

/-- Set a slot. -/
def write (t : TransientStorage) (s : Slot) (value : Word) : TransientStorage :=
  if h : value = 0 then
    { values := t.values.erase s
      nonzero := fun r => by
        rw [Std.ExtTreeMap.getElem?_erase]
        split
        · simp
        · exact t.nonzero r }
  else
    { values := t.values.insert s value
      nonzero := fun r => by
        rw [Std.ExtTreeMap.getElem?_insert]
        split
        · simpa using h
        · exact t.nonzero r }

end TransientStorage

/-! ## State -/

/-- An account in the cache. -/
structure CachedAccount where
  /-- As execution sees it; none if the account does not exist. -/
  present : Option Account
  /-- As last read from the store or written to it. -/
  loaded : Option Account
  deriving DecidableEq, Inhabited

/-- A slot in the cache. -/
structure SlotValue where
  /-- The value at the start of the transaction. -/
  initial : Word
  /-- The value now. -/
  present : Word
  deriving DecidableEq, Inhabited

/-- How to undo one write. -/
inductive Undo where
  /-- An account changed, came into being or went away. -/
  | account (address : Address) (previous : Option Account)
  | storage (slot : Slot) (previous : Word)
  | transient (slot : Slot) (previous : Word)
  | warmAddress (address : Address)
  | warmSlot (slot : Slot)
  | log
  /-- Code was put on the list of codes to write. -/
  | code (hash : Hash)
  | created (address : Address)
  | destroyed (address : Address)
  deriving DecidableEq

/-- The state of one transaction at a time over a backing store. -/
structure Journal (β : Type) where
  backend : β
  accounts : Std.ExtTreeMap Address CachedAccount compare
  slots : Std.ExtTreeMap Slot SlotValue compare
  /-- Codes by their hash, read or new. -/
  codes : Std.ExtTreeMap Hash Bytes compare
  /-- The codes that are to be written. -/
  newCode : Std.ExtTreeSet Hash compare
  transient : TransientStorage
  warmAddresses : Std.ExtTreeSet Address compare
  warmSlots : Std.ExtTreeSet Slot compare
  /-- Logs, newest first. -/
  logs : List Log
  /-- Accounts created in this transaction. -/
  created : Std.ExtTreeSet Address compare
  /-- Accounts to be deleted at the end of this transaction. -/
  destroyed : Std.ExtTreeSet Address compare
  /-- The journal, newest entry first. -/
  entries : List Undo

/-- Operations on journaled state. -/
abbrev JournalM (β : Type) := EStateM StateError (Journal β)

/-- A length of the journal to come back to. -/
structure Checkpoint where
  length : Nat
  deriving DecidableEq, Inhabited

namespace Journal

variable {β : Type}

/-- The state before any operation. -/
def ofBackend (backend : β) : Journal β :=
  ⟨backend, ∅, ∅, ∅, ∅, .empty, ∅, ∅, [], ∅, ∅, []⟩

/-- Add an entry to the journal. -/
def note (j : Journal β) (entry : Undo) : Journal β := { j with entries := entry :: j.entries }

/-- The logs that were left and not undone, oldest first. -/
def emitted (j : Journal β) : List Log := j.logs.reverse

/-! ## Reads -/

section Reads

variable [Backend β]

/-- The cache entry of an account, read from the store on first use. -/
def loadAccount (a : Address) : JournalM β CachedAccount := do
  let j ← get
  match j.accounts[a]? with
  | some cached => return cached
  | none =>
    match Backend.account? j.backend a with
    | .error e => throw e
    | .ok found =>
      let cached := ⟨found, found⟩
      set { j with accounts := j.accounts.insert a cached }
      return cached

/-- What a slot reads as on first use. The store is not asked about an
    account created in this transaction, whose slots are all zero. -/
def storedValue (j : Journal β) (s : Slot) : Except StateError Word :=
  if j.created.contains s.address then .ok 0 else Backend.storage j.backend s

/-- The cache entry of a slot, read from the store on first use. -/
def loadSlot (s : Slot) : JournalM β SlotValue := do
  let j ← get
  match j.slots[s]? with
  | some cached => return cached
  | none =>
    match j.storedValue s with
    | .error e => throw e
    | .ok value =>
      let cached := ⟨value, value⟩
      set { j with slots := j.slots.insert s cached }
      return cached

/-- The account at an address; a missing one reads as the empty account. -/
def account (a : Address) : JournalM β Account := do
  return (← loadAccount a).present.getD .empty

/-- Whether there is an account at all. -/
def isPresent (a : Address) : JournalM β Bool := do
  return (← loadAccount a).present.isSome

/-- Whether the account is missing or empty. -/
def isEmpty (a : Address) : JournalM β Bool := do
  return (← account a).isEmpty

/-- The balance of an account. -/
def balance (a : Address) : JournalM β Word := do
  return (← account a).balance

/-- The nonce of an account. -/
def nonce (a : Address) : JournalM β Nat := do
  return (← account a).nonce

/-- The code of an account and its hash. The hash of an account without code
    is that of no code, also where the account itself says zero. -/
def code (a : Address) : JournalM β (Bytes × Hash) := do
  let hash := (← account a).codeHash
  if hash = emptyCodeHash ∨ hash.isZero then
    return (ByteArray.empty, emptyCodeHash)
  let j ← get
  match j.codes[hash]? with
  | some code => return (code, hash)
  | none =>
    match Backend.code? j.backend hash with
    | .error e => throw e
    | .ok none => throw (.missingCode hash)
    | .ok (some code) =>
      set { j with codes := j.codes.insert hash code }
      return (code, hash)

/-- The value of a slot. -/
def storage (s : Slot) : JournalM β Word := do
  return (← loadSlot s).present

/-- The value of a slot, now and at the start of the transaction. -/
def slot (s : Slot) : JournalM β SlotValue := loadSlot s

/-- The hash of an earlier block, from the store. -/
def blockHash (number : Nat) : JournalM β Hash := do
  match Backend.blockHash (← get).backend number with
  | .ok hash => return hash
  | .error e => throw e

end Reads

/-! ## Writes to accounts -/

section Accounts

variable [Backend β]

/-- Change an account, bringing it into being if it is missing. Nothing is
    written if the change fails. -/
def modifyAccount (a : Address) (f : Account → Except StateError Account) : JournalM β Unit := do
  let cached ← loadAccount a
  match f (cached.present.getD .empty) with
  | .error e => throw e
  | .ok changed =>
    modify fun j =>
      { j with accounts := j.accounts.insert a { cached with present := some changed } }.note
        (.account a cached.present)

/-- Set a balance. -/
def setBalance (a : Address) (balance : Word) : JournalM β Unit :=
  modifyAccount a fun account => .ok { account with balance }

/-- Credit an account. -/
def addBalance (a : Address) (amount : Word) : JournalM β Unit :=
  modifyAccount a fun account =>
    if Word.max.toNat < account.balance.toNat + amount.toNat then .error (.balanceOverflow a)
    else .ok { account with balance := account.balance + amount }

/-- Debit an account. -/
def subBalance (a : Address) (amount : Word) : JournalM β Unit :=
  modifyAccount a fun account =>
    if account.balance.toNat < amount.toNat then
      .error (.insufficientBalance a account.balance amount)
    else .ok { account with balance := account.balance - amount }

/-- Move an amount between accounts. Moving nothing reads nothing, and moving
    to oneself only takes that the amount is there. -/
def transfer (source target : Address) (amount : Word) : JournalM β Unit := do
  if amount = 0 then return
  let available ← balance source
  if available.toNat < amount.toNat then
    throw (.insufficientBalance source available amount)
  if source = target then return
  subBalance source amount
  addBalance target amount

/-- Set a nonce. -/
def setNonce (a : Address) (nonce : Nat) : JournalM β Unit :=
  modifyAccount a fun account => .ok { account with nonce }

/-- Count a nonce up by one; the new nonce comes back. -/
def incrementNonce (a : Address) : JournalM β Nat := do
  let current ← nonce a
  if current = Account.maxNonce then
    throw (.nonceOverflow a)
  setNonce a (current + 1)
  return current + 1

/-- Put code on the list of codes to write. -/
def queueCode (hash : Hash) (code : Bytes) : JournalM β Unit :=
  modify fun j =>
    let known := j.newCode.contains hash
    let j := { j with codes := j.codes.insert hash code, newCode := j.newCode.insert hash }
    if known then j else j.note (.code hash)

/-- Set the hash of an account's code. -/
def setCodeHash (a : Address) (codeHash : Hash) : JournalM β Unit :=
  modifyAccount a fun account => .ok { account with codeHash }

/-- Give code to an account; its hash comes back. The code is queued before
    the account is looked at. -/
def setCode (a : Address) (code : Bytes) : JournalM β Hash := do
  if code.isEmpty then
    setCodeHash a emptyCodeHash
    return emptyCodeHash
  else
    let codeHash := keccak256 code
    queueCode codeHash code
    setCodeHash a codeHash
    return codeHash

end Accounts

/-! ## Writes to storage -/

/-- Write a slot; its previous value comes back. -/
def setStorage [Backend β] (s : Slot) (value : Word) : JournalM β Word := do
  let cached ← loadSlot s
  modify fun j =>
    { j with slots := j.slots.insert s { cached with present := value } }.note
      (.storage s cached.present)
  return cached.present

/-- Read transient storage. -/
def tload (j : Journal β) (s : Slot) : Word := j.transient.read s

/-- Set transient storage without an entry in the journal. -/
def putTransient (j : Journal β) (s : Slot) (value : Word) : Journal β :=
  { j with transient := j.transient.write s value }

/-- Write transient storage. -/
def tstore (j : Journal β) (s : Slot) (value : Word) : Journal β :=
  (j.putTransient s value).note (.transient s (j.tload s))

/-! ## Accesses, logs and marks -/

/-- Whether an address was accessed in this transaction. -/
def isWarmAddress (j : Journal β) (a : Address) : Bool := j.warmAddresses.contains a

/-- Record an access to an address; true if it is the first one. -/
def warmAddress (j : Journal β) (a : Address) : Bool × Journal β :=
  if j.isWarmAddress a then (false, j)
  else (true, { j with warmAddresses := j.warmAddresses.insert a }.note (.warmAddress a))

/-- Whether a slot was accessed in this transaction. -/
def isWarmSlot (j : Journal β) (s : Slot) : Bool := j.warmSlots.contains s

/-- Record an access to a slot; true if it is the first one. -/
def warmSlot (j : Journal β) (s : Slot) : Bool × Journal β :=
  if j.isWarmSlot s then (false, j)
  else (true, { j with warmSlots := j.warmSlots.insert s }.note (.warmSlot s))

/-- Leave a log. -/
def addLog (j : Journal β) (log : Log) : Journal β :=
  { j with logs := log :: j.logs }.note .log

/-- Whether an account was created in this transaction. -/
def isCreated (j : Journal β) (a : Address) : Bool := j.created.contains a

/-- Remember that an account was created in this transaction. -/
def markCreated (j : Journal β) (a : Address) : Journal β :=
  if j.isCreated a then j else { j with created := j.created.insert a }.note (.created a)

/-- Whether an account is to be deleted. -/
def isDestroyed (j : Journal β) (a : Address) : Bool := j.destroyed.contains a

/-- Have an account deleted at the end of the transaction. -/
def markDestroyed (j : Journal β) (a : Address) : Journal β :=
  if j.isDestroyed a then j else { j with destroyed := j.destroyed.insert a }.note (.destroyed a)

/-! ## Checkpoints -/

/-- The present length of the journal. -/
def checkpoint (j : Journal β) : Checkpoint := ⟨j.entries.length⟩

/-- Undo one write. Entries of the cache that the write was made to are still
    there; only their present value goes back. -/
def undo (j : Journal β) : Undo → Journal β
  | .account a previous =>
    match j.accounts[a]? with
    | some cached =>
      { j with accounts := j.accounts.insert a { cached with present := previous } }
    | none => j
  | .storage s previous =>
    match j.slots[s]? with
    | some cached => { j with slots := j.slots.insert s { cached with present := previous } }
    | none => j
  | .transient s previous => j.putTransient s previous
  | .warmAddress a => { j with warmAddresses := j.warmAddresses.erase a }
  | .warmSlot s => { j with warmSlots := j.warmSlots.erase s }
  | .log => { j with logs := j.logs.tail }
  | .code hash => { j with newCode := j.newCode.erase hash }
  | .created a => { j with created := j.created.erase a }
  | .destroyed a => { j with destroyed := j.destroyed.erase a }

/-- Undo the newest `count` writes, newest first. -/
def undoNewest : Nat → Journal β → Journal β
  | 0, j => j
  | count + 1, j =>
    match j.entries with
    | [] => j
    | entry :: rest => undoNewest count ({ j with entries := rest }.undo entry)

/-- Undo every write since a checkpoint. A checkpoint beyond the end of the
    journal undoes nothing. -/
def revert (j : Journal β) (c : Checkpoint) : Journal β :=
  undoNewest (j.entries.length - c.length) j

end Journal

end Evm
