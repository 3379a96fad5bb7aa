import Evm.State.Journal

/-!
# Settling a transaction

    At the end of a transaction its changes are written to the backing store
    and what was kept for this transaction alone is dropped; or all of its
    changes are undone and nothing is written.

    Changes are written slot by slot, code by code and account by account. A
    refusal stops the writing where it is. The order of the writes is left
    open: `settleIn` takes it as an argument, and `settle` writes in
    ascending order.
-/

namespace Evm.Journal

variable {β : Type}

/-! ## What is kept for one transaction -/

/-- Drop everything that is kept for one transaction alone; the logs come
    back. Caches stay. -/
def endTransaction (j : Journal β) : List Log × Journal β :=
  (j.emitted,
    { j with
      newCode := ∅, transient := .empty, warmAddresses := ∅, warmSlots := ∅, logs := [],
      created := ∅, destroyed := ∅, entries := [] })

/-- Undo all changes and end the transaction. -/
def discard (j : Journal β) : List Log × Journal β := (j.revert ⟨0⟩).endTransaction

/-! ## Writing -/

/-- The accounts to be deleted exist no longer. -/
def dropDestroyed (j : Journal β) : Journal β :=
  { j with
    accounts := j.accounts.map fun a cached =>
      if j.isDestroyed a then { cached with present := none } else cached }

variable [Backend β]

/-- Settle one slot. The slots of an account to be deleted go with it; other
    slots are written if they changed. -/
def settleSlot (s : Slot) : JournalM β Unit := do
  let j ← get
  match j.slots[s]? with
  | none => return
  | some value =>
    if j.isDestroyed s.address then
      set { j with slots := j.slots.insert s ⟨0, 0⟩ }
    else if value.present = value.initial then return
    else
      match Backend.setStorage j.backend s value.present with
      | .error e => throw e
      | .ok backend =>
        set { j with
          backend
          slots := j.slots.insert s ⟨value.present, value.present⟩ }

/-- Write one code. -/
def settleCode (hash : Hash) : JournalM β Unit := do
  let j ← get
  match j.codes[hash]? with
  | none => return
  | some code =>
    match Backend.setCode j.backend hash code with
    | .error e => throw e
    | .ok backend => set { j with backend }

/-- Settle one account. It is written if it changed, and deleted if it
    changed into an empty or missing one. -/
def settleAccount (a : Address) : JournalM β Unit := do
  let j ← get
  match j.accounts[a]? with
  | none => return
  | some cached =>
    if cached.present = cached.loaded then return
    else
      let kept := cached.present.filter fun account => !account.isEmpty
      let written :=
        match kept with
        | some account => Backend.setAccount j.backend a account
        | none => Backend.deleteAccount j.backend a
      match written with
      | .error e => throw e
      | .ok backend =>
        set { j with
          backend
          accounts := j.accounts.insert a ⟨kept, kept⟩ }

/-- An order in which changes are written. -/
structure WriteOrder where
  slots : List Slot
  codes : List Hash
  accounts : List Address

/-- Write the changes in a given order and end the transaction. -/
def settleIn (order : WriteOrder) : JournalM β (List Log) := do
  modify dropDestroyed
  order.slots.forM settleSlot
  order.codes.forM settleCode
  order.accounts.forM settleAccount
  modifyGet endTransaction

/-- Everything that may have to be written, in ascending order. -/
def ascending (j : Journal β) : WriteOrder :=
  ⟨j.slots.keys, j.newCode.toList, j.accounts.keys⟩

/-- **Settlement**: write the changes and end the transaction; the logs come
    back. -/
def settle : JournalM β (List Log) := do
  settleIn (ascending (← get))

end Evm.Journal
