import Evm.Proofs.Journal.Footprint
import Evm.State.Database

/-! # Writes that fail

    A write of an account or slot is one change of the cache and one entry in
    the journal, and it comes last: a write that fails has read something at
    most (`Unchanged`).

    Two writes are made of two parts. A transfer debits one account and then
    credits another, and code is put on the list of codes before its account
    is looked at. If the second part fails, the first one stays done
    (`failed_write`), and what was done is there to be undone: reverting to
    the checkpoint before the write takes it back.
-/

namespace Evm

open Journal

variable {β : Type} [Backend β]

/-! ## Unchanged states -/

/-- Two states agree in the account of every address, in the value of every
    slot, in all that is kept for the transaction, in the codes to be written
    and in the journal. -/
structure Unchanged (b j : Journal β) : Prop where
  accounts : ∀ a, j.presentAccount a = b.presentAccount a
  storage : ∀ s, j.presentStorage s = b.presentStorage s
  transient : j.transient = b.transient
  warmAddresses : j.warmAddresses = b.warmAddresses
  warmSlots : j.warmSlots = b.warmSlots
  logs : j.logs = b.logs
  created : j.created = b.created
  destroyed : j.destroyed = b.destroyed
  newCode : j.newCode = b.newCode
  entries : j.entries = b.entries
  backend : j.backend = b.backend

namespace Unchanged

variable {b j k : Journal β}

/-- A snapshot gives the same checkpoint. -/
theorem checkpoint_eq (h : Unchanged b j) : j.checkpoint = b.checkpoint := by
  unfold checkpoint
  rw [h.entries]

/-- Reads change nothing. -/
theorem of_reads (h : Changes Edit.IsRead b j) : Unchanged b j := by
  have hrestored : Restored b j := h.restored
  refine
    { accounts := hrestored.presentAccount_eq
      storage := ?_
      transient := hrestored.transient
      warmAddresses := hrestored.warmAddresses
      warmSlots := hrestored.warmSlots
      logs := hrestored.logs
      created := hrestored.created
      destroyed := hrestored.destroyed
      newCode := hrestored.newCode
      entries := hrestored.entries
      backend := hrestored.backend }
  intro s
  refine h.invariant (P := fun k : Journal β => k.presentStorage s = b.presentStorage s) ?_ rfl
  intro e k k' hread happ hk
  rw [← hk]
  apply happ.presentStorage_of_ne
  · rintro new rfl
    exact hread
  · rintro rfl
    exact hread

/-- What was written without touching a slot is taken back as a whole. -/
theorem of_reverted (h : RevertsTo b j) (hslots : j.slots = b.slots) :
    Unchanged b (j.revert b.checkpoint) := by
  have hrestored : Restored b (j.revert b.checkpoint) := h.restored
  refine
    { accounts := hrestored.presentAccount_eq
      storage := ?_
      transient := hrestored.transient
      warmAddresses := hrestored.warmAddresses
      warmSlots := hrestored.warmSlots
      logs := hrestored.logs
      created := hrestored.created
      destroyed := hrestored.destroyed
      newCode := hrestored.newCode
      entries := hrestored.entries
      backend := hrestored.backend }
  intro s
  unfold presentStorage
  cases hs : b.slots[s]? with
  | some value => rw [hrestored.slots s value hs]
  | none =>
    -- undoing neither caches a slot nor drops one
    have hinitial := revert_initial j b.checkpoint s
    rw [hslots, hs, Option.map_none, Option.map_eq_none_iff] at hinitial
    rw [hinitial]
    show storedValue _ s = b.storedValue s
    unfold storedValue
    rw [hrestored.created, hrestored.backend]

/-- What changed nothing is not taken back. -/
theorem revert (h : Unchanged b j) : Unchanged b (j.revert b.checkpoint) := by
  rw [← h.checkpoint_eq, revert_checkpoint]
  exact h

end Unchanged

/-! ## Writes -/

/-- The writes of accounts and slots. -/
inductive StateWrite where
  | setBalance (a : Address) (balance : Word)
  | addBalance (a : Address) (amount : Word)
  | subBalance (a : Address) (amount : Word)
  | transfer (source target : Address) (amount : Word)
  | setNonce (a : Address) (nonce : Nat)
  | incrementNonce (a : Address)
  | setCode (a : Address) (code : Bytes)
  | setStorage (s : Slot) (value : Word)

/-- Carry out a write, and forget what comes back. -/
def StateWrite.perform : StateWrite → JournalM β Unit
  | .setBalance a balance => Journal.setBalance a balance
  | .addBalance a amount => Journal.addBalance a amount
  | .subBalance a amount => Journal.subBalance a amount
  | .transfer source target amount => Journal.transfer source target amount
  | .setNonce a nonce => Journal.setNonce a nonce
  | .incrementNonce a => do let _ ← Journal.incrementNonce a
  | .setCode a code => do let _ ← Journal.setCode a code
  | .setStorage s value => do let _ ← Journal.setStorage s value

/-- What a write that fails with `e` leaves of `b`: nothing has changed, except
    that a transfer may have debited its source and failed to credit its
    target, and that code which was to be set stays on the list of codes. -/
def StateWrite.Leaves (e : StateError) (b j : Journal β) : StateWrite → Prop
  | .transfer source target amount =>
    Unchanged b j ∨
      ∃ debited, Journal.subBalance source amount b = .ok ⟨⟩ debited ∧
        Journal.addBalance target amount debited = .error e j ∧ Unchanged debited j
  | .setCode _ code =>
    Unchanged (if code.isEmpty then b else endState (queueCode (keccak256 code) code b)) j
  | _ => Unchanged b j

namespace Journal

variable {b j : Journal β} {e : StateError} {a source target : Address} {amount : Word}

/-! ## One part -/

/-- Reading one account is reading. -/
theorem Changes.isRead_of_account (h : Changes (· = .readAccount a) b j) :
    Changes Edit.IsRead b j := by
  refine h.mono ?_
  rintro e rfl
  trivial

/-- A change of an account that fails has read the account at most. -/
theorem modifyAccount_unchanged {f : Account → Except StateError Account}
    (h : modifyAccount a f b = .error e j) : Unchanged b j := by
  have hmodified := modifyAccount_spec a f b
  rw [h] at hmodified
  cases hmodified with
  | failed hreads => exact .of_reads hreads.isRead_of_account

theorem incrementNonce_unchanged (h : incrementNonce a b = .error e j) : Unchanged b j := by
  have hincremented := incrementNonce_spec a b
  rw [h] at hincremented
  cases hincremented with
  | failed hreads => exact .of_reads hreads.isRead_of_account

theorem setStorage_unchanged {s : Slot} {value : Word} (h : setStorage s value b = .error e j) :
    Unchanged b j := by
  have hload : Edits Edit.IsRead (loadSlot s : JournalM β SlotValue) := loadSlot_edits trivial
  have hreads := hload b
  rcases bind_error h with hfailed | ⟨cached, k, _, hrest⟩
  · rw [hfailed] at hreads
    exact .of_reads hreads
  · cases hrest

theorem balance_unchanged (h : balance a b = .error e j) : Unchanged b j := by
  have hread : Edits Edit.IsRead (balance a : JournalM β Word) := balance_edits trivial
  have hreads := hread b
  rw [h] at hreads
  exact .of_reads hreads

/-! ## Two parts -/

/-- An account that was read is loaded once more without the store. -/
theorem loadAccount_again {amount : Word} (h : balance a b = .ok amount j) :
    loadAccount a j = loadAccount a b := by
  obtain ⟨acc, j1, hacc, hamount⟩ := bind_ok h
  cases hamount
  obtain ⟨cached, j2, hload, hfound⟩ := bind_ok hacc
  cases hfound
  have hcached : j.accounts[a]? = some cached := (loadAccount_ok hload).1
  have hagain : loadAccount a j = .ok cached j := by
    unfold loadAccount
    simp only [bind_apply, get_apply, hcached, pure_apply]
  rw [hagain, hload]

/-- So the balance is taken from what was there before it was looked at. -/
theorem subBalance_after_balance {available : Word} (h : balance a b = .ok available j)
    (amount : Word) : subBalance a amount j = subBalance a amount b := by
  unfold subBalance modifyAccount
  rw [bind_apply, bind_apply, loadAccount_again h]

/-- **A transfer that fails** has changed nothing, or it has debited its source
    and could not credit its target. -/
theorem transfer_leaves (h : transfer source target amount b = .error e j) :
    StateWrite.Leaves e b j (.transfer source target amount) := by
  unfold transfer at h
  by_cases hamount : amount = 0
  · rw [if_pos hamount] at h
    cases h
  rw [if_neg hamount] at h
  rcases bind_error h with hunread | ⟨available, j1, hbalance, hrest⟩
  · exact .inl (balance_unchanged hunread)
  have hread : Edits Edit.IsRead (balance source : JournalM β Word) := balance_edits trivial
  have hreads := hread b
  rw [hbalance] at hreads
  by_cases hpoor : available.toNat < amount.toNat
  · rw [if_pos hpoor] at hrest
    cases hrest
    exact .inl (.of_reads hreads)
  rw [if_neg hpoor] at hrest
  by_cases hself : source = target
  · rw [if_pos hself] at hrest
    cases hrest
  rw [if_neg hself] at hrest
  have hsub := subBalance_after_balance hbalance amount
  rcases bind_error hrest with hdebit | ⟨_, debited, hdebit, hcredit⟩
  · rw [hsub] at hdebit
    exact .inl (modifyAccount_unchanged hdebit)
  · rw [hsub] at hdebit
    exact .inr ⟨debited, hdebit, hcredit, modifyAccount_unchanged hcredit⟩

/-- **Code that cannot be set** stays on the list of codes. -/
theorem setCode_leaves {code : Bytes} (h : setCode a code b = .error e j) :
    StateWrite.Leaves e b j (.setCode a code) := by
  show Unchanged _ j
  unfold setCode at h
  by_cases hempty : code.isEmpty
  · rw [if_pos hempty] at h ⊢
    rcases bind_error h with hset | ⟨_, k, _, hrest⟩
    · exact modifyAccount_unchanged hset
    · cases hrest
  · rw [if_neg hempty] at h ⊢
    rcases bind_error h with hqueue | ⟨_, queued, hqueue, hrest⟩
    · cases hqueue
    rcases bind_error hrest with hset | ⟨_, k, _, hdone⟩
    · rw [hqueue]
      exact modifyAccount_unchanged hset
    · cases hdone

end Journal

/-- Edits of accounts and codes touch no slot. -/
theorem Unchanged.of_slotless {ok : Edit → Prop} {b j : Journal β}
    (hok : ∀ e, ok e → e.part ≠ .slots) (h : Changes ok b j) :
    Unchanged b (j.revert b.checkpoint) :=
  .of_reverted h.revertsTo (h.same hok)

/-- A transfer is taken back as a whole, be it a success or a failure. -/
theorem transfer_taken_back (source target : Address) (amount : Word) (b : Journal β) :
    Unchanged b ((endState (transfer source target amount b)).revert b.checkpoint) := by
  have hedits :
      Edits (fun e => e.part ≠ .slots) (transfer source target amount : JournalM β Unit) :=
    transfer_edits (fun _ => nofun) (fun _ _ _ _ _ => nofun) (fun _ _ _ _ _ => nofun)
  exact .of_slotless (fun _ hpart => hpart) (hedits b)

theorem setCode_taken_back (a : Address) (code : Bytes) (b : Journal β) :
    Unchanged b ((endState (setCode a code b)).revert b.checkpoint) := by
  have hedits : Edits (fun e => e.part ≠ .slots) (setCode a code : JournalM β Hash) :=
    setCode_edits nofun (fun _ => nofun) (fun _ => nofun) (fun _ _ => nofun)
  exact .of_slotless (fun _ hpart => hpart) (hedits b)

/-! ## The theorem -/

/-- **Failed writes.** A write that fails, for a rule of the accounts or because
    the store refuses a read, changes nothing, in whatever state and over
    whatever store; except that a transfer which cannot credit its target
    leaves the debit of its source, and code which cannot be set stays on the
    list of codes to be written. What is left is in the journal: reverting to
    the checkpoint before the write brings everything back. -/
theorem failed_write (w : StateWrite) {b j : Journal β} {e : StateError}
    (h : w.perform b = .error e j) :
    w.Leaves e b j ∧ Unchanged b (j.revert b.checkpoint) := by
  have hsingle : Unchanged b j → Unchanged b j ∧ Unchanged b (j.revert b.checkpoint) :=
    fun hsame => ⟨hsame, hsame.revert⟩
  cases w with
  | setBalance a balance =>
    have hset : setBalance a balance b = .error e j := h
    exact hsingle (modifyAccount_unchanged hset)
  | addBalance a amount =>
    have hset : addBalance a amount b = .error e j := h
    exact hsingle (modifyAccount_unchanged hset)
  | subBalance a amount =>
    have hset : subBalance a amount b = .error e j := h
    exact hsingle (modifyAccount_unchanged hset)
  | setNonce a nonce =>
    have hset : setNonce a nonce b = .error e j := h
    exact hsingle (modifyAccount_unchanged hset)
  | incrementNonce a =>
    rcases bind_error h with hcount | ⟨_, k, _, hdone⟩
    · exact hsingle (incrementNonce_unchanged hcount)
    · cases hdone
  | setStorage s value =>
    rcases bind_error h with hset | ⟨_, k, _, hdone⟩
    · exact hsingle (setStorage_unchanged hset)
    · cases hdone
  | transfer source target amount =>
    have htransfer : transfer source target amount b = .error e j := h
    have hback := transfer_taken_back source target amount b
    rw [htransfer] at hback
    exact ⟨transfer_leaves htransfer, hback⟩
  | setCode a code =>
    rcases bind_error h with hset | ⟨_, k, _, hdone⟩
    · have hback := setCode_taken_back a code b
      rw [hset] at hback
      exact ⟨setCode_leaves hset, hback⟩
    · cases hdone

/-- A store in which the account at 7 has five coins, and the one at 8 as many
    as there can be. -/
def fullStore : Database :=
  { Database.empty with
    accounts := (Std.ExtTreeMap.empty.insert (.ofNat 7) ⟨0, 5, emptyCodeHash⟩).insert (.ofNat 8)
      ⟨0, Word.max, emptyCodeHash⟩ }

/-- A coin is paid to the account that is full: the credit overflows and the
    debit stays, until it is reverted. -/
theorem failed_write_full :
    let b : Journal Database := .ofBackend fullStore
    let w : StateWrite := .transfer (.ofNat 7) (.ofNat 8) 1
    ∃ j, w.perform b = .error (.balanceOverflow (.ofNat 8)) j ∧
      w.Leaves (.balanceOverflow (.ofNat 8)) b j ∧
      j.presentAccount (.ofNat 7) = .ok (some ⟨0, 4, emptyCodeHash⟩) ∧
      (j.revert b.checkpoint).presentAccount (.ofNat 7) = .ok (some ⟨0, 5, emptyCodeHash⟩) := by
  intro b w
  have hoverflow : (match w.perform b with
      | .error e _ => some e
      | .ok _ _ => none) = some (.balanceOverflow (.ofNat 8)) := by decide +kernel
  have hdebited : ((endState (w.perform b)).accounts[Address.ofNat 7]?).map
      CachedAccount.present = some (some ⟨0, 4, emptyCodeHash⟩) := by decide +kernel
  have hbefore : b.presentAccount (.ofNat 7) = .ok (some ⟨0, 5, emptyCodeHash⟩) := by
    have hstored : fullStore.accounts[Address.ofNat 7]? = some ⟨0, 5, emptyCodeHash⟩ := by
      decide +kernel
    show Except.ok fullStore.accounts[Address.ofNat 7]? = _
    rw [hstored]
  cases hperform : w.perform b with
  | ok u j =>
    rw [hperform] at hoverflow
    cases hoverflow
  | error e j =>
    rw [hperform] at hoverflow hdebited
    cases hoverflow
    obtain ⟨hleaves, hback⟩ := failed_write w hperform
    refine ⟨j, rfl, hleaves, ?_, (hback.accounts _).trans hbefore⟩
    obtain ⟨cached, hcached, hpresent⟩ := Option.map_eq_some_iff.mp hdebited
    unfold presentAccount
    rw [endState_error] at hcached
    rw [hcached, ← hpresent]

/-- So a write that fails may well change the state: the same transfer leaves an
    entry in the journal. -/
theorem failed_transfer_keeps_debit :
    ¬∀ (w : StateWrite) (b j : Journal Database) (e : StateError),
      w.perform b = .error e j → Unchanged b j := by
  intro hunchanged
  let w : StateWrite := .transfer (.ofNat 7) (.ofNat 8) 1
  have hfails : (match w.perform (.ofBackend fullStore) with
      | .error _ j => j.entries.length
      | .ok _ _ => 0) = 1 := by decide +kernel
  cases hperform : w.perform (.ofBackend fullStore) with
  | ok u j =>
    rw [hperform] at hfails
    cases hfails
  | error e j =>
    have hsame : j.entries = [] := (hunchanged w _ j e hperform).entries
    rw [hperform] at hfails
    simp only [hsame, List.length_nil] at hfails
    cases hfails

end Evm
