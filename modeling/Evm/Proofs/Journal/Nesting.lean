import Evm.Proofs.Journal.Footprint
import Evm.State.Database

/-! # Nested checkpoints

    Everything that can be done with the state between taking a checkpoint
    and reverting to it: reads, writes, failures, and scopes of its own, each
    opened by a snapshot and released, innermost first, by a commit or a
    revert.

    The invariant along such a script is `Scopes`: the state reverts to the
    innermost open checkpoint, the state there to the next one, and so on down
    to the start. One event keeps it (`Event.run_scopes`), hence a whole
    script does, and reverting to the start restores it
    (`revert_restores_checkpoint`).
-/

namespace Evm.Journal

variable {β : Type} [Backend β]

/-! ## Operations and events -/

/-- The operations on the state, checkpoints and the end of the transaction
    apart. -/
inductive Operation where
  | account (a : Address)
  | isPresent (a : Address)
  | isEmpty (a : Address)
  | balance (a : Address)
  | nonce (a : Address)
  | code (a : Address)
  | storage (s : Slot)
  | slot (s : Slot)
  | blockHash (number : Nat)
  /-- The questions that are answered without the store. -/
  | tload (s : Slot)
  | isWarmAddress (a : Address)
  | isWarmSlot (s : Slot)
  | isCreated (a : Address)
  | isDestroyed (a : Address)
  | emitted
  | setBalance (a : Address) (balance : Word)
  | addBalance (a : Address) (amount : Word)
  | subBalance (a : Address) (amount : Word)
  | transfer (source target : Address) (amount : Word)
  | setNonce (a : Address) (nonce : Nat)
  | incrementNonce (a : Address)
  | setCode (a : Address) (code : Bytes)
  | setStorage (s : Slot) (value : Word)
  | tstore (s : Slot) (value : Word)
  | warmAddress (a : Address)
  | warmSlot (s : Slot)
  | addLog (log : Log)
  | markCreated (a : Address)
  | markDestroyed (a : Address)

/-- The state after an operation, whether it succeeded or failed. -/
def Operation.run (op : Operation) (j : Journal β) : Journal β :=
  match op with
  | .account a => endState (Journal.account a j)
  | .isPresent a => endState (Journal.isPresent a j)
  | .isEmpty a => endState (Journal.isEmpty a j)
  | .balance a => endState (Journal.balance a j)
  | .nonce a => endState (Journal.nonce a j)
  | .code a => endState (Journal.code a j)
  | .storage s => endState (Journal.storage s j)
  | .slot s => endState (Journal.slot s j)
  | .blockHash n => endState (Journal.blockHash n j)
  | .tload _ | .isWarmAddress _ | .isWarmSlot _ | .isCreated _ | .isDestroyed _ | .emitted => j
  | .setBalance a b => endState (Journal.setBalance a b j)
  | .addBalance a amount => endState (Journal.addBalance a amount j)
  | .subBalance a amount => endState (Journal.subBalance a amount j)
  | .transfer source target amount => endState (Journal.transfer source target amount j)
  | .setNonce a n => endState (Journal.setNonce a n j)
  | .incrementNonce a => endState (Journal.incrementNonce a j)
  | .setCode a c => endState (Journal.setCode a c j)
  | .setStorage s value => endState (Journal.setStorage s value j)
  | .tstore s value => j.tstore s value
  | .warmAddress a => (j.warmAddress a).2
  | .warmSlot s => (j.warmSlot s).2
  | .addLog log => j.addLog log
  | .markCreated a => j.markCreated a
  | .markDestroyed a => j.markDestroyed a

/-- What may happen after a checkpoint was taken. -/
inductive Event where
  | operation (op : Operation)
  /-- Open a scope. -/
  | snapshot
  /-- Release the innermost scope and keep what was done in it. -/
  | commit
  /-- Release the innermost scope and undo what was done in it. -/
  | revert

/-- The state after an event, and the checkpoints of the open scopes,
    innermost first. Only open scopes can be released. -/
def Event.run : Event → Journal β × List Checkpoint → Journal β × List Checkpoint
  | .operation op, (j, marks) => (op.run j, marks)
  | .snapshot, (j, marks) => (j, j.checkpoint :: marks)
  | .commit, (j, marks) => (j, marks.tail)
  | .revert, (j, mark :: marks) => (j.revert mark, marks)
  | .revert, (j, []) => (j, [])

/-- The state after a script of events that starts with no scope open. -/
def runScript (b : Journal β) (events : List Event) : Journal β :=
  (events.foldl (fun state event => event.run state) (b, [])).1

/-! ## The invariant -/

/-- Every operation is a sequence of edits. -/
theorem Operation.run_changes (op : Operation) (j : Journal β) :
    Changes Edit.Any j (op.run j) := by
  have hany : ∀ e, Edit.Any e := fun _ => trivial
  cases op with
  | account a => exact account_edits (hany _) j
  | isPresent a => exact isPresent_edits (hany _) j
  | isEmpty a => exact isEmpty_edits (hany _) j
  | balance a => exact balance_edits (hany _) j
  | nonce a => exact nonce_edits (hany _) j
  | code a => exact code_edits (hany _) (fun _ _ => hany _) j
  | storage s => exact storage_edits (hany _) j
  | slot s => exact slot_edits (hany _) j
  | blockHash n => exact blockHash_edits n j
  | tload s => exact .refl j
  | isWarmAddress a => exact .refl j
  | isWarmSlot s => exact .refl j
  | isCreated a => exact .refl j
  | isDestroyed a => exact .refl j
  | emitted => exact .refl j
  | setBalance a b => exact setBalance_edits (hany _) (fun _ => hany _) j
  | addBalance a amount => exact addBalance_edits (hany _) (fun _ _ _ => hany _) j
  | subBalance a amount => exact subBalance_edits (hany _) (fun _ _ _ => hany _) j
  | transfer source target amount =>
    exact transfer_edits (fun _ => hany _) (fun _ _ _ _ _ => hany _) (fun _ _ _ _ _ => hany _) j
  | setNonce a n => exact setNonce_edits (hany _) (fun _ => hany _) j
  | incrementNonce a => exact incrementNonce_edits (hany _) (fun _ _ => hany _) j
  | setCode a c =>
    exact setCode_edits (hany _) (fun _ => hany _) (fun _ => hany _) (fun _ _ => hany _) j
  | setStorage s value => exact setStorage_edits (hany _) (hany _) j
  | tstore s value => exact tstore_changes j (hany _)
  | warmAddress a => exact warmAddress_changes j (hany _)
  | warmSlot s => exact warmSlot_changes j (hany _)
  | addLog log => exact addLog_changes j (hany _)
  | markCreated a => exact markCreated_changes j (hany _)
  | markDestroyed a => exact markDestroyed_changes j (hany _)

/-- The open scopes lie on one another: the state reverts to the innermost
    checkpoint, the state at that one to the next, and the last to `b`. -/
inductive Scopes (b : Journal β) : List Checkpoint → Journal β → Prop where
  | start {j : Journal β} : RevertsTo b j → Scopes b [] j
  | inner {m j : Journal β} {marks : List Checkpoint} :
    Scopes b marks m → RevertsTo m j → Scopes b (m.checkpoint :: marks) j

namespace Scopes

variable {b j j' : Journal β} {marks : List Checkpoint}

theorem trans (h : Scopes b marks j) (hjj' : RevertsTo j j') : Scopes b marks j' := by
  cases h with
  | start hb => exact .start (hb.trans hjj')
  | inner hm hj => exact .inner hm (hj.trans hjj')

/-- Whatever scopes are open, the state reverts to the start. -/
theorem revertsTo (h : Scopes b marks j) : RevertsTo b j := by
  induction h with
  | start hb => exact hb
  | inner _ hj ih => exact ih.trans hj

end Scopes

/-- **One event keeps the scopes in order.** -/
theorem Event.run_scopes {b j : Journal β} {marks : List Checkpoint} (event : Event)
    (h : Scopes b marks j) : Scopes b (event.run (j, marks)).2 (event.run (j, marks)).1 := by
  cases event with
  | operation op => exact h.trans (op.run_changes j).revertsTo
  | snapshot => exact .inner h (RevertsTo.refl j)
  | commit =>
    cases h with
    | start hb => exact .start hb
    | inner hm hj => exact hm.trans hj
  | revert =>
    cases h with
    | start hb => exact .start hb
    | inner hm hj => exact hm.trans hj.restored.revertsTo

/-- A script keeps the scopes in order. -/
theorem foldl_scopes {b j : Journal β} {marks : List Checkpoint} (events : List Event)
    (h : Scopes b marks j) :
    Scopes b (events.foldl (fun state event => event.run state) (j, marks)).2
      (events.foldl (fun state event => event.run state) (j, marks)).1 := by
  induction events generalizing j marks with
  | nil => exact h
  | cons event events ih => exact ih (event.run_scopes h)

/-! ## The theorem -/

/-- **Reverting restores the checkpoint.** Whatever was done since a
    checkpoint was taken, failures and scopes of its own included, reverting
    to it brings back the journal and everything that is kept for the
    transaction, the account that every address had, which is that of the
    store if it was read since, and every slot that was cached. -/
theorem revert_restores_checkpoint (b : Journal β) (events : List Event) :
    let r := (runScript b events).revert b.checkpoint
    r.entries = b.entries ∧ r.logs = b.logs ∧ r.transient = b.transient ∧
    r.warmAddresses = b.warmAddresses ∧ r.warmSlots = b.warmSlots ∧
    r.created = b.created ∧ r.destroyed = b.destroyed ∧ r.newCode = b.newCode ∧
    (∀ a, r.presentAccount a = b.presentAccount a) ∧
    (∀ (a : Address) (cached : CachedAccount), b.accounts[a]? = none →
      r.accounts[a]? = some cached → Backend.account? b.backend a = .ok cached.present) ∧
    (∀ (s : Slot) (value : SlotValue), b.slots[s]? = some value → r.slots[s]? = some value) := by
  intro r
  have hstart : Scopes b [] b := .start (RevertsTo.refl b)
  have hscopes : Scopes b _ (runScript b events) := foldl_scopes events hstart
  have hr : Restored b r := hscopes.revertsTo.restored
  refine ⟨hr.entries, hr.logs, hr.transient, hr.warmAddresses, hr.warmSlots, hr.created,
    hr.destroyed, hr.newCode, hr.presentAccount_eq, ?_, hr.slots⟩
  intro a cached hnone hsome
  exact (hr.readAccounts a cached hnone hsome).2

/-- A script with scopes of its own, in which one transfer is undone and a
    later one is kept until the end. The two accounts that it reads stay
    cached as the store has them. -/
theorem revert_restores_checkpoint_nested :
    let rich : Address := .ofNat 7
    let poor : Address := .ofNat 8
    let store : Database :=
      { Database.empty with accounts := Std.ExtTreeMap.empty.insert rich ⟨1, 5, emptyCodeHash⟩ }
    let b : Journal Database := .ofBackend store
    let events : List Event :=
      [.snapshot, .operation (.transfer rich poor 5), .revert, .snapshot,
        .operation (.transfer rich poor 2), .operation (.warmAddress poor), .commit]
    let r := (runScript b events).revert b.checkpoint
    (runScript b events).entries.length = 3 ∧ r.entries = b.entries ∧
      ∀ a ∈ [rich, poor], b.accounts[a]? = none ∧
        ∃ cached, r.accounts[a]? = some cached ∧
          Backend.account? b.backend a = .ok cached.present := by
  intro rich poor store b events r
  obtain ⟨hentries, _, _, _, _, _, _, _, _, hread, _⟩ := revert_restores_checkpoint b events
  have hlength : (runScript b events).entries.length = 3 := by decide +kernel
  have hcached : ∀ a ∈ [rich, poor], (r.accounts[a]?).isSome := by decide +kernel
  refine ⟨hlength, hentries, ?_⟩
  intro a ha
  obtain ⟨cached, hsome⟩ := Option.isSome_iff_exists.mp (hcached a ha)
  exact ⟨rfl, cached, hsome, hread a cached rfl hsome⟩

end Evm.Journal
