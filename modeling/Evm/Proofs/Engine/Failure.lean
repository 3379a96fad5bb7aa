import Evm.Proofs.Engine.Invariant
import Evm.State.Database

/-! # Failed calls and creations

    A call that fails undoes everything that it and all its frames did, in
    whichever way it fails. So does a creation, but for what it counts before
    its checkpoint: the nonce of the creator and the access to the new
    address.
-/

namespace Evm

open Journal

variable {β : Type} [Backend β]

/-- Two states agree in everything that a transaction can observe: in the
    account of every address, and in all that was kept for the transaction.
    Of the cached slots both values agree. -/
structure SameState (b j : Journal β) : Prop where
  accounts : ∀ a, j.presentAccount a = b.presentAccount a
  slots : ∀ (s : Slot) (value : SlotValue), b.slots[s]? = some value → j.slots[s]? = some value
  transient : j.transient = b.transient
  warmAddresses : j.warmAddresses = b.warmAddresses
  warmSlots : j.warmSlots = b.warmSlots
  logs : j.logs = b.logs
  created : j.created = b.created
  destroyed : j.destroyed = b.destroyed
  newCode : j.newCode = b.newCode

/-- The states around a creation that counted the nonce of its creator up by
    one and accessed the address derived from the old nonce, and left
    everything else as it was. A creator that was missing is there afterwards,
    since it has a nonce. -/
structure OnlyCounted (message : CreateMessage) (b j : Journal β) : Prop where
  creator : ∃ old, b.presentAccount message.caller = .ok old ∧
    j.presentAccount message.caller =
      .ok (some { old.getD .empty with nonce := (old.getD .empty).nonce + 1 }) ∧
    j.warmAddresses =
      b.warmAddresses.insert (Engine.newAddress message (old.getD .empty).nonce)
  accounts : ∀ a, a ≠ message.caller → j.presentAccount a = b.presentAccount a
  slots : ∀ (s : Slot) (value : SlotValue), b.slots[s]? = some value → j.slots[s]? = some value
  transient : j.transient = b.transient
  warmSlots : j.warmSlots = b.warmSlots
  logs : j.logs = b.logs
  created : j.created = b.created
  destroyed : j.destroyed = b.destroyed
  newCode : j.newCode = b.newCode

namespace Journal

variable {b j : Journal β}

theorem Restored.sameState (h : Restored b j) : SameState b j where
  accounts := h.presentAccount_eq
  slots := h.slots
  transient := h.transient
  warmAddresses := h.warmAddresses
  warmSlots := h.warmSlots
  logs := h.logs
  created := h.created
  destroyed := h.destroyed
  newCode := h.newCode

end Journal

namespace Engine

/-- Counting is of the creator's account alone. -/
theorem Counted.others {message : CreateMessage} {nonce : Nat} {b j : Journal β}
    (h : Counted message nonce b j) {a : Address} (ha : a ≠ message.caller) :
    j.presentAccount a = b.presentAccount a := by
  have hkept : KeptBy (fun k : Journal β => k.presentAccount a = b.presentAccount a)
      message.Counts := by
    intro e k k' he happ hk
    rw [← hk]
    apply happ.presentAccount_of_ne
    rintro previous new rfl
    exact ha he.1
  exact hkept.changes h.changes rfl

/-- A creation that was restored to where it had counted has only counted. -/
theorem Counted.onlyCounted {message : CreateMessage} {nonce : Nat} {b counted j : Journal β}
    (h : Counted message nonce b counted) (hj : Restored counted j) :
    OnlyCounted message b j := by
  have hsame : ∀ p : Part, p ≠ .accounts → p ≠ .warmAddresses → p.Same b counted := by
    intro p haccounts hwarm
    refine h.changes.same fun e he hp => ?_
    cases e <;> first | exact haccounts hp.symm | exact hwarm hp.symm | exact he
  obtain ⟨old, hold, rfl, hnew⟩ := h.creator
  have hslots : counted.slots = b.slots := hsame .slots nofun nofun
  refine ⟨⟨old, hold, ?_, ?_⟩, ?_, ?_, ?_, ?_, ?_, ?_, ?_, ?_⟩
  · rw [hj.presentAccount_eq, hnew]
  · rw [hj.warmAddresses, h.warmAddresses]
  · intro a ha
    rw [hj.presentAccount_eq, h.others ha]
  · intro s value hs
    rw [← hslots] at hs
    exact hj.slots s value hs
  · exact hj.transient.trans (hsame .transient nofun nofun)
  · exact hj.warmSlots.trans (hsame .warmSlots nofun nofun)
  · exact hj.logs.trans (hsame .logs nofun nofun)
  · exact hj.created.trans (hsame .created nofun nofun)
  · exact hj.destroyed.trans (hsame .destroyed nofun nofun)
  · exact hj.newCode.trans (hsame .newCode nofun nofun)

/-- **A failure leaves no trace.** Whatever code runs and however its frames
    nest, a call that is not a success leaves the state that it found. A
    creation that is not a success does, too, or else it has only counted. -/
theorem failure_undone (e : Engine β) :
    (∀ message, (call message e).1.isSuccess = false →
      SameState e.journal (call message e).2.journal) ∧
    (∀ message, (create message e).1.isSuccess = false →
      SameState e.journal (create message e).2.journal ∨
        OnlyCounted message e.journal (create message e).2.journal) := by
  have hundoable : Undoable fun _ : Journal β => True := fun _ _ _ _ _ _ _ => trivial
  have hkept : ∀ ok, KeptBy (fun _ : Journal β => True) ok := fun _ _ _ _ _ _ _ => trivial
  constructor
  · intro message hfailure
    obtain ⟨_, hrestored⟩ := call_keeps hundoable trivial (hkept _) (e := e)
      fun _ _ => hkept _
    exact (hrestored hfailure).sameState
  · intro message hfailure
    obtain ⟨_, hrestored⟩ := create_keeps hundoable trivial (hkept _) (e := e)
      fun _ _ => hkept _
    rcases hrestored hfailure with hsame | ⟨nonce, counted, hcounted, hj⟩
    · exact .inl hsame.sameState
    · exact .inr (hcounted.onlyCounted hj)

/-- An engine over a store with one contract, which sets a slot and then runs
    into an instruction that there is not. -/
def halting : Engine Database :=
  let code : Bytes := ⟨#[0x60, 1, 0x60, 0, 0x55, 0xfe]⟩
  let store : Database :=
    { Database.empty with
      accounts := Std.ExtTreeMap.empty.insert (.ofNat 7) ⟨1, 0, ⟨1⟩⟩
      code := Std.ExtTreeMap.empty.insert ⟨1⟩ code }
  ⟨.ofBackend store, .default, .ofHardfork .cancun, ∅, .empty⟩

/-- A call of the contract fails after it has written, and a creation by an
    account without a balance is refused. -/
theorem failure_undone_halting :
    let message : CallMessage :=
      ⟨.call, .ofNat 3, .ofNat 7, .ofNat 7, .transfer 0, ByteArray.empty, 50000, false, 0⟩
    let creation : CreateMessage := ⟨.ofNat 3, .create, 1, ByteArray.empty, 50000, 0⟩
    (call message halting).1.isSuccess = false ∧
      SameState halting.journal (call message halting).2.journal ∧
      (create creation halting).1.isSuccess = false ∧
      (SameState halting.journal (create creation halting).2.journal ∨
        OnlyCounted creation halting.journal (create creation halting).2.journal) := by
  intro message creation
  have hcall : (call message halting).1.isSuccess = false := by decide +kernel
  have hcreate : (create creation halting).1.isSuccess = false := by decide +kernel
  exact ⟨hcall, (failure_undone halting).1 message hcall, hcreate,
    (failure_undone halting).2 creation hcreate⟩

end Engine

end Evm
