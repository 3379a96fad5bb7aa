import Evm.Proofs.Engine.Layers
import Evm.Proofs.Engine.Metering
import Evm.Proofs.Engine.Session
import Evm.Proofs.Frame.Refunds
import Evm.Proofs.Journal.Ledger

/-! # What the engine does to what is owed

    Of all that a frame has its host do, a write to a slot and a destruction move
    what the state owes in refunds, and each of them by no more than the frame
    books for it (`sstore_owed`, `destroy_owed`). Opening and closing frames
    leaves it alone.
-/

namespace Evm

open Journal

variable {β : Type} [Backend β]

/-! ## Edits -/

theorem Edit.Light.owesNothing {edit : Edit} (h : edit.Light) : ¬edit.MovesOwed := by
  cases edit <;> first | exact h.elim | exact id

theorem CreateMessage.opens_owesNothing {message : CreateMessage} {address : Address}
    {edit : Edit} (h : message.Opens address edit) : ¬edit.MovesOwed := by
  cases edit <;> first | exact h.elim | exact id

namespace Journal

/-- A write to a slot that was loaded. -/
theorem setStorage_ok {s : Slot} {value previous : Word} {cached : SlotValue} {j j' : Journal β}
    (hcached : j.slots[s]? = some cached) (h : setStorage s value j = .ok previous j') :
    (Edit.storage s value).Applies j j' := by
  have hload : loadSlot s j = .ok cached j := by
    unfold loadSlot
    simp only [bind_apply, get_apply, hcached, pure_apply]
  unfold setStorage at h
  rw [bind_apply, hload] at h
  cases h
  exact .storage value hcached

end Journal

namespace Engine

variable {α : Type} {e e' : Engine β} {fork : Hardfork}

/-! ## Uses -/

/-- A use that is not booked moves nothing of what is owed. -/
theorem use_owed {use : HostUse} (huse : ¬use.IsBooked) (e : Engine β) (fork : Hardfork) :
    (endState (use.perform e)).journal.owed fork = e.journal.owed fork :=
  (use_incidental huse e).1.owed_eq (fun _ h => h.light.owesNothing) fork

/-- An operation that moves nothing of what is owed, after a success. -/
theorem HostEdits.owed_eq {op : HostM (Engine β) α} {a : α}
    (hop : HostEdits (fun edit => ¬edit.MovesOwed) op) (h : op e = .ok a e') (fork : Hardfork) :
    e'.journal.owed fork = e.journal.owed fork ∧
      e'.journal.destroyed = e.journal.destroyed := by
  have hedited := hop e
  rw [h] at hedited
  exact ⟨hedited.1.owed_eq (fun _ h => h) fork, hedited.1.destroyed_eq fun _ h => h⟩

/-- **A write to a slot** moves what is owed by no more than the frame books for
    it. -/
theorem sstore_owed {s : Slot} {value : Word} {outcome : StoreOutcome}
    (h : Host.sstore s value e = .ok outcome e') (fork : Hardfork) :
    e'.journal.owed fork ≤ e.journal.owed fork +
      Gas.sstoreRefund fork outcome.initial outcome.present outcome.new := by
  obtain ⟨isCold, e1, htouch, h⟩ := bind_ok h
  obtain ⟨cached, e2, hload, h⟩ := bind_ok h
  obtain ⟨previous, e3, hset, h⟩ := bind_ok h
  cases h
  -- up to the write the slot is only looked at
  have htouched := (HostEdits.touchSlot (s := s) id).owed_eq htouch fork
  have hloaded := (HostEdits.onState (slot_edits (s := s) id)).owed_eq hload fork
  have hcached : e2.journal.slots[s]? = some cached := (loadSlot_ok (onState_ok hload)).1
  have hwritten := setStorage_ok hcached (onState_ok hset)
  have hmoved := hwritten.storage_owed hcached fork
  have hcovered : SlotValue.owed fork ⟨cached.initial, value⟩ ≤
      cached.owed fork + Gas.sstoreRefund fork cached.initial cached.present value :=
    Gas.sstoreRefund_covers fork cached.initial cached.present value
  simp only
  omega

/-- The end of a destruction. -/
theorem scheduleDeletion_owed {address : Address} {u : Unit}
    (h : scheduleDeletion address e = .ok u e') (fork : Hardfork) :
    e'.journal.owed fork ≤ e.journal.owed fork +
      if !fork.includes .london && !e.journal.isDestroyed address then
        Gas.selfDestructRefund else 0 := by
  unfold scheduleDeletion at h
  obtain ⟨_, _, hget, h⟩ := bind_ok h
  cases hget
  split at h
  · obtain ⟨_, e1, hset, h⟩ := bind_ok h
    cases h
    have hemptied := (HostEdits.onState (setBalance_edits id fun _ => id)).owed_eq hset fork
    have hmarked := e1.journal.markDestroyed_owed address fork
    unfold isDestroyed at hmarked ⊢
    rw [hemptied.1, hemptied.2] at hmarked
    exact hmarked
  · cases h
    unfold Gas.selfDestructRefund
    split <;> omega

/-- **A destruction** moves what is owed by no more than the frame books for
    it. -/
theorem destroy_owed {address target : Address} {outcome : DestructOutcome}
    (h : destroy address target e = .ok outcome e') (fork : Hardfork) :
    e'.journal.owed fork ≤ e.journal.owed fork +
      if !fork.includes .london && !outcome.previouslyDestroyed then
        Gas.selfDestructRefund else 0 := by
  unfold destroy at h
  obtain ⟨isCold, e1, htouch, h⟩ := bind_ok h
  obtain ⟨balance, e2, hbalance, h⟩ := bind_ok h
  obtain ⟨isEmpty, e3, hempty, h⟩ := bind_ok h
  obtain ⟨_, _, hget, h⟩ := bind_ok h
  cases hget
  obtain ⟨_, e4, hsweep, h⟩ := bind_ok h
  obtain ⟨_, e5, hdelete, h⟩ := bind_ok h
  cases h
  have htouched := (HostEdits.touch (a := target) id).owed_eq htouch fork
  have hasked := (HostEdits.onState (balance_edits id)).owed_eq hbalance fork
  have hlooked := (HostEdits.onState (isEmpty_edits id)).owed_eq hempty fork
  have hmoves : HostEdits (fun edit => ¬edit.MovesOwed)
      (sweep address target balance : HostM (Engine β) Unit) := by
    refine .ite (fun _ => .onState ?_) fun _ => .pure _
    exact transfer_edits (fun _ => id) (fun _ _ _ _ _ => id) fun _ _ _ _ _ => id
  have hswept := hmoves.owed_eq hsweep fork
  -- whether the account was marked is asked before the sweep, which marks nothing
  have hdeleted := scheduleDeletion_owed hdelete fork
  unfold isDestroyed at hdeleted ⊢
  rw [hswept.1, hswept.2] at hdeleted
  rw [← htouched.1, ← hasked.1, ← hlooked.1]
  exact hdeleted

/-! ## Opening frames -/

end Engine

/-- A frame of this kind is what the frame below it waits for. -/
def FrameKind.AwaitedBy : FrameKind → Frame → Prop
  | .call _, frame => ∃ outOffset outLen, frame.waiting = some (.call outOffset outLen)
  | .create _ _, frame => frame.waiting = some .create

namespace Request

variable {request : Request} {e e' : Engine β}

/-- **Opening a frame leaves what is owed alone**, also at its checkpoint. The new
    frame is what the request is awaited for. -/
theorem start_owed (request : Request) (e : Engine β) (fork : Hardfork) :
    Engine.Opens (fun j => j.owed fork = e.journal.owed fork)
      (fun kind => ∀ frame, request.AwaitedBy frame → kind.AwaitedBy frame) e
      (request.start e) := by
  cases request with
  | call message =>
    have hstart := Engine.startCall_spec message e
    have hopens : ∀ {j : Journal β}, Changes message.Opens e.journal j →
        j.owed fork = e.journal.owed fork :=
      fun h => h.owed_eq (fun _ h => (CallMessage.opens_light h).owesNothing) fork
    show Engine.Opens _ _ e (Engine.startCall message e)
    generalize Engine.startCall message e = out at hstart
    cases hstart with
    | failed _ _ hchanges => exact .done (hchanges.revertsTo.restored.owed_eq fork)
    | settled _ _ hchanges => exact .done (hopens hchanges)
    | opened hchanges =>
      exact .run (.refl _) rfl rfl hchanges.revertsTo (hopens hchanges) fun _ h => h
  | create message =>
    have hstart := Engine.startCreate_spec message e
    have hcount : ∀ {nonce : Nat} {b : Journal β}, Engine.Counted message nonce e.journal b →
        b.owed fork = e.journal.owed fork :=
      fun h => h.changes.owed_eq (fun _ h => (CreateMessage.counts_light h).owesNothing) fork
    show Engine.Opens _ _ e (Engine.startCreate message e)
    generalize Engine.startCreate message e = out at hstart
    cases hstart with
    | refused _ _ hlooks => exact .done (hlooks.owed_eq (fun _ h => h.light.owesNothing) fork)
    | failed _ _ hcounted hopens =>
      exact .done ((hopens.revertsTo.restored.owed_eq fork).trans (hcount hcounted))
    | opened hcounted hopens =>
      have hsame := hopens.owed_eq (fun _ h => CreateMessage.opens_owesNothing h) fork
      exact .run hcounted.changes.revertsTo (hcount hcounted) rfl hopens.revertsTo
        (hsame.trans (hcount hcounted)) fun _ h => h

/-- An answer that is settled at once can be taken, and books nothing. -/
theorem start_answer {result : FrameResult} {frame : Frame} (hwaits : request.AwaitedBy frame)
    (h : request.start e = (.done result, e')) : frame.Takes result ∧ result.refund = 0 := by
  constructor
  · cases request with
    | call message =>
      obtain ⟨outOffset, outLen, hwaiting⟩ := hwaits
      exact ⟨_, hwaiting, nofun⟩
    | create message =>
      have hfailure : result.isSuccess = false := by
        have hstart := Engine.startCreate_spec message e
        rw [show Engine.startCreate message e = (.done result, e') from h] at hstart
        cases hstart <;> assumption
      refine ⟨_, hwaits, fun _ hsuccess => ?_⟩
      rw [hfailure] at hsuccess
      cases hsuccess
  · unfold FrameResult.refund
    rw [(start_meter h).2, ite_self]

/-- The rules of a new frame are those of the engine. -/
theorem start_hardfork {child : Activation} (h : request.start e = (.run child, e')) :
    child.frame.hardfork = e.config.hardfork := by
  cases request with
  | call message =>
    have hstart := Engine.startCall_spec message e
    rw [show Engine.startCall message e = (.run child, e') from h] at hstart
    cases hstart
    rfl
  | create message =>
    have hstart := Engine.startCreate_spec message e
    rw [show Engine.startCreate message e = (.run child, e') from h] at hstart
    cases hstart
    rfl

end Request

/-! ## Closing frames -/

namespace Engine

variable {kind : FrameKind} {ending : Ending} {e e' : Engine β} {result : FrameResult}

/-- A frame that is closed with success tells the counter that it ended with;
    one that is not tells it, too, or tells of an empty meter. -/
theorem endFrame_refunded (h : endFrame kind ending e = (result, e')) :
    result.gas.refunded = ending.gas.refunded ∨
      result.isSuccess = false ∧ result.gas.refunded = 0 := by
  have hgas := endFrame_gas kind ending e
  rw [h] at hgas
  rcases hgas with hsame | ⟨hfailure, hempty⟩ | hcharge
  · rw [hsame]
    exact .inl rfl
  · rw [hempty]
    exact .inr ⟨hfailure, rfl⟩
  · rw [(Gas.charge?_ok hcharge).2]
    exact .inl rfl

/-- A success leaves alone what is owed. -/
theorem endFrame_owed (h : endFrame kind ending e = (result, e'))
    (hsuccess : result.isSuccess = true) (fork : Hardfork) :
    e'.journal.owed fork = e.journal.owed fork := by
  have hclosed := endFrame_spec kind ending e
  rw [h] at hclosed
  cases hclosed with
  | kept _ _ hchanges =>
    refine hchanges.owed_eq (fun edit hedit => ?_) fork
    cases kind with
    | call checkpoint => exact hedit.elim
    | create checkpoint address => exact hedit.light.owesNothing
  | undone hfailure _ _ =>
    rw [hsuccess] at hfailure
    cases hfailure

/-- The frame below takes the answer. -/
theorem endFrame_takes {frame : Frame} (h : endFrame kind ending e = (result, e'))
    (hwaits : kind.AwaitedBy frame) : frame.Takes result := by
  cases kind with
  | call checkpoint =>
    obtain ⟨outOffset, outLen, hwaiting⟩ := hwaits
    exact ⟨_, hwaiting, nofun⟩
  | create checkpoint address =>
    refine ⟨_, hwaits, fun _ hsuccess => ?_⟩
    rw [(endCreate_ok h hsuccess).2]
    rfl

end Engine

end Evm
