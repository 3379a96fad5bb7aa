import Evm.Proofs.Engine.Starts
import Evm.Proofs.Frame.Cost

/-! # Opening and closing frames

    What becomes of a request and of a frame that ends, as one relation each:
    how the engine is changed, what was edited under which checkpoint, and
    how much gas comes back. The driver is reasoned about through these
    relations only.

    All ways in which a call or creation fails have one shape: some edits
    were made under the checkpoint, and they are reverted.
-/

namespace Evm

open Journal

/-! ## Sets of edits -/

/-- What opening a call does: move its value and look the code up. -/
def CallMessage.Opens (message : CallMessage) : Edit → Prop
  | .readAccount _ | .learnCode _ _ => True
  | .account a previous new =>
    message.value.moved ≠ 0 ∧ message.caller ≠ message.target ∧
      (a = message.caller ∧ Debited message.value.moved previous new ∨
        a = message.target ∧ Credited message.value.moved previous new)
  | _ => False

/-- What opening a creation does under its checkpoint: mark the new account,
    give it a nonce and move the endowment. -/
def CreateMessage.Opens (message : CreateMessage) (address : Address) : Edit → Prop
  | .readAccount _ => True
  | .created a => a = address
  | .account a previous new =>
    a = address ∧ new = { previous.getD .empty with nonce := 1 } ∨
      message.value ≠ 0 ∧ message.caller ≠ address ∧
        (a = message.caller ∧ Debited message.value previous new ∨
          a = address ∧ Credited message.value previous new)
  | _ => False

/-- What giving an account its code does. -/
def Edit.Deploys (address : Address) : Edit → Prop
  | .readAccount _ | .learnCode _ _ | .queueCode _ => True
  | .account a previous new =>
    a = address ∧ ∃ codeHash, new = { previous.getD .empty with codeHash }
  | _ => False

/-- The edits that neither write a slot nor mark an account. -/
def Edit.Light : Edit → Prop
  | .storage _ _ | .created _ | .destroyed _ => False
  | _ => True

theorem Edit.IsLook.light {edit : Edit} (h : edit.IsLook) : edit.Light := by
  cases edit <;> first | exact h.elim | trivial

theorem Edit.Deploys.light {address : Address} {edit : Edit} (h : edit.Deploys address) :
    edit.Light := by
  cases edit <;> first | exact h.elim | trivial

theorem CallMessage.opens_light {message : CallMessage} {edit : Edit} (h : message.Opens edit) :
    edit.Light := by
  cases edit <;> first | exact h.elim | trivial

theorem CreateMessage.counts_light {message : CreateMessage} {edit : Edit}
    (h : message.Counts edit) : edit.Light := by
  cases edit <;> first | exact h.elim | trivial

namespace FrameKind

/-- The checkpoint of a frame. -/
def checkpoint : FrameKind → Checkpoint
  | .call checkpoint => checkpoint
  | .create checkpoint _ => checkpoint

/-- What closing a frame does under its checkpoint. -/
def Closes : FrameKind → Edit → Prop
  | .call _ => fun _ => False
  | .create _ address => Edit.Deploys address

end FrameKind

namespace Engine

variable {β : Type} [Backend β]

omit [Backend β] in
/-- Reverting a state that nothing was done to leaves the engine as it is. -/
theorem revert_unchanged (e : Engine β) :
    { e with journal := e.journal.revert e.journal.checkpoint } = e := by
  rw [revert_checkpoint]

/-! ## Calls -/

/-- What becomes of a request for a call. -/
inductive CallStart (message : CallMessage) (e : Engine β) : FrameStart × Engine β → Prop where
  | failed {result : FrameResult} {j : Journal β} :
    result.isSuccess = false → result.gas.remaining ≤ message.gasLimit →
    Changes message.Opens e.journal j →
    CallStart message e
      (.done result, { e with journal := j.revert e.journal.checkpoint })
  | settled {result : FrameResult} {j : Journal β} :
    result.isSuccess = true → result.gas.remaining ≤ message.gasLimit →
    Changes message.Opens e.journal j →
    CallStart message e (.done result, { e with journal := j })
  | opened {code : Bytes} {jumpDests : JumpDests} {j : Journal β} {codeCache : CodeCache} :
    Changes message.Opens e.journal j →
    CallStart message e
      (.run ⟨callFrame message code jumpDests e.config.hardfork, .call e.journal.checkpoint⟩,
        { e with journal := j, codeCache })

/-- Closing a call at once fails and is undone, or is a success. -/
theorem endCall_start {message : CallMessage} {e : Engine β} {j : Journal β}
    (result : FrameResult) (hgas : result.gas.remaining ≤ message.gasLimit)
    (hchanges : Changes message.Opens e.journal j) :
    CallStart message e
      (.done (endCall e.journal.checkpoint result { e with journal := j }).1,
        (endCall e.journal.checkpoint result { e with journal := j }).2) := by
  unfold endCall
  cases hsuccess : result.isSuccess with
  | true => exact .settled hsuccess hgas hchanges
  | false => exact .failed hsuccess hgas hchanges

/-- The value of a call is moved only between two accounts. -/
theorem transfer_opens (message : CallMessage) :
    Edits message.Opens
      (Journal.transfer message.caller message.target message.value.moved : JournalM β Unit) := by
  refine transfer_edits (fun _ => trivial) ?_ ?_
  · intro hvalue hne previous new hdebited
    exact ⟨hvalue, hne, .inl ⟨rfl, hdebited⟩⟩
  · intro hvalue hne previous new hcredited
    exact ⟨hvalue, hne, .inr ⟨rfl, hcredited⟩⟩

/-- Looking the code up is part of opening a call. -/
theorem lookup_opens {message : CallMessage} {edit : Edit} (h : edit.IsLookup) :
    message.Opens edit := by
  cases edit <;> trivial

/-- **Opening a call** fails and is undone, is settled at once, or opens a
    frame under the checkpoint that was taken before the value was moved. -/
theorem startCall_spec (message : CallMessage) (e : Engine β) :
    CallStart message e (startCall message e) := by
  have hmoves : Edits message.Opens
      (Journal.transfer message.caller message.target message.value.moved : JournalM β Unit) :=
    transfer_opens message
  have hopens := hmoves e.journal
  have houtcome := startCall_outcome message e
  generalize startCall message e = outcome at houtcome
  cases houtcome with
  | tooDeep =>
    -- nothing was done, which is as good as undone
    have hfailed : CallStart message e
        (.done (.notEntered .callDepthExceeded message.gasLimit),
          { e with journal := e.journal.revert e.journal.checkpoint }) :=
      .failed rfl (Nat.le_refl _) (.refl _)
    rwa [revert_unchanged] at hfailed
  | unpaid htransfer =>
    rw [htransfer] at hopens
    exact .failed rfl (Nat.le_refl _) hopens
  | settled htransfer hlookup hfair =>
    rw [htransfer] at hopens
    exact endCall_start _ hfair.back (hopens.trans (hlookup.mono fun _ h => lookup_opens h))
  | opened htransfer hlookup =>
    rw [htransfer] at hopens
    exact .opened (hopens.trans (hlookup.mono fun _ h => lookup_opens h))

/-! ## Creations -/

/-- What becomes of a request for a creation. -/
inductive CreateStart (message : CreateMessage) (e : Engine β) : FrameStart × Engine β → Prop where
  | refused {result : FrameResult} {j : Journal β} :
    result.isSuccess = false → result.gas.remaining ≤ message.gasLimit →
    Changes Edit.IsLook e.journal j →
    CreateStart message e (.done result, { e with journal := j })
  | failed {result : FrameResult} {nonce : Nat} {b j : Journal β} :
    result.isSuccess = false → result.gas.remaining ≤ message.gasLimit →
    Counted message nonce e.journal b →
    Changes (message.Opens (newAddress message nonce)) b j →
    CreateStart message e (.done result, { e with journal := j.revert b.checkpoint })
  | opened {nonce : Nat} {b j : Journal β} :
    Counted message nonce e.journal b →
    Changes (message.Opens (newAddress message nonce)) b j →
    CreateStart message e
      (.run ⟨createFrame message (newAddress message nonce) e.config.hardfork,
        .create b.checkpoint (newAddress message nonce)⟩, { e with journal := j })

theorem endow_opens (message : CreateMessage) (address : Address) :
    Edits (message.Opens address) (endow message address : JournalM β Unit) := by
  unfold endow
  refine (setNonce_edits trivial fun _ => .inl ⟨rfl, rfl⟩).bind fun _ => ?_
  refine transfer_edits (fun _ => trivial) ?_ ?_
  · intro hvalue hne previous new hdebited
    exact .inr ⟨hvalue, hne, .inl ⟨rfl, hdebited⟩⟩
  · intro hvalue hne previous new hcredited
    exact .inr ⟨hvalue, hne, .inr ⟨rfl, hcredited⟩⟩

/-- The new account is marked before it gets its nonce and its endowment. -/
theorem mark_endow_opens (message : CreateMessage) (address : Address) (b : Journal β) :
    Changes (message.Opens address) b
      (endState (endow message address (b.markCreated address))) := by
  have hmark : Changes (message.Opens address) b (b.markCreated address) :=
    markCreated_changes b rfl
  exact hmark.trans (endow_opens message address _)

/-- **Opening a creation** is refused with nothing done, or counts the
    creator's nonce up and from there on fails and is undone, or opens a frame
    under the checkpoint that was taken after counting. -/
theorem startCreate_spec (message : CreateMessage) (e : Engine β) :
    CreateStart message e (startCreate message e) := by
  have houtcome := startCreate_outcome message e
  generalize startCreate message e = outcome at houtcome
  cases houtcome with
  | refused hfailure hfair hlooks => exact .refused hfailure hfair.back hlooks
  | @unclaimed result nonce b hfailure hfair hcounted =>
    -- at its checkpoint there is nothing to undo
    have hfailed : CreateStart message e
        (.done result, { e with journal := b.revert b.checkpoint }) :=
      .failed hfailure hfair.back hcounted (.refl b)
    rwa [revert_checkpoint] at hfailed
  | @unpaid err nonce b j hcounted _ herror =>
    have hopens := mark_endow_opens message (newAddress message nonce) b
    rw [herror] at hopens
    exact .failed rfl (Nat.zero_le _) hcounted hopens
  | @opened nonce b j hcounted _ hok =>
    have hopens := mark_endow_opens message (newAddress message nonce) b
    rw [hok] at hopens
    exact .opened hcounted hopens

/-! ## Closing -/

/-- What becomes of a frame that ended. -/
inductive Closed (kind : FrameKind) (ending : Ending) (e : Engine β) :
    FrameResult × Engine β → Prop where
  | kept {result : FrameResult} {j : Journal β} :
    result.isSuccess = true → result.gas.remaining ≤ ending.gas.remaining →
    Changes kind.Closes e.journal j →
    Closed kind ending e (result, { e with journal := j })
  | undone {result : FrameResult} {j : Journal β} :
    result.isSuccess = false → result.gas.remaining ≤ ending.gas.remaining →
    Changes kind.Closes e.journal j →
    Closed kind ending e (result, { e with journal := j.revert kind.checkpoint })

/-- What becomes of an attempt to deploy. -/
inductive Deployed (address : Address) (code : Bytes) (gas : Gas) (e : Engine β) :
    Except EvmError Gas × Engine β → Prop where
  | failed {err : EvmError} {j : Journal β} :
    (∀ cause, err = .state cause → NoOverflow e.journal.backend cause) →
    Changes (Edit.Deploys address) e.journal j →
    Deployed address code gas e (.error err, { e with journal := j })
  | deployed {left : Gas} {j : Journal β} :
    gas.charge? (Gas.codeDeposit code.size) = some left →
    Changes (Edit.Deploys address) e.journal j →
    Deployed address code gas e (.ok left, { e with journal := j })

theorem deploy_spec (address : Address) (code : Bytes) (gas : Gas) (e : Engine β) :
    Deployed address code gas e (deploy address code gas e) := by
  have hnothing : ∀ err : EvmError, (∀ cause, err ≠ .state cause) →
      Deployed address code gas e (.error err, e) :=
    fun err hown => .failed (fun cause hcause => absurd hcause (hown cause)) (.refl e.journal)
  unfold deploy
  rw [state_get_bind_apply, state_ite_apply]
  split
  · exact hnothing _ nofun
  rw [state_ite_apply]
  split
  · exact hnothing _ nofun
  cases hcharge : gas.charge? (Gas.codeDeposit code.size) with
  | none => exact hnothing _ nofun
  | some left =>
    simp only
    rw [state_bind_apply]
    have hset : Edits (Edit.Deploys address) (Journal.setCode address code : JournalM β Hash) :=
      setCode_edits trivial (fun _ => trivial) (fun _ => trivial) fun hash _ => ⟨rfl, hash, rfl⟩
    have hedited := hset e.journal
    cases hcode : Journal.setCode address code e.journal with
    | error err j =>
      rw [hcode] at hedited
      rw [attempt_error hcode]
      have hnone := (Mild.setCode address code).failure hcode
      refine .failed (fun cause hcause => ?_) hedited
      rwa [ofStateError_cause hcause]
    | ok hash j =>
      rw [hcode] at hedited
      rw [attempt_ok hcode]
      exact .deployed hcharge hedited

theorem endCreate_spec (checkpoint : Checkpoint) (address : Address) (ending : Ending)
    (e : Engine β) :
    Closed (.create checkpoint address) ending e (endCreate checkpoint address ending e) := by
  unfold endCreate
  rw [state_ite_apply]
  cases hexit : ending.exit.isSuccess with
  | false => exact .undone hexit (Nat.le_refl _) (.refl e.journal)
  | true =>
    rw [if_neg nofun, state_bind_apply]
    have hdeployed := deploy_spec address ending.output ending.gas e
    generalize deploy address ending.output ending.gas e = attempt at hdeployed
    cases hdeployed with
    -- what a failed deployment has done is undone with the rest of the frame
    | failed _ hedited => exact .undone rfl (Nat.zero_le _) hedited
    | deployed hcharge hedited =>
      obtain ⟨_, hleft⟩ := Gas.charge?_ok hcharge
      refine .kept hexit ?_ hedited
      rw [hleft]
      exact Nat.sub_le _ _

/-- A creation is closed with success only if its code was deployed. The result
    names the new contract. -/
theorem endCreate_ok {checkpoint : Checkpoint} {address : Address} {ending : Ending}
    {e e' : Engine β} {result : FrameResult}
    (h : endFrame (.create checkpoint address) ending e = (result, e'))
    (hsuccess : result.isSuccess = true) :
    deploy address ending.output ending.gas e = (.ok result.gas, e') ∧
      result.createdAddress = some address := by
  unfold endFrame endCreate at h
  simp only [state_ite_apply] at h
  split at h
  next hexit =>
    -- the code in the frame failed
    cases h
    simp only [FrameResult.isSuccess, FrameResult.ended] at hsuccess
    rw [hsuccess] at hexit
    cases hexit
  next =>
    rw [state_bind_apply] at h
    rcases hdeploy : deploy address ending.output ending.gas e with ⟨err | left, e1⟩
    · rw [hdeploy] at h
      cases h
      cases hsuccess
    · rw [hdeploy] at h
      cases h
      exact ⟨rfl, rfl⟩

/-- **Closing a frame** keeps what was done under its checkpoint if the outcome
    is a success, and undoes it otherwise. -/
theorem endFrame_spec (kind : FrameKind) (ending : Ending) (e : Engine β) :
    Closed kind ending e (endFrame kind ending e) := by
  cases kind with
  | create checkpoint address => exact endCreate_spec checkpoint address ending e
  | call checkpoint =>
    unfold endFrame endCall
    cases hsuccess : (FrameResult.ended ending.exit ending.gas ending.output).isSuccess with
    | true => exact .kept hsuccess (Nat.le_refl _) (.refl e.journal)
    | false => exact .undone hsuccess (Nat.le_refl _) (.refl e.journal)

end Engine

end Evm
