import Evm.Engine.Frames
import Evm.Proofs.Engine.Authority
import Evm.Proofs.Journal.Failure
import Evm.Proofs.Journal.Standing

/-! # What a request comes to

    The ways that a call or creation can go when it is opened, one by one:
    why it comes to nothing, whether its value was moved, and which state is
    under the checkpoint of its frame.

    A creation makes edits before its checkpoint (`Counted`), which stay.
-/

namespace Evm

open Journal

/-! ## Sets of edits -/

/-- Looking things up. -/
def Edit.IsLookup : Edit → Prop
  | .readAccount _ | .learnCode _ _ => True
  | _ => False

/-- Looking at accounts. -/
def Edit.IsLook : Edit → Prop
  | .readAccount _ => True
  | _ => False

/-- A frame that exits so has not run into a balance that overflowed, unless the
    store itself reported one. -/
def ExitReason.NoOverflow {β : Type} [Backend β] (exit : ExitReason) (b : β) : Prop :=
  ∀ cause, exit = .halt (.state cause) → Evm.NoOverflow b cause

theorem Edit.IsLook.isRead {edit : Edit} (h : edit.IsLook) : edit.IsRead := by
  cases edit <;> trivial

/-- What a creation does before its checkpoint: count the creator's nonce up
    and access the new address. -/
def CreateMessage.Counts (message : CreateMessage) : Edit → Prop
  | .readAccount _ | .warmAddress _ => True
  | .account a previous new =>
    a = message.caller ∧ ∃ nonce, new = { previous.getD .empty with nonce }
  | _ => False

theorem Edit.IsLook.counts {edit : Edit} (h : edit.IsLook) (message : CreateMessage) :
    message.Counts edit := by
  cases edit <;> trivial

namespace Engine

variable {β : Type} [Backend β]

/-! ## Attempts -/

section Attempt

variable {α : Type} {op : JournalM β α} {e : Engine β} {j : Journal β}

omit [Backend β] in
theorem attempt_ok {a : α} (h : op e.journal = .ok a j) :
    attempt op e = (.ok a, { e with journal := j }) := by
  unfold attempt
  rw [h]

omit [Backend β] in
theorem attempt_error {err : StateError} (h : op e.journal = .error err j) :
    attempt op e = (.error err, { e with journal := j }) := by
  unfold attempt
  rw [h]

end Attempt

/-! ## Results without a frame -/

/-- A result of a request that ran no code: it returns no more gas than was
    sent, its meter is one, with nothing refunded, it names no new contract, and
    a halt returns all of the gas or none. -/
structure Immediate (gasLimit : Nat) (result : FrameResult) : Prop where
  back : result.gas.remaining ≤ gasLimit
  meter : result.gas.remaining ≤ result.gas.limit
  refunded : result.gas.refunded = 0
  unnamed : result.createdAddress = none
  halt : ∀ err, result.exit = .halt err →
    result.gas.remaining = 0 ∨ result.gas.remaining = gasLimit

/-- Such a result that does not tell of an overflow. -/
structure Fair (gasLimit : Nat) (b : β) (result : FrameResult) : Prop
    extends Immediate gasLimit result where
  noOverflow : result.exit.NoOverflow b

theorem Immediate.notEntered (err : EvmError) (gasLimit : Nat) :
    Immediate gasLimit (.notEntered err gasLimit) :=
  ⟨Nat.le_refl _, Nat.le_refl _, rfl, rfl, fun _ _ => .inr rfl⟩

theorem Immediate.halted (err : EvmError) (gasLimit : Nat) :
    Immediate gasLimit (.halted err gasLimit) :=
  ⟨Nat.zero_le _, Nat.zero_le _, rfl, rfl, fun _ _ => .inl rfl⟩

/-- A failure of the state that is told as one is told as it is. -/
theorem ofStateError_cause {err cause : StateError}
    (h : EvmError.ofStateError err = .state cause) : cause = err := by
  cases err <;> cases h <;> rfl

namespace Fair

variable {b : β} {err : EvmError} (gasLimit : Nat)

theorem notEntered (h : ∀ cause, err = .state cause → NoOverflow b cause) :
    Fair gasLimit b (.notEntered err gasLimit) := by
  refine ⟨.notEntered err gasLimit, ?_⟩
  rintro cause ⟨⟩
  exact h cause rfl

theorem halted (h : ∀ cause, err = .state cause → NoOverflow b cause) :
    Fair gasLimit b (.halted err gasLimit) := by
  refine ⟨.halted err gasLimit, ?_⟩
  rintro cause ⟨⟩
  exact h cause rfl

/-- A halt for a failure of the state. -/
theorem unreadable {err : StateError} (h : NoOverflow b err) :
    Fair gasLimit b (.halted (.ofStateError err) gasLimit) := by
  refine halted gasLimit fun cause hcause => ?_
  rwa [ofStateError_cause hcause]

/-- The outcome where there is no code. -/
theorem noCode : Fair gasLimit b (.ended .stop (.full gasLimit) ByteArray.empty) :=
  ⟨⟨Nat.le_refl _, Nat.le_refl _, rfl, rfl, nofun⟩, nofun⟩

/-- The outcome of a precompiled contract. -/
theorem precompile (precompile : Precompile) (input : Bytes) :
    Fair gasLimit b (runPrecompile precompile input gasLimit) := by
  unfold runPrecompile
  simp only
  split
  · exact halted gasLimit nofun
  · split
    · exact ⟨⟨Nat.sub_le _ _, Nat.le_refl _, rfl, rfl, nofun⟩, nofun⟩
    · exact halted gasLimit nofun

end Fair

/-! ## Calls -/

omit [Backend β] in
/-- Closing a call does not change its result. -/
@[simp] theorem endCall_result (checkpoint : Checkpoint) (result : FrameResult) (e : Engine β) :
    (endCall checkpoint result e).1 = result := by
  unfold endCall
  cases result.isSuccess <;> rfl

/-- What a request for a call comes to. -/
inductive CallOutcome (message : CallMessage) (e : Engine β) : FrameStart × Engine β → Prop where
  | tooDeep : CallOutcome message e (.done (.notEntered .callDepthExceeded message.gasLimit), e)
  | unpaid {err : StateError} {j : Journal β} :
    Journal.transfer message.caller message.target message.value.moved e.journal = .error err j →
    CallOutcome message e (.done (.notEntered (.ofStateError err) message.gasLimit),
      { e with journal := j.revert e.journal.checkpoint })
  | settled {j j' : Journal β} {result : FrameResult} :
    Journal.transfer message.caller message.target message.value.moved e.journal = .ok () j →
    Changes Edit.IsLookup j j' → Fair message.gasLimit e.journal.backend result →
    CallOutcome message e (.done (endCall e.journal.checkpoint result { e with journal := j' }).1,
      (endCall e.journal.checkpoint result { e with journal := j' }).2)
  | opened {j j' : Journal β} {code : Bytes} {codeHash : Hash} {jumpDests : JumpDests}
      {codeCache : CodeCache} :
    Journal.transfer message.caller message.target message.value.moved e.journal = .ok () j →
    Changes Edit.IsLookup j j' →
    Journal.code message.codeAddress j = .ok (code, codeHash) j' → code.isEmpty = false →
    CallOutcome message e
      (.run ⟨callFrame message code jumpDests e.config.hardfork, .call e.journal.checkpoint⟩,
        { e with journal := j', codeCache })

/-- **Opening a call**: first the value is moved, then the code is looked up. -/
theorem startCall_outcome (message : CallMessage) (e : Engine β) :
    CallOutcome message e (startCall message e) := by
  unfold startCall
  simp only [state_get_bind_apply, state_ite_apply]
  by_cases hdepth : e.config.maxCallDepth < message.depth
  · rw [if_pos hdepth]
    exact .tooDeep
  rw [if_neg hdepth, state_bind_apply]
  cases htransfer :
      Journal.transfer message.caller message.target message.value.moved e.journal with
  | error err j =>
    rw [attempt_error htransfer]
    exact .unpaid htransfer
  | ok u j =>
    rw [attempt_ok htransfer]
    simp only [state_get_bind_apply]
    cases e.precompiles[message.codeAddress]? with
    | some precompile => exact .settled htransfer (.refl j) (.precompile _ _ _)
    | none =>
      simp only
      rw [state_bind_apply]
      have hlookup : Edits Edit.IsLookup (Journal.code message.codeAddress : JournalM β _) :=
        code_edits trivial fun _ _ => trivial
      have hcode := hlookup j
      cases hread : Journal.code message.codeAddress j with
      | error err j' =>
        have hbackend := (transfer_reverts message.caller message.target message.value.moved
          e.journal).backend
        have hcause := (Mild.code message.codeAddress).failure hread
        rw [htransfer, endState_ok] at hbackend
        rw [hbackend] at hcause
        rw [hread] at hcode
        rw [attempt_error (e := { e with journal := j }) hread]
        exact .settled htransfer hcode (.unreadable _ hcause)
      | ok found j' =>
        obtain ⟨code, codeHash⟩ := found
        rw [hread] at hcode
        rw [attempt_ok (e := { e with journal := j }) hread]
        simp only [state_ite_apply]
        by_cases hempty : code.isEmpty
        · rw [if_pos hempty]
          exact .settled htransfer hcode (.noCode _)
        · rw [if_neg hempty]
          exact .opened htransfer hcode hread (Bool.eq_false_iff.mpr hempty)

/-! ## Creations -/

theorem isTaken_iff (account : Option Account) : isTaken (account.getD .empty) ↔ Taken account := by
  simp [isTaken, Taken]

/-- What a creation has done to the state at its checkpoint, if it came that
    far: the nonce of the creator was counted up, and the address that was
    derived from it was accessed. -/
structure Counted (message : CreateMessage) (nonce : Nat) (b j : Journal β) : Prop where
  changes : Changes message.Counts b j
  creator : ∃ old, b.presentAccount message.caller = .ok old ∧ (old.getD .empty).nonce = nonce ∧
    j.presentAccount message.caller = .ok (some { old.getD .empty with nonce := nonce + 1 })
  warmAddresses : j.warmAddresses = b.warmAddresses.insert (newAddress message nonce)

/-- The address that a creation derives, if the creator passes its checks: it is
    not too deep, its init code is not too long, it can be read, can pay the
    endowment, and is not at its last nonce. -/
def claimed? (message : CreateMessage) (e : Engine β) : Option Address :=
  if e.config.maxCallDepth < message.depth then none
  else if e.config.hardfork.includes .shanghai ∧
      e.config.maxInitCodeSize < message.initCode.size then none
  else
    match e.journal.presentAccount message.caller with
    | .error _ => none
    | .ok creator =>
      if (creator.getD .empty).balance.toNat < message.value.toNat ∨
          (creator.getD .empty).nonce = Account.maxNonce then none
      else some (newAddress message (creator.getD .empty).nonce)

/-- What a request for a creation comes to. Unless it is refused, the creator
    has passed its checks. -/
inductive CreateOutcome (message : CreateMessage) (e : Engine β) :
    FrameStart × Engine β → Prop where
  | refused {result : FrameResult} {j : Journal β} :
    result.isSuccess = false → Fair message.gasLimit e.journal.backend result →
    Changes Edit.IsLook e.journal j → claimed? message e = none →
    CreateOutcome message e (.done result, { e with journal := j })
  | unclaimed {result : FrameResult} {nonce : Nat} {b : Journal β} :
    result.isSuccess = false → Fair message.gasLimit e.journal.backend result →
    Counted message nonce e.journal b → claimed? message e = some (newAddress message nonce) →
    CreateOutcome message e (.done result, { e with journal := b })
  | unpaid {err : StateError} {nonce : Nat} {b j : Journal β} :
    Counted message nonce e.journal b → b.Free (newAddress message nonce) →
    endow message (newAddress message nonce) (b.markCreated (newAddress message nonce)) =
      .error err j →
    claimed? message e = some (newAddress message nonce) →
    CreateOutcome message e (.done (.halted (.ofStateError err) message.gasLimit),
      { e with journal := j.revert b.checkpoint })
  | opened {nonce : Nat} {b j : Journal β} :
    Counted message nonce e.journal b → b.Free (newAddress message nonce) →
    endow message (newAddress message nonce) (b.markCreated (newAddress message nonce)) =
      .ok () j →
    claimed? message e = some (newAddress message nonce) →
    CreateOutcome message e
      (.run ⟨createFrame message (newAddress message nonce) e.config.hardfork,
        .create b.checkpoint (newAddress message nonce)⟩, { e with journal := j })

/-- Opening a creation at a free address. -/
theorem openCreate_outcome {message : CreateMessage} {nonce : Nat} {e : Engine β} {b : Journal β}
    (hcounted : Counted message nonce e.journal b) (hfree : b.Free (newAddress message nonce))
    (hclaimed : claimed? message e = some (newAddress message nonce)) :
    CreateOutcome message e
      (openCreate message (newAddress message nonce) { e with journal := b }) := by
  unfold openCreate
  rw [state_get_bind_apply, state_modify_bind_apply, state_bind_apply]
  unfold modifyState
  cases hendow : endow message (newAddress message nonce)
      (b.markCreated (newAddress message nonce)) with
  | error err j =>
    rw [attempt_error (e := { e with journal := b.markCreated (newAddress message nonce) }) hendow]
    exact .unpaid hcounted hfree hendow hclaimed
  | ok u j =>
    rw [attempt_ok (e := { e with journal := b.markCreated (newAddress message nonce) }) hendow]
    exact .opened hcounted hfree hendow hclaimed

/-- The state at the checkpoint of a creation: the nonce was counted up, the
    address accessed, and the account there looked at. -/
theorem counted_of_looks {message : CreateMessage} {old : Option Account} {n : Nat}
    {b j1 j2 j' : Journal β} (hbefore : Changes Edit.IsLook b j1)
    (hn : n = (old.getD .empty).nonce + 1)
    (hcount : (Edit.account message.caller old { old.getD .empty with nonce := n }).Applies j1 j2)
    (hafter : Changes Edit.IsLook
      (j2.warmAddress (newAddress message (old.getD .empty).nonce)).2 j') :
    Counted message (old.getD .empty).nonce b j' := by
  have hreads : ∀ edit : Edit, edit.IsLook → edit.IsRead := fun _ h => h.isRead
  have hcounts : ∀ edit : Edit, edit.IsLook → message.Counts edit := fun _ h => h.counts message
  have hbefore' : Restored b j1 := Changes.restored (hbefore.mono hreads)
  have hafter' := Changes.restored (hafter.mono hreads)
  have hwarmed : ∀ a, Changes message.Counts j2 (j2.warmAddress a).2 :=
    fun _ => warmAddress_changes j2 trivial
  obtain ⟨hold, hnew⟩ := hcount.presentAccount
  rw [hbefore'.presentAccount_eq] at hold
  refine ⟨?_, ⟨old, hold, rfl, ?_⟩, ?_⟩
  · have hcounted : Changes message.Counts j1 j2 := by
      refine .single ?_ hcount
      exact ⟨rfl, n, rfl⟩
    exact (hbefore.mono hcounts).trans (hcounted.trans ((hwarmed _).trans (hafter.mono hcounts)))
  · -- an access is no change of an account, and neither is a look
    have hsame : ∀ a, (j2.warmAddress a).2.accounts = j2.accounts :=
      fun _ => warmAddress_same j2 (p := .accounts) nofun
    rw [hafter'.presentAccount_eq, presentAccount_congr (hwarmed _).backend (hsame _), hnew, hn]
  · have hkept : j2.warmAddresses = j1.warmAddresses := hcount.same (p := .warmAddresses) nofun
    rw [hafter'.warmAddresses, warmAddress_warm, hkept, hbefore'.warmAddresses]

/-- Deriving the address and seeing whether it is free. -/
theorem claimAddress_outcome {message : CreateMessage} {e : Engine β} {old : Option Account}
    {j : Journal β} (hread : Changes Edit.IsLook e.journal j)
    (hold : e.journal.presentAccount message.caller = .ok old)
    (hcreator : j.accounts[message.caller]?.map CachedAccount.present = some old)
    (hlast : (old.getD .empty).nonce ≠ Account.maxNonce)
    (hclaimed : claimed? message e = some (newAddress message (old.getD .empty).nonce)) :
    CreateOutcome message e
      (claimAddress message (old.getD .empty).nonce { e with journal := j }) := by
  have hlook : ∀ edit : Edit, edit = .readAccount message.caller → edit.IsLook := by
    rintro edit rfl
    trivial
  have hincremented := incrementNonce_spec message.caller j
  unfold claimAddress
  rw [state_bind_apply]
  cases hnonce : Journal.incrementNonce message.caller j with
  | error err j1 =>
    -- the creator was read, and is not at its last nonce
    obtain ⟨n, j2, hcounts⟩ := incrementNonce_ok hcreator hlast
    rw [hnonce] at hcounts
    cases hcounts
  | ok n j2 =>
    rw [attempt_ok (e := { e with journal := j }) hnonce]
    rw [hnonce] at hincremented
    obtain ⟨j1, hbefore, hn, hcount⟩ : ∃ j1, Changes Edit.IsLook e.journal j1 ∧
        n = (old.getD .empty).nonce + 1 ∧
        (Edit.account message.caller old { old.getD .empty with nonce := n }).Applies j1 j2 := by
      cases hincremented with
      | @counted old' _ j1 _ hreread hn hcount =>
        have hbefore := hread.trans (hreread.mono hlook)
        -- the creator has not changed since it was looked at
        obtain rfl := Changes.previous_eq (hbefore.mono fun _ h => h.isRead) hold hcount
        exact ⟨j1, hbefore, hn, hcount⟩
    simp only [state_modify_bind_apply]
    rw [state_bind_apply]
    unfold modifyState
    simp only
    have hlookup : Edits Edit.IsLook
        (Journal.account (newAddress message (old.getD .empty).nonce) : JournalM β Account) :=
      account_edits trivial
    have hafter := hlookup (j2.warmAddress (newAddress message (old.getD .empty).nonce)).2
    cases hexisting : Journal.account (newAddress message (old.getD .empty).nonce)
        (j2.warmAddress (newAddress message (old.getD .empty).nonce)).2 with
    | error err j3 =>
      rw [hexisting] at hafter
      rw [attempt_error (e := { e with journal := (j2.warmAddress _).2 }) hexisting]
      have hcause := (Mild.account (newAddress message (old.getD .empty).nonce)).failure hexisting
      have hwarm : Changes Edit.Any j2
          (j2.warmAddress (newAddress message (old.getD .empty).nonce)).2 :=
        warmAddress_changes j2 trivial
      rw [hwarm.backend, hcount.backend, hbefore.backend] at hcause
      exact .unclaimed rfl (.unreadable _ hcause) (counted_of_looks hbefore hn hcount hafter)
        hclaimed
    | ok existing j3 =>
      rw [hexisting] at hafter
      rw [attempt_ok (e := { e with journal := (j2.warmAddress _).2 }) hexisting]
      have hcounted := counted_of_looks hbefore hn hcount hafter
      simp only [state_ite_apply]
      by_cases htaken : isTaken existing
      · rw [if_pos htaken]
        exact .unclaimed rfl (.halted _ nofun) hcounted hclaimed
      · rw [if_neg htaken]
        refine openCreate_outcome hcounted ?_ hclaimed
        obtain ⟨account, haccount, rfl, hlooked⟩ := account_ok hexisting
        refine ⟨account, (hlooked.presentAccount_eq _).trans haccount, ?_⟩
        rwa [← isTaken_iff]

/-- **Opening a creation**: the creator is looked at and counted up, the address
    claimed, and then the endowment is moved. -/
theorem startCreate_outcome (message : CreateMessage) (e : Engine β) :
    CreateOutcome message e (startCreate message e) := by
  -- the checks before the creator is looked at
  have hrefused : ∀ result : FrameResult, result.isSuccess = false →
      Fair message.gasLimit e.journal.backend result → claimed? message e = none →
      CreateOutcome message e (.done result, e) :=
    fun result hfailure hfair => .refused hfailure hfair (.refl e.journal)
  unfold startCreate
  rw [state_get_bind_apply, state_ite_apply]
  by_cases hdepth : e.config.maxCallDepth < message.depth
  · rw [if_pos hdepth]
    exact hrefused _ rfl (.notEntered _ nofun) (if_pos hdepth)
  rw [if_neg hdepth, state_ite_apply]
  by_cases hsize : e.config.hardfork.includes .shanghai ∧
      e.config.maxInitCodeSize < message.initCode.size
  · rw [if_pos hsize]
    exact hrefused _ rfl (.halted _ nofun) (by rw [claimed?, if_neg hdepth, if_pos hsize])
  rw [if_neg hsize, state_bind_apply]
  have hlookup : Edits Edit.IsLook (Journal.account message.caller : JournalM β Account) :=
    account_edits trivial
  have hlook := hlookup e.journal
  cases hcreator : Journal.account message.caller e.journal with
  | error err j =>
    have hcause := (Mild.account message.caller).failure hcreator
    rw [hcreator] at hlook
    rw [attempt_error hcreator]
    refine .refused rfl (.unreadable _ hcause) hlook ?_
    rw [claimed?, if_neg hdepth, if_neg hsize, account_error hcreator]
  | ok creator j =>
    rw [hcreator] at hlook
    rw [attempt_ok hcreator]
    -- and those of the creator's account
    obtain ⟨old, hold, rfl, _⟩ := account_ok hcreator
    have hclaimed : claimed? message e =
        if (old.getD .empty).balance.toNat < message.value.toNat ∨
            (old.getD .empty).nonce = Account.maxNonce then none
        else some (newAddress message (old.getD .empty).nonce) := by
      rw [claimed?, if_neg hdepth, if_neg hsize, hold]
    simp only [state_ite_apply]
    by_cases hpoor : (old.getD .empty).balance.toNat < message.value.toNat
    · rw [if_pos hpoor]
      exact .refused rfl (.notEntered _ nofun) hlook (hclaimed.trans (if_pos (.inl hpoor)))
    rw [if_neg hpoor]
    by_cases hlast : (old.getD .empty).nonce = Account.maxNonce
    · rw [if_pos hlast]
      exact .refused rfl (.notEntered _ nofun) hlook (hclaimed.trans (if_pos (.inr hlast)))
    rw [if_neg hlast]
    exact claimAddress_outcome hlook hold (account_cached hcreator hold) hlast
      (hclaimed.trans (if_neg (not_or.mpr ⟨hpoor, hlast⟩)))

end Engine

end Evm
