import Evm.Proofs.Engine.Frames
import Evm.Proofs.Frame.Composition
import Evm.Proofs.Journal.Total

/-! # What the engine does to the sum of balances

    Nothing that a frame has its host do adds to the sum of all balances, and
    only a destruction in favour of the destroyed account itself takes from
    it (`destroy_ok`). Opening a frame leaves the sum as it is, whatever comes
    of it, and so does closing one that is not undone.

    As long as 256 bits hold the sum, none of this fails because a balance
    would overflow.
-/

namespace Evm

open Journal

/-! ## Edits that leave the balances alone -/

namespace Edit

variable {edit : Edit}

theorem IsLookup.keepsBalance (h : edit.IsLookup) : edit.KeepsBalance := by
  cases edit <;> trivial

/-- The edits that a frame makes without destroying an account: it reads, makes
    accesses, writes slots and leaves logs. -/
def Ordinary : Edit → Prop
  | .account _ _ _ | .queueCode _ | .created _ | .destroyed _ => False
  | _ => True

/-- The edits that a frame makes in passing, at any instruction. -/
def Incidental : Edit → Prop
  | .storage _ _ => False
  | edit => edit.Ordinary

theorem Incidental.ordinary (h : edit.Incidental) : edit.Ordinary := by
  cases edit <;> first | exact h | exact h.elim

theorem Incidental.light (h : edit.Incidental) : edit.Light := by
  cases edit <;> first | exact h.elim | trivial

theorem Ordinary.keepsBalance (h : edit.Ordinary) : edit.KeepsBalance := by
  cases edit <;> trivial

theorem IsLook.keepsBalance (h : edit.IsLook) : edit.KeepsBalance := by
  cases edit <;> trivial

theorem Deploys.keepsBalance {address : Address} (h : edit.Deploys address) :
    edit.KeepsBalance := by
  cases edit with
  | account a previous new =>
    obtain ⟨_, codeHash, rfl⟩ := h
    rfl
  | _ => trivial

end Edit

theorem CreateMessage.Counts.keepsBalance {message : CreateMessage} {edit : Edit}
    (h : message.Counts edit) : edit.KeepsBalance := by
  cases edit with
  | account a previous new =>
    obtain ⟨_, nonce, rfl⟩ := h
    rfl
  | _ => trivial

namespace Engine

variable {β : Type} [Backend β] {α γ : Type}

/-! ## Operations for frames -/

/-- An operation for a frame adds nothing to the sum of balances and keeps the
    store. While 256 bits hold the sum it does not fail with an overflow. -/
structure NoGain (op : HostM (Engine β) α) : Prop where
  total : ∀ e, (endState (op e)).journal.total ≤ e.journal.total
  backend : ∀ e, (endState (op e)).journal.backend = e.journal.backend
  failure : ∀ {e err e'}, op e = .error err e' → e.journal.total < 2 ^ 256 →
    ∀ cause, err = .state cause → NoOverflow e.journal.backend cause

namespace NoGain

/-- An operation that never fails and leaves the balances alone. -/
theorem of_silent {op : HostM (Engine β) α} (hedits : HostEdits Edit.KeepsBalance op)
    (hok : ∀ e, ∃ a e', op e = .ok a e') : NoGain op where
  total e := ((hedits e).1.total_eq fun _ h => h).le
  backend e := (hedits e).1.backend
  failure {e err e'} h := by
    obtain ⟨a, e'', hop⟩ := hok e
    rw [hop] at h
    cases h

protected theorem pure (a : α) : NoGain (pure a : HostM (Engine β) α) :=
  of_silent (.pure a) fun e => ⟨a, e, rfl⟩

protected theorem get : NoGain (get : HostM (Engine β) (Engine β)) :=
  of_silent .get fun e => ⟨e, e, rfl⟩

theorem modifyState {f : Journal β → Journal β} (hf : ∀ j, Changes Edit.KeepsBalance j (f j)) :
    NoGain (modify (modifyState f) : HostM (Engine β) PUnit) :=
  of_silent (.modifyState hf) fun e => ⟨⟨⟩, Engine.modifyState f e, rfl⟩

theorem bind {op : HostM (Engine β) α} {next : α → HostM (Engine β) γ} (hop : NoGain op)
    (hnext : ∀ a, NoGain (next a)) : NoGain (op >>= next) := by
  constructor
  · intro e
    have hless := hop.total e
    rw [bind_apply]
    cases h : op e with
    | ok a e' =>
      rw [h] at hless
      exact ((hnext a).total e').trans hless
    | error err e' =>
      rw [h] at hless
      exact hless
  · intro e
    have hsame := hop.backend e
    rw [bind_apply]
    cases h : op e with
    | ok a e' =>
      rw [h] at hsame
      exact ((hnext a).backend e').trans hsame
    | error err e' =>
      rw [h] at hsame
      exact hsame
  · intro e err e'' hfails hfits
    have hless := hop.total e
    have hsame := hop.backend e
    rw [bind_apply] at hfails
    cases h : op e with
    | error err' e' =>
      rw [h] at hfails
      cases hfails
      exact hop.failure h hfits
    | ok a e' =>
      simp only [h, endState_ok] at hfails hless hsame
      rw [← hsame]
      exact (hnext a).failure hfails (by omega)

theorem ite {p : Prop} [Decidable p] {op op' : HostM (Engine β) α} (hthen : p → NoGain op)
    (helse : ¬p → NoGain op') : NoGain (if p then op else op') := by
  by_cases h : p
  · rw [if_pos h]
    exact hthen h
  · rw [if_neg h]
    exact helse h

theorem withoutResult {op : HostM (Engine β) α} (hop : NoGain op) :
    NoGain (Functor.discard op) := by
  refine ⟨fun e => ?_, fun e => ?_, fun {e err e'} hfails => ?_⟩
  · rw [endState_discard]
    exact hop.total e
  · rw [endState_discard]
    exact hop.backend e
  · cases h : op e with
    | ok a e1 =>
      rw [discard_ok h] at hfails
      cases hfails
    | error err' e1 =>
      rw [discard_error h] at hfails
      cases hfails
      exact hop.failure h

/-- An operation on the state. -/
theorem onState {op : JournalM β α} (htotal : ∀ j, (endState (op j)).total ≤ j.total)
    (hbackend : ∀ j, (endState (op j)).backend = j.backend)
    (hfailure : ∀ {j err j'}, op j = .error err j' → j.total < 2 ^ 256 →
      NoOverflow j.backend err) : NoGain (onState op : HostM (Engine β) α) := by
  have hend : ∀ e : Engine β, (endState (Engine.onState op e)).journal =
      endState (op e.journal) := by
    intro e
    unfold Engine.onState
    cases op e.journal <;> rfl
  refine ⟨fun e => ?_, fun e => ?_, fun {e err e'} hfails hfits cause hcause => ?_⟩
  · rw [hend]
    exact htotal e.journal
  · rw [hend]
    exact hbackend e.journal
  · unfold Engine.onState at hfails
    cases h : op e.journal with
    | ok a j => rw [h] at hfails; cases hfails
    | error err' j =>
      rw [h] at hfails
      cases hfails
      rw [ofStateError_cause hcause]
      exact hfailure h hfits

/-- An operation on the state that leaves the balances alone. -/
theorem of_mild {op : JournalM β α} (hmild : Mild op) (hedits : Edits Edit.KeepsBalance op) :
    NoGain (Engine.onState op : HostM (Engine β) α) :=
  onState (fun j => (hedits.total_eq j).le) hmild.backend fun h _ => hmild.failure h

theorem touch (a : Address) : NoGain (touch a : HostM (Engine β) Bool) :=
  of_silent (.touch trivial) fun e => ⟨_, _, HostEdits.touch_apply a e⟩

theorem touchSlot (s : Slot) : NoGain (touchSlot s : HostM (Engine β) Bool) :=
  of_silent (.touchSlot trivial) fun e => ⟨_, _, HostEdits.touchSlot_apply s e⟩

/-! ### Destruction -/

theorem transfer (source target : Address) (amount : Word) :
    NoGain (Engine.onState (Journal.transfer source target amount) :
      HostM (Engine β) Unit) := by
  have hbackend : ∀ j : Journal β,
      (endState (Journal.transfer source target amount j)).backend = j.backend :=
    fun j => (transfer_reverts source target amount j).backend
  refine onState (fun j => ?_) hbackend fun h => (transfer_error h).2
  cases h : Journal.transfer source target amount j with
  | ok u j' => exact (transfer_ok h).1.le
  | error err j' => exact (transfer_error h).1

/-- Taking all that an account has. -/
theorem emptied (a : Address) :
    NoGain (Engine.onState (Journal.setBalance a 0) : HostM (Engine β) Unit) := by
  refine onState (fun j => ?_) (Mild.setBalance a 0).backend
    fun h _ => (Mild.setBalance a 0).failure h
  cases h : Journal.setBalance a 0 j with
  | error err j' => exact (modifyAccount_error h).le
  | ok u j' =>
    have htaken := setBalance_zero_ok h
    rw [endState_ok]
    omega

theorem sweep (address target : Address) (balance : Word) :
    NoGain (sweep address target balance : HostM (Engine β) Unit) :=
  .ite (fun _ => transfer _ _ _) fun _ => .pure _

theorem scheduleDeletion (address : Address) :
    NoGain (scheduleDeletion address : HostM (Engine β) Unit) := by
  refine NoGain.get.bind fun _ => .ite (fun _ => ?_) fun _ => .pure _
  exact (emptied address).bind fun _ => modifyState fun j => markDestroyed_changes j trivial

theorem destroy (address target : Address) :
    NoGain (destroy address target : HostM (Engine β) DestructOutcome) := by
  unfold Engine.destroy
  refine (touch target).bind fun _ => ?_
  refine (of_mild (.balance address) (balance_edits trivial)).bind fun balance => ?_
  refine (of_mild (.isEmpty target) (isEmpty_edits trivial)).bind fun _ => ?_
  refine NoGain.get.bind fun _ => (sweep address target balance).bind fun _ => ?_
  exact (scheduleDeletion address).bind fun _ => .pure _

theorem recentBlockHash (number : Word) :
    NoGain (recentBlockHash number : HostM (Engine β) Hash) :=
  NoGain.get.bind fun _ => .ite (fun _ => .pure _) fun _ =>
    of_mild (.blockHash _) (blockHash_edits _)

/-- **No use of the engine adds to the sum of balances.** -/
theorem perform (use : HostUse) : NoGain (use.perform : HostM (Engine β) PUnit) := by
  have hcode : ∀ a : Address, NoGain (Engine.onState (Journal.code a) : HostM (Engine β) _) :=
    fun a => of_mild (.code a) (code_edits trivial fun _ _ => trivial)
  have hempty : ∀ a : Address, NoGain (Engine.onState (Journal.isEmpty a) :
      HostM (Engine β) _) := fun a => of_mild (.isEmpty a) (isEmpty_edits trivial)
  cases use with
  | loadAccount a =>
    exact withoutResult ((touch a).bind fun _ => (hempty a).bind fun _ => .pure _)
  | balance a =>
    refine withoutResult ((touch a).bind fun _ => ?_)
    exact (of_mild (.balance a) (balance_edits trivial)).bind fun _ => .pure _
  | code a => exact withoutResult ((touch a).bind fun _ => (hcode a).bind fun _ => .pure _)
  | codeHash a =>
    refine withoutResult ((touch a).bind fun _ => (hempty a).bind fun _ => ?_)
    exact .ite (fun _ => .pure _) fun _ => (hcode a).bind fun _ => .pure _
  | blockHash number => exact withoutResult (recentBlockHash number)
  | sload s =>
    refine withoutResult ((touchSlot s).bind fun _ => ?_)
    exact (of_mild (.storage s) (storage_edits trivial)).bind fun _ => .pure _
  | sstore s value =>
    refine withoutResult ((touchSlot s).bind fun _ => ?_)
    refine (of_mild (.loadSlot s) (slot_edits trivial)).bind fun _ => ?_
    exact (of_mild (.setStorage s value) (setStorage_edits trivial trivial)).bind fun _ => .pure _
  | tload s => exact withoutResult (NoGain.get.bind fun _ => .pure _)
  | tstore s value =>
    exact withoutResult (modifyState fun j => tstore_changes j trivial)
  | log entry => exact withoutResult (modifyState fun j => addLog_changes j trivial)
  | selfDestruct address target => exact withoutResult (destroy address target)

end NoGain

/-! ## Uses of the engine -/

section Uses

variable {e e' : Engine β}

/-- A use that is not booked edits in passing only. -/
theorem use_incidental {use : HostUse} (huse : ¬use.IsBooked) (e : Engine β) :
    Edited Edit.Incidental e (endState (use.perform e)) := by
  have hlearn : ∀ hash c, Edit.Incidental (.learnCode hash c) := fun _ _ => trivial
  rw [HostUse.endState_perform]
  cases use with
  | loadAccount a => exact HostEdits.loadAccount trivial trivial e
  | balance a => exact HostEdits.balance trivial trivial e
  | code a => exact HostEdits.code trivial trivial hlearn e
  | codeHash a => exact HostEdits.codeHash trivial trivial hlearn e
  | blockHash number => exact HostEdits.recentBlockHash number e
  | sload s => exact HostEdits.sload trivial trivial e
  | sstore s value => exact absurd trivial huse
  | tload s => exact .refl e
  | tstore s value => exact HostEdits.modifyState (fun j => tstore_changes j trivial) e
  | log entry => exact HostEdits.modifyState (fun j => addLog_changes j trivial) e
  | selfDestruct address target => exact absurd trivial huse

/-- A use that destroys no account makes ordinary edits only. -/
theorem use_ordinary {use : HostUse} (huse : ¬use.IsDestruct) (e : Engine β) :
    Edited Edit.Ordinary e (endState (use.perform e)) := by
  cases use with
  | sstore s value =>
    rw [HostUse.endState_perform]
    exact HostEdits.sstore trivial trivial trivial e
  | selfDestruct address target => exact absurd trivial huse
  | _ =>
    refine (use_incidental ?_ e).mono fun _ h => h.ordinary
    trivial

/-- A use that destroys no account leaves all balances alone. -/
theorem use_neutral {use : HostUse} (huse : ¬use.IsDestruct) (e : Engine β) :
    (endState (use.perform e)).journal.total = e.journal.total :=
  (use_ordinary huse e).1.total_eq fun _ h => h.keepsBalance

/-- Every use is one that some frame has the authority for. -/
theorem use_authorized (use : HostUse) (e : Engine β) :
    ∃ self isStatic, Edited (Edit.Within self isStatic) e (endState (use.perform e)) := by
  have hsome : ∃ ctx : FrameContext, use.AllowedIn ctx := by
    let ctx (a : Address) : FrameContext := ⟨a, a, 0, ByteArray.empty, false, 0⟩
    cases use with
    | sload s => exact ⟨ctx s.address, rfl⟩
    | sstore s _ => exact ⟨ctx s.address, rfl, rfl⟩
    | tload s => exact ⟨ctx s.address, rfl⟩
    | tstore s _ => exact ⟨ctx s.address, rfl, rfl⟩
    | log entry => exact ⟨ctx entry.address, rfl, rfl⟩
    | selfDestruct address _ => exact ⟨ctx address, rfl, rfl⟩
    | _ => exact ⟨ctx .zero, trivial⟩
  obtain ⟨ctx, hallowed⟩ := hsome
  rw [HostUse.endState_perform]
  exact ⟨_, _, use_within use hallowed e⟩

/-- Every use can be undone. -/
theorem use_reverts (use : HostUse) (e : Engine β) :
    RevertsTo e.journal (endState (use.perform e)).journal := by
  obtain ⟨_, _, hedited⟩ := use_authorized use e
  exact hedited.1.revertsTo

omit [Backend β] in
theorem onState_ok {op : JournalM β α} {a : α} (h : Engine.onState op e = .ok a e') :
    op e.journal = .ok a e'.journal := by
  unfold Engine.onState at h
  cases hop : op e.journal with
  | ok a' j =>
    rw [hop] at h
    cases h
    rfl
  | error err j =>
    rw [hop] at h
    cases h

/-- Deleting an account that has nothing. -/
theorem scheduleDeletion_ok {address : Address} {u : Unit}
    (h : scheduleDeletion address e = .ok u e') (hpoor : e.journal.balanceAt address = 0) :
    e'.journal.total = e.journal.total := by
  unfold scheduleDeletion at h
  obtain ⟨_, _, hget, h⟩ := bind_ok h
  cases hget
  split at h
  · obtain ⟨u', e1, hset, h⟩ := bind_ok h
    have htaken := setBalance_zero_ok (onState_ok hset)
    cases h
    have hmark : Changes Edit.KeepsBalance e1.journal (e1.journal.markDestroyed address) :=
      markDestroyed_changes e1.journal trivial
    have hmarked := hmark.total_eq fun _ h => h
    simp only [Engine.modifyState]
    omega
  · cases h
    rfl

/-- **A destruction in favour of another account** moves the whole balance, so
    nothing is lost when the account is deleted. -/
theorem destroy_ok {address target : Address} {out : DestructOutcome}
    (h : destroy address target e = .ok out e') (hother : target ≠ address) :
    e'.journal.total = e.journal.total := by
  unfold destroy at h
  obtain ⟨isCold, e1, htouch, h⟩ := bind_ok h
  obtain ⟨balance, e2, hbalance, h⟩ := bind_ok h
  obtain ⟨isEmpty, e3, hempty, h⟩ := bind_ok h
  obtain ⟨_, _, hget, h⟩ := bind_ok h
  cases hget
  obtain ⟨_, e4, hsweep, h⟩ := bind_ok h
  obtain ⟨_, e5, hdelete, h⟩ := bind_ok h
  cases h
  -- until the sweep no account is touched
  have hlooks : Changes Edit.SparesAccounts e.journal e1.journal := by
    have htouches : HostEdits Edit.SparesAccounts (Engine.touch target : HostM (Engine β) Bool) :=
      .touch trivial
    have hedited := htouches e
    rw [htouch] at hedited
    exact hedited.1
  have hreads : Changes Edit.SparesAccounts e1.journal e3.journal := by
    have hfirst : Edits Edit.SparesAccounts (Journal.balance address : JournalM β Word) :=
      balance_edits trivial
    have hsecond : Edits Edit.SparesAccounts (Journal.isEmpty target : JournalM β Bool) :=
      isEmpty_edits trivial
    have hfirst := hfirst e1.journal
    have hsecond := hsecond e2.journal
    rw [onState_ok hbalance] at hfirst
    rw [onState_ok hempty] at hsecond
    exact hfirst.trans hsecond
  have hamount := balance_ok (onState_ok hbalance)
  have hsame := Changes.balanceAt_eq (hlooks.trans hreads)
  have hrest := Changes.balanceAt_eq hreads address
  unfold sweep at hsweep
  rw [if_pos hother] at hsweep
  obtain ⟨hswept, hpoorer⟩ := transfer_ok (onState_ok hsweep)
  have hpoor : e4.journal.balanceAt address = 0 := by
    have hless := hpoorer hother.symm
    omega
  calc e'.journal.total = e4.journal.total := scheduleDeletion_ok hdelete hpoor
    _ = e3.journal.total := hswept
    _ = e.journal.total := Finset.sum_congr rfl fun a _ => hsame a

end Uses

/-! ## Opening frames -/

/-- What becomes of the balances when a frame is opened, whatever comes of it:
    the sum is as before, also at the checkpoint of the new frame. While 256
    bits hold the sum no result tells of an overflow. -/
structure Balanced (e : Engine β) (out : FrameStart × Engine β) : Prop where
  reverts : RevertsTo e.journal out.2.journal
  total : out.2.journal.total = e.journal.total
  answer : ∀ result, out.1 = .done result → e.journal.total < 2 ^ 256 →
    result.exit.NoOverflow e.journal.backend
  frame : ∀ child, out.1 = .run child → ∃ base, RevertsTo e.journal base ∧
    base.total = e.journal.total ∧ child.kind.checkpoint = base.checkpoint ∧
    RevertsTo base out.2.journal

section Opening

variable {e : Engine β}

namespace Balanced

/-- A request that came to nothing and left the balances alone. -/
theorem done {result : FrameResult} {j : Journal β} (hreverts : RevertsTo e.journal j)
    (htotal : j.total = e.journal.total)
    (hanswer : e.journal.total < 2 ^ 256 → result.exit.NoOverflow e.journal.backend) :
    Balanced e (.done result, { e with journal := j }) := by
  refine ⟨hreverts, htotal, ?_, nofun⟩
  rintro _ ⟨⟩
  exact hanswer

/-- A request that opened a frame with its checkpoint at `base`. -/
theorem run {child : Activation} {base : Journal β} {e' : Engine β}
    (hbefore : RevertsTo e.journal base) (hbase : base.total = e.journal.total)
    (hkind : child.kind.checkpoint = base.checkpoint) (hafter : RevertsTo base e'.journal)
    (htotal : e'.journal.total = base.total) : Balanced e (.run child, e') := by
  refine ⟨hbefore.trans hafter, htotal.trans hbase, nofun, ?_⟩
  rintro _ ⟨⟩
  exact ⟨base, hbefore, hbase, hkind, hafter⟩

end Balanced

/-- **Opening a call leaves the sum of balances as it is.** -/
theorem startCall_balanced (message : CallMessage) (e : Engine β) :
    Balanced e (startCall message e) := by
  have hmoves := transfer_reverts message.caller message.target message.value.moved e.journal
  have houtcome := startCall_outcome message e
  generalize startCall message e = outcome at houtcome
  cases houtcome with
  | tooDeep => exact .done (.refl _) rfl fun _ => nofun
  | unpaid htransfer =>
    rw [htransfer] at hmoves
    refine .done hmoves.restored.revertsTo hmoves.restored.total_eq fun hfits cause hcause => ?_
    rw [ofStateError_cause (ExitReason.halt.inj hcause)]
    exact (transfer_error htransfer).2 hfits
  | @settled j j' result htransfer hlookup hfair =>
    rw [htransfer] at hmoves
    have hreverts := hmoves.trans hlookup.revertsTo
    unfold endCall
    cases hsuccess : result.isSuccess with
    | true =>
      have htotal : j'.total = j.total := hlookup.total_eq fun _ h => h.keepsBalance
      exact .done hreverts (htotal.trans (transfer_ok htransfer).1) fun _ => hfair.noOverflow
    | false =>
      exact .done hreverts.restored.revertsTo hreverts.restored.total_eq fun _ => hfair.noOverflow
  | opened htransfer hlookup =>
    rw [htransfer] at hmoves
    have htotal := hlookup.total_eq fun _ h => h.keepsBalance
    exact .run (.refl _) rfl rfl (hmoves.trans hlookup.revertsTo)
      (htotal.trans (transfer_ok htransfer).1)

/-- The endowment is moved, not made. -/
theorem endow_ok {message : CreateMessage} {address : Address} {j j' : Journal β} {u : Unit}
    (h : endow message address j = .ok u j') : j'.total = j.total := by
  obtain ⟨u', j1, hnonce, htransfer⟩ := bind_ok h
  have hset : Edits Edit.KeepsBalance (Journal.setNonce address 1 : JournalM β Unit) :=
    setNonce_edits trivial fun _ => rfl
  have hsame := hset.total_eq j
  rw [hnonce] at hsame
  exact (transfer_ok htransfer).1.trans hsame

theorem endow_error {message : CreateMessage} {address : Address} {j j' : Journal β}
    {err : StateError} (h : endow message address j = .error err j')
    (hfits : j.total < 2 ^ 256) : NoOverflow j.backend err := by
  have hset : Edits Edit.KeepsBalance (Journal.setNonce address 1 : JournalM β Unit) :=
    setNonce_edits trivial fun _ => rfl
  have hsame := hset.total_eq j
  have hbackend := (hset j).backend
  unfold endow at h
  rw [bind_apply] at h
  cases hnonce : Journal.setNonce address 1 j with
  | error err' j1 =>
    rw [hnonce] at h
    cases h
    exact (Mild.setNonce address 1).failure hnonce
  | ok u j1 =>
    rw [hnonce, endState_ok] at hsame hbackend
    simp only [hnonce] at h
    rw [← hbackend]
    exact (transfer_error h).2 (by omega)

/-- **Opening a creation leaves the sum of balances as it is.** -/
theorem startCreate_balanced (message : CreateMessage) (e : Engine β) :
    Balanced e (startCreate message e) := by
  -- what is counted and marked before the endowment is no balance
  have hcount : ∀ {nonce : Nat} {b : Journal β}, Counted message nonce e.journal b →
      RevertsTo e.journal b ∧ b.total = e.journal.total := fun hcounted =>
    ⟨hcounted.changes.revertsTo, hcounted.changes.total_eq fun _ h => h.keepsBalance⟩
  have hmark : ∀ (b : Journal β) (a : Address), Changes Edit.KeepsBalance b (b.markCreated a) :=
    fun b a => markCreated_changes b trivial
  have hmarked : ∀ (b : Journal β) (a : Address), (b.markCreated a).total = b.total :=
    fun b a => (hmark b a).total_eq fun _ h => h
  have houtcome := startCreate_outcome message e
  generalize startCreate message e = outcome at houtcome
  cases houtcome with
  | refused _ hfair hlooks =>
    have htotal := hlooks.total_eq fun _ h => h.keepsBalance
    exact .done hlooks.revertsTo htotal fun _ => hfair.noOverflow
  | unclaimed _ hfair hcounted =>
    obtain ⟨hbefore, hbase⟩ := hcount hcounted
    exact .done hbefore hbase fun _ => hfair.noOverflow
  | @unpaid err nonce b j hcounted _ herror =>
    obtain ⟨hbefore, hbase⟩ := hcount hcounted
    have hundone := (mark_endow_opens message (newAddress message nonce) b).revertsTo
    rw [herror] at hundone
    have hrestored := hundone.restored
    refine .done (hbefore.trans hrestored.revertsTo) (hrestored.total_eq.trans hbase) ?_
    intro hfits cause hcause
    have hnone := endow_error herror (by rwa [hmarked, hbase])
    rw [(hmark b _).backend, hcounted.changes.backend] at hnone
    rwa [ofStateError_cause (ExitReason.halt.inj hcause)]
  | @opened nonce b j hcounted _ hok =>
    obtain ⟨hbefore, hbase⟩ := hcount hcounted
    have hafter := (mark_endow_opens message (newAddress message nonce) b).revertsTo
    rw [hok] at hafter
    exact .run hbefore hbase rfl hafter ((endow_ok hok).trans (hmarked b _))

end Opening

/-! ## Closing frames -/

section Closing

variable {kind : FrameKind} {ending : Ending} {e e' : Engine β} {result : FrameResult}

/-- How a frame is told to have ended: as it did, or with a failed
    deployment. -/
theorem endFrame_exit (h : endFrame kind ending e = (result, e')) :
    result.exit = ending.exit ∨ ∃ err, result.exit = .halt err ∧
      ∀ cause, err = .state cause → NoOverflow e.journal.backend cause := by
  cases kind with
  | call checkpoint =>
    have hresult := endCall_result checkpoint (.ended ending.exit ending.gas ending.output) e
    rw [show endCall checkpoint (.ended ending.exit ending.gas ending.output) e = (result, e')
      from h] at hresult
    left
    rw [show result = _ from hresult]
    rfl
  | create checkpoint address =>
    unfold endFrame endCreate at h
    simp only [state_ite_apply] at h
    split at h
    · cases h
      exact .inl rfl
    · rw [state_bind_apply] at h
      have hdeployed := deploy_spec address ending.output ending.gas e
      generalize deploy address ending.output ending.gas e = attempt at h hdeployed
      cases hdeployed with
      | failed hcause _ =>
        cases h
        exact .inr ⟨_, rfl, hcause⟩
      | deployed _ _ =>
        cases h
        exact .inl rfl

/-- A success was one of the frame. It keeps the sum of balances. -/
theorem endFrame_success (h : endFrame kind ending e = (result, e'))
    (hsuccess : result.isSuccess = true) :
    ending.exit.isSuccess = true ∧ RevertsTo e.journal e'.journal ∧
      e'.journal.total = e.journal.total := by
  have hclosed := endFrame_spec kind ending e
  rw [h] at hclosed
  have hexit : ending.exit.isSuccess = true := by
    unfold FrameResult.isSuccess at hsuccess
    rcases endFrame_exit h with hsame | ⟨err, hhalt, _⟩
    · rwa [← hsame]
    · rw [hhalt] at hsuccess
      cases hsuccess
  cases hclosed with
  | kept _ _ hchanges =>
    refine ⟨hexit, hchanges.revertsTo, hchanges.total_eq fun edit hedit => ?_⟩
    cases kind with
    | call checkpoint => exact hedit.elim
    | create checkpoint address => exact hedit.keepsBalance
  | undone hfailure _ _ =>
    rw [hsuccess] at hfailure
    cases hfailure

/-- A failure goes back to the checkpoint of the frame. -/
theorem endFrame_failure (h : endFrame kind ending e = (result, e'))
    (hfailure : result.isSuccess = false) {base : Journal β}
    (hkind : kind.checkpoint = base.checkpoint) (hbase : RevertsTo base e.journal) :
    Restored base e'.journal := by
  have hclosed := endFrame_spec kind ending e
  rw [h] at hclosed
  cases hclosed with
  | kept hsuccess _ _ =>
    rw [hfailure] at hsuccess
    cases hsuccess
  | undone _ _ hchanges =>
    rw [hkind]
    exact (hbase.trans hchanges.revertsTo).restored

end Closing

end Engine

end Evm
