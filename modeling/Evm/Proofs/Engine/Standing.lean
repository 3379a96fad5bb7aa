import Evm.Proofs.Engine.Conservation
import Evm.Proofs.Journal.Orderly

/-! # What a run takes away from accounts

    A frame changes of the accounts only balances; opening a frame counts a
    nonce up, or gives the first one to an address that was free; and closing
    the frame of a creation gives code to that address only. So an account that
    was taken when a frame was opened is still taken when it is closed, with a
    nonce that is no smaller and with the same code (`evaluates_endures`), and
    where the frame fails nothing has changed at all.
-/

namespace Evm

open Journal

variable {β : Type} [Backend β]

/-! ## Sets of edits -/

theorem Edit.Within.enduring {self : Address} {isStatic : Bool} {edit : Edit}
    (h : edit.Within self isStatic) : edit.Enduring := by
  cases edit with
  | account a previous new =>
    obtain ⟨_, _, rfl⟩ := h
    exact .of_code (Nat.le_refl _) rfl
  | _ => trivial

theorem CallMessage.opens_enduring {message : CallMessage} {edit : Edit}
    (h : message.Opens edit) : edit.Enduring := by
  cases edit with
  | account a previous new =>
    obtain ⟨_, _, ⟨_, _, rfl⟩ | ⟨_, _, rfl⟩⟩ := h
    · exact .of_code (Nat.le_refl _) rfl
    · exact .of_code (Nat.le_refl _) rfl
  | _ => trivial

theorem CallMessage.opens_quiet {message : CallMessage} {edit : Edit} (h : message.Opens edit) :
    edit.Quiet := by
  cases edit with
  | account a previous new =>
    obtain ⟨_, _, ⟨_, _, rfl⟩ | ⟨_, _, rfl⟩⟩ := h
    · rfl
    · rfl
  | readAccount _ => trivial
  | learnCode _ _ => trivial
  | _ => exact h.elim

theorem CreateMessage.opens_quiet {message : CreateMessage} {address : Address} {edit : Edit}
    (h : message.Opens address edit) : edit.Quiet := by
  cases edit with
  | account a previous new =>
    rcases h with ⟨_, rfl⟩ | ⟨_, _, ⟨_, _, rfl⟩ | ⟨_, _, rfl⟩⟩
    · rfl
    · rfl
    · rfl
  | readAccount _ => trivial
  | created _ => trivial
  | _ => exact h.elim

theorem CreateMessage.counts_quiet {message : CreateMessage} {edit : Edit}
    (h : message.Counts edit) : edit.Quiet := by
  cases edit with
  | account a previous new =>
    obtain ⟨_, _, rfl⟩ := h
    rfl
  | readAccount _ => trivial
  | warmAddress _ => trivial
  | _ => exact h.elim

theorem Edit.IsLook.quiet {edit : Edit} (h : edit.IsLook) : edit.Quiet := by
  cases edit with
  | readAccount _ => trivial
  | _ => exact h.elim

theorem Edit.IsLook.enduring {edit : Edit} (h : edit.IsLook) : edit.Enduring := by
  cases edit with
  | readAccount _ => trivial
  | _ => exact h.elim

/-! ## Frames and their accounts -/

/-- The account that a frame acts for is taken, and if it is one that the frame
    creates it has a nonce. -/
structure Activation.Housed (act : Activation) (j : Journal β) : Prop where
  stands : j.Stands act.frame.context.address
  nonce : ∀ checkpoint address, act.kind = .create checkpoint address →
    ∃ account, j.presentAccount address = .ok account ∧ (account.getD .empty).nonce ≠ 0

theorem Activation.Housed.endures {act : Activation} {j j' : Journal β} (h : act.Housed j)
    (hendures : j.Endures j') : act.Housed j' where
  stands := hendures.stands h.stands
  nonce checkpoint address hkind := by
    obtain ⟨old, hold, hnonce⟩ := h.nonce checkpoint address hkind
    obtain ⟨new, hnew, hsame⟩ := hendures address old hold
    have hle := hsame.nonce
    exact ⟨new, hnew, by omega⟩

/-- A creation is under way only where the address was free at its checkpoint. -/
def Activation.FreshAt (act : Activation) (base : Journal β) : Prop :=
  ∀ checkpoint address, act.kind = .create checkpoint address → base.Free address

/-- A call that is for the account whose code it runs, or for one that is taken
    already. -/
def Request.Grounded (request : Request) (j : Journal β) : Prop :=
  ∀ message, request = .call message →
    message.target = message.codeAddress ∨ j.Stands message.target

namespace Engine

variable {e : Engine β}

/-! ## Opening -/

/-- Counting up the creator's nonce takes nothing away. -/
theorem Counted.endures {message : CreateMessage} {nonce : Nat} {b j : Journal β}
    (h : Counted message nonce b j) : b.Endures j := by
  intro a old hold
  by_cases ha : a = message.caller
  · subst ha
    obtain ⟨old', hold', hnonce, hnew⟩ := h.creator
    rw [hold] at hold'
    cases hold'
    refine ⟨_, hnew, .of_code ?_ rfl⟩
    simp only [Option.getD_some]
    omega
  · refine ⟨old, ?_, .refl old⟩
    refine h.changes.invariant (P := fun k => k.presentAccount a = .ok old) ?_ hold
    intro edit k k' hcounts happ hk
    rw [happ.presentAccount_of_ne, hk]
    rintro previous new rfl
    exact ha hcounts.1

/-- The new account and its endowment. -/
theorem endow_endures (message : CreateMessage) {address : Address} {b : Journal β}
    (hfree : b.Free address) :
    b.Endures (endState (endow message address (b.markCreated address))) ∧
      ∀ j, endow message address (b.markCreated address) = .ok () j →
        ∃ account, j.presentAccount address = .ok account ∧ (account.getD .empty).nonce ≠ 0 := by
  have hmark : Changes (· = .created address) b (b.markCreated address) := markCreated_changes b rfl
  have hmarked : b.Endures (b.markCreated address) := by
    refine .of_changes (hmark.mono ?_)
    rintro edit rfl
    trivial
  have hset := modifyAccount_spec address (fun account => .ok { account with nonce := 1 })
    (b.markCreated address)
  have hmoves := transfer_enduring (β := β) message.caller address message.value
  unfold endow setNonce
  rw [bind_apply]
  generalize modifyAccount address _ (b.markCreated address) = outcome at hset ⊢
  cases hset with
  | failed hreads =>
    refine ⟨hmarked.trans (.of_changes (hreads.mono ?_)), nofun⟩
    rintro edit rfl
    trivial
  | @written previous new j1 j2 hreads hnew happ =>
    cases hnew
    have hread : b.Endures j1 := by
      refine hmarked.trans (.of_changes (hreads.mono ?_))
      rintro edit rfl
      trivial
    have hgiven : b.Endures j2 := hread.of_free hfree happ
    have hmoved : j2.Endures (endState (transfer message.caller address message.value j2)) :=
      .of_changes (hmoves j2)
    refine ⟨hgiven.trans hmoved, fun j hok => ?_⟩
    have hok' : transfer message.caller address message.value j2 = .ok () j := hok
    rw [hok'] at hmoved
    obtain ⟨account, haccount, hsame⟩ := hmoved address _ happ.presentAccount.2
    have hle := hsame.nonce
    simp only [Option.getD_some] at hle
    exact ⟨account, haccount, by omega⟩

/-- What becomes of the accounts when a request is opened. Where nothing comes
    of it the state is that of some edits, restored or not; otherwise there is
    the state at the checkpoint of the new frame. -/
inductive Started (request : Request) (e : Engine β) : FrameStart × Engine β → Prop where
  | done {result : FrameResult} {b : Journal β} {e' : Engine β} :
    Changes Edit.Quiet e.journal b → e.journal.Endures b → Restored b e'.journal →
    (e.journal.Sourced → e'.journal.Sourced) → Started request e (.done result, e')
  | run {child : Activation} {base : Journal β} {e' : Engine β} :
    Changes Edit.Quiet e.journal base → e.journal.Endures base →
    child.kind.checkpoint = base.checkpoint → child.FreshAt base →
    Changes Edit.Quiet base e'.journal → base.Endures e'.journal →
    (request.Grounded e.journal → child.Housed e'.journal) →
    Started request e (.run child, e')

theorem startCall_started (message : CallMessage) (e : Engine β) :
    Started (.call message) e (startCall message e) := by
  have hmoves : Edits message.Opens
      (Journal.transfer message.caller message.target message.value.moved : JournalM β Unit) :=
    transfer_opens message
  have hopens := hmoves e.journal
  have houtcome := startCall_outcome message e
  -- what was done under the checkpoint, and is kept
  have hkept : ∀ {j : Journal β}, Changes message.Opens e.journal j →
      Changes Edit.Quiet e.journal j ∧ e.journal.Endures j := fun h =>
    ⟨h.mono fun _ h => CallMessage.opens_quiet h,
      .of_changes (h.mono fun _ h => CallMessage.opens_enduring h)⟩
  generalize startCall message e = outcome at houtcome
  cases houtcome with
  | tooDeep => exact .done (.refl _) (.refl _) (.refl _) id
  | unpaid htransfer =>
    rw [htransfer] at hopens
    exact .done (.refl _) (.refl _) hopens.revertsTo.restored fun h => (h.changes hopens).revert _
  | @settled j j' result htransfer hlookup _ =>
    rw [htransfer] at hopens
    have hall := hopens.trans (hlookup.mono fun _ h => lookup_opens h)
    unfold endCall
    cases result.isSuccess with
    | true => exact .done (hkept hall).1 (hkept hall).2 (.refl _) fun h => h.changes hall
    | false =>
      exact .done (.refl _) (.refl _) hall.revertsTo.restored fun h => (h.changes hall).revert _
  | @opened j j' code codeHash jumpDests codeCache htransfer hlookup hcode hnonempty =>
    rw [htransfer] at hopens
    obtain ⟨hquiet, hendures⟩ := hkept (hopens.trans (hlookup.mono fun _ h => lookup_opens h))
    refine .run (.refl _) (.refl _) rfl nofun hquiet hendures ?_
    intro hgrounded
    refine ⟨?_, nofun⟩
    show j'.Stands message.target
    rcases hgrounded message rfl with hsame | hstands
    · -- code was found there
      rw [hsame]
      have hread : ∀ edit : Edit, edit.IsLookup → edit.IsRead := by
        intro edit h
        cases edit <;> trivial
      exact (Journal.Endures.of_restored (hlookup.mono hread).restored).stands
        (code_stands hcode hnonempty)
    · exact hendures.stands hstands

theorem startCreate_started (message : CreateMessage) (e : Engine β) :
    Started (.create message) e (startCreate message e) := by
  have houtcome := startCreate_outcome message e
  have hcounting : ∀ {nonce : Nat} {b : Journal β}, Counted message nonce e.journal b →
      Changes Edit.Quiet e.journal b := fun h =>
    h.changes.mono fun _ h => CreateMessage.counts_quiet h
  -- what is done under the checkpoint of the creation
  have hendow : ∀ (nonce : Nat) (b : Journal β),
      Changes Edit.Quiet b (endState (endow message (newAddress message nonce)
        (b.markCreated (newAddress message nonce)))) := fun nonce b =>
    (mark_endow_opens message _ b).mono fun _ h => CreateMessage.opens_quiet h
  generalize startCreate message e = outcome at houtcome
  cases houtcome with
  | refused _ _ hlooks =>
    exact .done (hlooks.mono fun _ h => h.quiet) (.of_changes (hlooks.mono fun _ h => h.enduring))
      (.refl _) fun h => h.changes hlooks
  | unclaimed _ _ hcounted =>
    exact .done (hcounting hcounted) hcounted.endures (.refl _) fun h => h.changes hcounted.changes
  | @unpaid err nonce b j hcounted hfree herror =>
    have hquiet := hendow nonce b
    rw [herror] at hquiet
    exact .done (hcounting hcounted) hcounted.endures hquiet.revertsTo.restored
      fun h => ((h.changes hcounted.changes).changes hquiet).revert _
  | @opened nonce b j hcounted hfree hok =>
    have hquiet := hendow nonce b
    obtain ⟨hendures, hnonce⟩ := endow_endures message hfree
    rw [hok] at hquiet hendures
    obtain ⟨account, haccount, hne⟩ := hnonce j hok
    refine .run (hcounting hcounted) hcounted.endures rfl ?_ hquiet hendures ?_
    · rintro checkpoint address ⟨⟩
      exact hfree
    · intro _
      refine ⟨⟨account, haccount, .inl hne⟩, ?_⟩
      rintro checkpoint address ⟨⟩
      exact ⟨account, haccount, hne⟩

/-! ## Closing -/

/-- Closing a frame takes nothing away from the accounts that there were at its
    checkpoint. -/
theorem endFrame_endures {act : Activation} {ending : Ending} {base : Journal β}
    (hkind : act.kind.checkpoint = base.checkpoint) (hfresh : act.FreshAt base)
    (hbase : RevertsTo base e.journal) (hendures : base.Endures e.journal) :
    base.Endures (endFrame act.kind ending e).2.journal := by
  have hclosed := endFrame_spec act.kind ending e
  generalize endFrame act.kind ending e = closed at hclosed
  cases hclosed with
  | undone _ _ hchanges =>
    rw [hkind]
    exact .of_restored (hbase.trans hchanges.revertsTo).restored
  | kept _ _ hchanges =>
    refine hchanges.invariant (P := fun k => base.Endures k) ?_ hendures
    intro edit k k' hcloses happ hk
    cases hcase : act.kind with
    | call checkpoint =>
      rw [hcase] at hcloses
      exact hcloses.elim
    | create checkpoint address =>
      rw [hcase] at hcloses
      cases edit with
      | account a previous new =>
        obtain ⟨rfl, _⟩ := hcloses
        exact hk.of_free (hfresh checkpoint a hcase) happ
      | _ => exact hk.trans (.of_same fun a => happ.presentAccount_of_ne nofun)

end Engine

/-! ## Runs of a frame -/

namespace Activation

variable {act : Activation} {answer : Option FrameResult} {e : Engine β} {action : Action}
  {x : Exec (Engine β)}

/-- A run of a frame keeps to the authority of its context. -/
theorem runOn_confined (h : act.runOn answer e = (action, x)) :
    x.frame.context = act.frame.context ∧
      Uses act.frame.context e x.host ∧ action.AllowedIn act.frame.context := by
  cases answer with
  | none => exact Exec.run_confined (x := ⟨act.frame, e⟩) rfl h
  | some result => exact Exec.resume_confined (x := ⟨act.frame, e⟩) rfl h

theorem runOn_within (h : act.runOn answer e = (action, x)) :
    Engine.Edited (Edit.Within act.frame.context.address act.frame.context.isStatic) e x.host :=
  Engine.uses_within (runOn_confined h).2.1

theorem runOn_endures (h : act.runOn answer e = (action, x)) : e.journal.Endures x.host.journal :=
  .of_changes ((runOn_within h).1.mono fun _ hwithin => hwithin.enduring)

end Activation

/-! ## The tree of frames -/

theorem Request.start_started (request : Request) (e : Engine β) :
    Engine.Started request e (request.start e) := by
  cases request with
  | call message => exact Engine.startCall_started message e
  | create message => exact Engine.startCreate_started message e

/-- A request takes nothing away from the accounts. -/
theorem Request.start_endures (request : Request) (e : Engine β) :
    e.journal.Endures (request.start e).2.journal := by
  have hstarted := request.start_started e
  generalize request.start e = out at hstarted
  cases hstarted with
  | done _ hendures hrestored _ => exact hendures.trans (.of_restored hrestored)
  | run _ hbefore _ _ _ hafter _ => exact hbefore.trans hafter

/-- **Nothing is taken away from the accounts that there were at the checkpoint
    of a frame**, however the frame ends. -/
theorem evaluates_endures {e : Engine β} {act : Activation} {answer : Option FrameResult}
    {out : FrameResult × Engine β} {base : Journal β} (h : Evaluates e act answer out)
    (hkind : act.kind.checkpoint = base.checkpoint) (hfresh : act.FreshAt base)
    (hbase : RevertsTo base e.journal) (hendures : base.Endures e.journal) :
    base.Endures out.2.journal := by
  induction h generalizing base with
  | @ended e act answer ending x hrun =>
    exact Engine.endFrame_endures hkind hfresh (hbase.trans (Activation.runOn_reverts hrun))
      (hendures.trans (Activation.runOn_endures hrun))
  | @settled e e' act answer request x result out hrun hstart _ ih =>
    have hopened := request.start_endures x.host
    have hreverts := (request.start_balanced x.host).reverts
    rw [hstart] at hopened hreverts
    exact ih hkind hfresh ((hbase.trans (Activation.runOn_reverts hrun)).trans hreverts)
      ((hendures.trans (Activation.runOn_endures hrun)).trans hopened)
  | @entered e e' e'' act child answer request x result out hrun hstart hchild _ ihchild ihrest =>
    have hstarted := request.start_started x.host
    rw [hstart] at hstarted
    -- the frame within has a checkpoint of its own
    cases hstarted with
    | @run _ inner _ hquiet hbefore hchildkind hchildfresh hinner hafter _ =>
      have hvalue := ihchild hchildkind hchildfresh hinner.revertsTo hafter
      have hreverts := (evaluates_reverts hchild hchildkind hinner.revertsTo).1
      exact ihrest hkind hfresh
        ((hbase.trans (Activation.runOn_reverts hrun)).trans (hquiet.revertsTo.trans hreverts))
        ((hendures.trans (Activation.runOn_endures hrun)).trans (hbefore.trans hvalue))

end Evm
