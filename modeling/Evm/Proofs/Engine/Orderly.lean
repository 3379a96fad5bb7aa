import Evm.Proofs.Engine.Standing

/-! # Runs on orderly states

    A frame acts for an account that is taken: one with code, one that another
    frame acts for, or one that it creates and that got its first nonce. So
    whatever storage the frames of a run write belongs to accounts that are
    taken, and a state that was orderly before the run is orderly after it.
-/

namespace Evm

open Journal

variable {β : Type} [Backend β]

/-! ## Frames -/

theorem Edit.Within.tidy {self : Address} {isStatic : Bool} {edit : Edit}
    (h : edit.Within self isStatic) : edit.Tidy (· = self) := by
  cases edit with
  | account a previous new =>
    obtain ⟨_, _, rfl⟩ := h
    rfl
  | storage s new => exact h.1.1
  | _ => trivial

/-- A frame asks for calls only of the account whose code is run or of its own
    account. -/
theorem Request.grounded {ctx : FrameContext} {request : Request} {j : Journal β}
    (hallowed : request.action.AllowedIn ctx) (hself : j.Stands ctx.address) :
    request.Grounded j := by
  rintro message rfl
  obtain ⟨scheme, callee, value, input, gasLimit, rfl, _⟩ := hallowed
  cases scheme with
  | call => exact .inl rfl
  | staticCall => exact .inl rfl
  | callCode => exact .inr hself
  | delegateCall => exact .inr hself

namespace Activation

variable {act : Activation} {answer : Option FrameResult} {e : Engine β} {action : Action}
  {x : Exec (Engine β)}

/-- A run of a frame keeps a state orderly, and leaves the frame its account. -/
theorem runOn_orderly (h : act.runOn answer e = (action, x)) (hact : act.Housed e.journal)
    (horderly : e.journal.Orderly) :
    x.host.journal.Orderly ∧ (⟨x.frame, act.kind⟩ : Activation).Housed x.host.journal := by
  have hendures := runOn_endures h
  have hkept := hact.endures hendures
  constructor
  · refine horderly.tidy ((runOn_within h).1.mono fun _ hwithin => hwithin.tidy) hendures ?_
    rintro a rfl
    exact hkept.stands
  · refine ⟨?_, hkept.nonce⟩
    show x.host.journal.Stands x.frame.context.address
    rw [(runOn_confined h).1]
    exact hkept.stands

end Activation

namespace Engine

variable {e : Engine β} {kind : FrameKind} {ending : Ending} {base : Journal β}

/-- Deploying code at an account with a nonce keeps a state orderly. -/
theorem deploy_orderly {address : Address} {code : Bytes} {gas : Gas} {account : Option Account}
    (haccount : e.journal.presentAccount address = .ok account)
    (hnonce : (account.getD .empty).nonce ≠ 0) (h : e.journal.Orderly) :
    (deploy address code gas e).2.journal.Orderly := by
  have hset := h.setCode haccount hnonce code
  unfold deploy
  rw [state_get_bind_apply, state_ite_apply]
  split
  · exact h
  rw [state_ite_apply]
  split
  · exact h
  cases gas.charge? (Gas.codeDeposit code.size) with
  | none => exact h
  | some left =>
    simp only
    rw [state_bind_apply]
    cases hcode : Journal.setCode address code e.journal with
    | error err j =>
      rw [hcode] at hset
      rw [attempt_error hcode]
      exact hset
    | ok hash j =>
      rw [hcode] at hset
      rw [attempt_ok hcode]
      exact hset

/-- **Closing a frame keeps a state orderly**: the code is that of an account
    with a nonce, and a failure goes back to a state that was orderly. -/
theorem endFrame_orderly (hnonce : ∀ checkpoint address, kind = .create checkpoint address →
      ∃ account, e.journal.presentAccount address = .ok account ∧
        (account.getD .empty).nonce ≠ 0)
    (hkind : kind.checkpoint = base.checkpoint) (hbase : RevertsTo base e.journal)
    (hrevert : base.Orderly) (h : e.journal.Orderly) :
    (endFrame kind ending e).2.journal.Orderly := by
  have hundone : ∀ j : Journal β, RevertsTo base j → j.Sourced →
      (j.revert kind.checkpoint).Orderly := by
    intro j hreverts hsourced
    rw [hkind]
    exact hrevert.restored hreverts.restored (hsourced.revert _)
  cases kind with
  | call checkpoint =>
    unfold endFrame endCall
    cases (FrameResult.ended ending.exit ending.gas ending.output).isSuccess with
    | true => exact h
    | false => exact hundone e.journal hbase h.sourced
  | create checkpoint address =>
    obtain ⟨account, haccount, hnonce⟩ := hnonce checkpoint address rfl
    show (endCreate checkpoint address ending e).2.journal.Orderly
    unfold endCreate
    rw [state_ite_apply]
    cases ending.exit.isSuccess with
    | false => exact hundone e.journal hbase h.sourced
    | true =>
      rw [if_neg nofun, state_bind_apply]
      have horderly : (deploy address ending.output ending.gas e).2.journal.Orderly :=
        deploy_orderly haccount hnonce h
      have hdeployed := deploy_spec address ending.output ending.gas e
      generalize deploy address ending.output ending.gas e = attempt at horderly hdeployed
      cases hdeployed with
      | failed _ hedited =>
        exact hundone _ (hbase.trans hedited.revertsTo) (h.sourced.changes hedited)
      | deployed _ _ => exact horderly

end Engine

/-! ## The tree of frames -/

/-- **A frame keeps a state orderly**, if it was so at the checkpoint of the
    frame, too. -/
theorem evaluates_orderly {e : Engine β} {act : Activation} {answer : Option FrameResult}
    {out : FrameResult × Engine β} {base : Journal β} (h : Evaluates e act answer out)
    (hkind : act.kind.checkpoint = base.checkpoint) (hbase : RevertsTo base e.journal)
    (hrevert : base.Orderly) (horderly : e.journal.Orderly) (hact : act.Housed e.journal) :
    out.2.journal.Orderly := by
  induction h generalizing base with
  | @ended e act answer ending x hrun =>
    obtain ⟨hran, hhoused⟩ := Activation.runOn_orderly hrun hact horderly
    exact Engine.endFrame_orderly hhoused.nonce hkind
      (hbase.trans (Activation.runOn_reverts hrun)) hrevert hran
  | @settled e e' act answer request x result out hrun hstart _ ih =>
    obtain ⟨hran, hhoused⟩ := Activation.runOn_orderly hrun hact horderly
    have hstarted := request.start_started x.host
    have hreverts := (request.start_balanced x.host).reverts
    have hendures := request.start_endures x.host
    rw [hstart] at hstarted hreverts hendures
    have hsettled : e'.journal.Orderly := by
      cases hstarted with
      | done hquiet hbefore hrestored hsourced =>
        exact (hran.tidy hquiet hbefore nofun).restored hrestored (hsourced hran.sourced)
    exact ih hkind ((hbase.trans (Activation.runOn_reverts hrun)).trans hreverts) hrevert hsettled
      (hhoused.endures hendures)
  | @entered e e' e'' act child answer request x result out hrun hstart hchild _ ihchild ihrest =>
    obtain ⟨hran, hhoused⟩ := Activation.runOn_orderly hrun hact horderly
    have hgrounded : request.Grounded x.host.journal := by
      obtain ⟨hcontext, _, hallowed⟩ := Activation.runOn_confined hrun
      have hself := hhoused.stands
      rw [hcontext] at hself
      exact Request.grounded hallowed hself
    have hstarted := request.start_started x.host
    rw [hstart] at hstarted
    cases hstarted with
    | @run _ inner _ hquiet hbefore hchildkind hfresh hinner hafter hhouses =>
      -- the state is orderly at the checkpoint within and after opening
      have hfirst := hran.tidy hquiet hbefore nofun
      have hsecond := hfirst.tidy hinner hafter nofun
      have hvalue := ihchild hchildkind hinner.revertsTo hfirst hsecond (hhouses hgrounded)
      have hreverts := (evaluates_reverts hchild hchildkind hinner.revertsTo).1
      have hendures := hbefore.trans
        (evaluates_endures hchild hchildkind hfresh hinner.revertsTo hafter)
      exact ihrest hkind
        ((hbase.trans (Activation.runOn_reverts hrun)).trans (hquiet.revertsTo.trans hreverts))
        hrevert hvalue (hhoused.endures hendures)

/-- **A call or creation keeps a state orderly.** -/
theorem Request.perform_orderly {request : Request} {e : Engine β} (horderly : e.journal.Orderly)
    (hgrounded : request.Grounded e.journal) : (request.perform e).2.journal.Orderly := by
  have hstarted := request.start_started e
  rw [request.perform_eq]
  generalize request.start e = start at hstarted
  cases hstarted with
  | done hquiet hbefore hrestored hsourced =>
    exact (horderly.tidy hquiet hbefore nofun).restored hrestored (hsourced horderly.sourced)
  | @run act inner e' hquiet hbefore hkind _ hinner hafter hhouses =>
    have hfirst := horderly.tidy hquiet hbefore nofun
    exact evaluates_orderly (Machine.evaluates_drive e' act) hkind hinner.revertsTo hfirst
      (hfirst.tidy hinner hafter nofun) (hhouses hgrounded)

end Evm
