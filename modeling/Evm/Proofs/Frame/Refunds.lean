import Evm.Proofs.Frame.Destruction

/-! # Refund counters

    The refund counter of a frame is moved by the two instructions that write a
    slot and destroy an account, and by the answers that the frame takes. What a
    step books on it is said once, with the use of the host that it is booked
    for (`Booked`). A step that fails books nothing.

    A write may also take back a refund that another frame was given, so a
    counter can be below zero. It does not run away: what is booked is paid for,
    at no less than one unit of gas for `Gas.refundRate` of refund
    (`tick_weight`).
-/

namespace Evm

/-! ## Amounts -/

/-- No more than this is booked for each unit of gas that is paid. -/
def Gas.refundRate : Nat := 199

/-- What a write books is paid for. -/
theorem Gas.sstoreRefund_paid (fork : Hardfork) (initial present new : Word) (isCold : Bool) :
    (Gas.sstoreRefund fork initial present new).natAbs ≤
      Gas.refundRate * Gas.sstore initial present new isCold := by
  have hprice : Gas.warmAccess ≤ Gas.sstore initial present new isCold := by
    have hbase : Gas.warmAccess ≤
        if new ≠ present ∧ initial = present then
          if initial = 0 then Gas.sstoreSet else Gas.sstoreReset
        else Gas.warmAccess := by
      split
      · split <;> decide
      · exact Nat.le_refl _
    unfold Gas.sstore
    simp only
    split
    · exact Nat.le_add_right_of_le hbase
    · exact hbase
  have hamount : (Gas.sstoreRefund fork initial present new).natAbs ≤ 19900 := by
    have hclear : 0 ≤ fork.clearRefund ∧ fork.clearRefund ≤ 15000 := by cases fork <;> decide
    unfold Gas.sstoreRefund Gas.sstoreSet Gas.sstoreReset Gas.warmAccess
    split
    · decide
    split
    · split <;> omega
    -- a slot that was zero is not owed for, so the two amounts do not meet
    by_cases hzero : initial = 0
    · simp only [hzero, if_true]
      split <;> decide
    · simp only [hzero, if_false]
      split <;> split <;> (try split) <;> omega
  unfold Gas.warmAccess at hprice
  unfold Gas.refundRate
  omega

/-- What an answer books for the frame that takes it. -/
def FrameResult.refund (result : FrameResult) : Int :=
  if result.isSuccess then result.gas.refunded else 0

namespace FrameResult

variable {result : FrameResult}

theorem refund_of_success (h : result.isSuccess = true) : result.refund = result.gas.refunded := by
  unfold refund
  rw [h, if_pos rfl]

theorem refund_of_failure (h : result.isSuccess = false) : result.refund = 0 := by
  unfold refund
  rw [h, if_neg nofun]

theorem refund_natAbs_le (result : FrameResult) :
    result.refund.natAbs ≤ result.gas.refunded.natAbs := by
  unfold refund
  split
  · exact Nat.le_refl _
  · exact Nat.zero_le _

end FrameResult

/-- The frame waits for an answer of this kind: a creation that succeeded tells
    the address. -/
def Frame.Takes (frame : Frame) (result : FrameResult) : Prop :=
  ∃ pending, frame.waiting = some pending ∧
    (pending = .create → result.isSuccess = true → result.createdAddress.isSome)

/-- The frame waits for what the request leads to. -/
def Request.AwaitedBy : Request → Frame → Prop
  | .call _, frame => ∃ outOffset outLen, frame.waiting = some (.call outOffset outLen)
  | .create _, frame => frame.waiting = some .create

namespace Exec

variable {η : Type} [Host η] {x x' : Exec η}

/-! ## Steps that succeed -/

/-- What a step that succeeds has booked, and for what. -/
inductive Booked (x : Exec η) : Step → Exec η → Prop where
  /-- Nothing: the host was used for none of the two. -/
  | nothing {s : Step} {x' : Exec η} :
    SmallSteps (fun use => ¬use.IsBooked) x x' →
    x'.frame.gas.refunded = x.frame.gas.refunded → Booked x s x'
  /-- A slot was written. -/
  | stored {slot : Slot} {value : Word} {outcome : StoreOutcome} {x' : Exec η} :
    Host.sstore slot value x.host = .ok outcome x'.host →
    x'.frame.gas.refunded = x.frame.gas.refunded +
      Gas.sstoreRefund x.frame.hardfork outcome.initial outcome.present outcome.new →
    x'.frame.gas.remaining +
      Gas.sstore outcome.initial outcome.present outcome.new outcome.isCold ≤
        x.frame.gas.remaining →
    Booked x .next x'
  /-- The frame's account was destroyed. -/
  | destroyed {address target : Address} {outcome : DestructOutcome} {x' : Exec η} :
    Host.selfDestruct address target x.host = .ok outcome x'.host →
    x'.frame.gas.refunded = x.frame.gas.refunded +
      (if !x.frame.hardfork.includes .london && !outcome.previouslyDestroyed then
        Gas.selfDestructRefund else 0) →
    x'.frame.gas.remaining + Gas.static .selfDestruct ≤ x.frame.gas.remaining →
    Booked x (.exit .selfDestruct ByteArray.empty) x'

/-- **A write that succeeds** books what the host tells of the slot, and pays for
    it. -/
theorem storeSlot_ok {s : Step} (h : storeSlot x = .ok s x') :
    s = .next ∧ ∃ slot value outcome, Host.sstore slot value x.host = .ok outcome x'.host ∧
      x'.frame.gas.refunded = x.frame.gas.refunded +
        Gas.sstoreRefund x.frame.hardfork outcome.initial outcome.present outcome.new ∧
      x'.frame.gas.remaining +
        Gas.sstore outcome.initial outcome.present outcome.new outcome.isCold ≤
          x.frame.gas.remaining := by
  unfold storeSlot at h
  obtain ⟨_, x1, hwritable, h⟩ := bind_ok h
  obtain ⟨_, x2, hremaining, h⟩ := bind_ok h
  cases hremaining
  obtain ⟨_, x3, hsentry, h⟩ := bind_ok h
  obtain ⟨key, x4, hkey, h⟩ := bind_ok h
  obtain ⟨value, x5, hvalue, h⟩ := bind_ok h
  obtain ⟨address, x6, haddress, h⟩ := bind_ok h
  cases haddress
  obtain ⟨outcome, x7, hhost, h⟩ := bind_ok h
  -- so far the stack is all that has changed of the frame
  rw [failWhen_ok hsentry, requireWritable_ok hwritable] at hkey
  have hfirst := pop_frame hkey
  have hsecond := pop_frame hvalue
  obtain ⟨hstored, hframe⟩ := onHost_ok hhost
  rw [hsecond, hfirst] at hstored hframe
  obtain ⟨_, x8, hcharge, h⟩ := bind_ok h
  obtain ⟨hrich, hpaid⟩ := charge_ok hcharge
  rw [hframe] at hrich
  obtain ⟨fork, x9, hfork, h⟩ := bind_ok h
  cases hfork
  obtain ⟨_, x10, hrefund, h⟩ := bind_ok h
  cases hrefund
  cases h
  simp only at hrich
  refine ⟨rfl, ⟨x.frame.context.address, key⟩, value, outcome, ?_, ?_, ?_⟩
  · rw [hpaid]
    exact hstored
  · rw [hpaid, hframe]
    rfl
  · rw [hpaid, hframe]
    simp only [Gas.refund]
    omega

/-- A step that is at no instruction that books anything keeps the counter,
    whether it succeeds or fails. -/
theorem step_keeps_refunded (hop : ∀ op, x.frame.opcode? = some op → ¬op.Refunds) :
    (endState (step x)).frame.gas.refunded = x.frame.gas.refunded := by
  have hsteady : Frame.Steady (Frame.Tallied x.frame.gas.refunded x.frame.hardfork) :=
    Frame.Tallied.steady _ _
  have htick := tick_keeps hsteady (x := x) (fun _ h => h) (fun _ _ _ _ _ h => h)
    (fun op hat hrefunds => absurd hrefunds (hop op hat)) ⟨rfl, rfl⟩
  unfold tick at htick
  cases hstep : step x with
  | ok s y =>
    rw [hstep, settle_ok] at htick
    exact htick.1
  | error e y =>
    rw [hstep] at htick
    exact htick.1

/-- **What a step books.** -/
theorem step_booked {s : Step} (h : step x = .ok s x') : Booked x s x' := by
  by_cases hbooks : ∃ op, x.frame.opcode? = some op ∧ op.Refunds
  · obtain ⟨op, hop, hrefunds⟩ := hbooks
    rcases step_fetch hop with ⟨e, _, herror⟩ | ⟨gas, hcharge, hexecute⟩
    · rw [herror] at h
      cases h
    obtain ⟨hrich, hleft⟩ := Gas.charge?_ok hcharge
    have hrefunded : gas.refunded = x.frame.gas.refunded := by rw [hleft]
    have hless : gas.remaining ≤ x.frame.gas.remaining := by
      rw [hleft]
      exact Nat.sub_le _ _
    rw [hexecute] at h
    cases op with
    | sstore =>
      obtain ⟨rfl, slot, value, outcome, hhost, hbooked, hpays⟩ := storeSlot_ok h
      refine .stored hhost ?_ (Nat.le_trans hpays hless)
      rw [hbooked, hrefunded]
    | selfDestruct =>
      have hpays := Pays.selfDestruct _ _ _ h
      obtain ⟨rfl, target, _, outcome, _, hhost, hbooked⟩ := selfDestruct_ok h
      refine .destroyed hhost ?_ ?_
      · rw [hbooked, hrefunded]
      · refine Nat.le_trans (Nat.add_le_add_right hpays _) ?_
        rw [hleft]
        exact Nat.le_of_eq (Nat.sub_add_cancel hrich)
    | _ => exact hrefunds.elim
  · have hnone : ∀ op, x.frame.opcode? = some op → ¬op.Refunds :=
      fun op hop hrefunds => hbooks ⟨op, hop, hrefunds⟩
    have hsame := step_keeps_refunded hnone
    rw [h] at hsame
    have hsuits : ∀ (use : HostUse) (op : Opcode),
        x.frame.opcode? = some op → use.Suits op → ¬use.IsBooked := by
      intro use op hop hsuits hbooked
      cases use with
      | sstore _ _ => exact hnone op hop (by rw [hsuits]; trivial)
      | selfDestruct _ _ => exact hnone op hop (by rw [hsuits]; trivial)
      | _ => exact hbooked
    obtain ⟨op, hop, hmade⟩ := step_madeOf hsuits
    rw [hop] at h
    exact .nothing (hmade.success h).1 hsame

/-! ## Steps that fail -/

/-- A block that fails has kept a property of the frame. -/
def FailsKeeping {α : Type} (P : Frame → Prop) (op : StepM η α) : Prop :=
  ∀ ⦃x e x'⦄, op x = .error e x' → P x.frame → P x'.frame

namespace FailsKeeping

variable {α γ : Type} {P : Frame → Prop}

omit [Host η] in
theorem bind {op : StepM η α} {next : α → StepM η γ} (hop : Keeps P op)
    (hnext : ∀ a, FailsKeeping P (next a)) : FailsKeeping P (op >>= next) := by
  intro x e x'' h hx
  have hkept := hop x hx
  rw [bind_apply] at h
  cases hfirst : op x with
  | error e' x' =>
    rw [hfirst] at h hkept
    cases h
    exact hkept
  | ok a x' =>
    rw [hfirst] at h hkept
    exact hnext a h hkept

omit [Host η] in
/-- What is booked last is booked without fail. -/
theorem refund (amount : Int) (s : Step) :
    FailsKeeping P (do Exec.refund amount; return s : StepM η Step) := by
  rintro x e x' ⟨⟩

theorem storeSlot (hP : Frame.Steady P) : FailsKeeping P (storeSlot : StepM η Step) := by
  unfold Exec.storeSlot
  refine bind .requireWritable fun _ => bind (.frameGet _) fun _ => bind (.failWhen _ _) fun _ => ?_
  refine bind (.pop hP) fun _ => bind (.pop hP) fun _ => bind (.frameGet _) fun _ => ?_
  refine bind (.onHost _) fun _ => bind (.charge hP _) fun _ => bind (.frameGet _) fun _ => ?_
  exact refund _ _

theorem selfDestruct (hP : Frame.Steady P) : FailsKeeping P (selfDestruct : StepM η Step) := by
  unfold Exec.selfDestruct
  refine bind .requireWritable fun _ => bind (.pop hP) fun _ => bind (.frameGet _) fun _ => ?_
  refine bind (.onHost _) fun _ => bind (.chargeWhen hP _ _) fun _ => ?_
  exact bind (.chargeWhen hP _ _) fun _ => bind (.frameGet _) fun _ => refund _ _

end FailsKeeping

/-- **A step that fails books nothing.** -/
theorem step_failed {e : EvmError} (h : step x = .error e x') :
    x'.frame.gas.refunded = x.frame.gas.refunded := by
  by_cases hbooks : ∃ op, x.frame.opcode? = some op ∧ op.Refunds
  · obtain ⟨op, hop, hrefunds⟩ := hbooks
    rcases step_fetch hop with ⟨e', _, herror⟩ | ⟨gas, hcharge, hexecute⟩
    · rw [herror] at h
      cases h
      rfl
    have hsteady : Frame.Steady (Frame.Tallied x.frame.gas.refunded x.frame.hardfork) :=
      Frame.Tallied.steady _ _
    have hfetched : gas.refunded = x.frame.gas.refunded := by rw [(Gas.charge?_ok hcharge).2]
    rw [hexecute] at h
    cases op with
    | sstore => exact (FailsKeeping.storeSlot hsteady h ⟨hfetched, rfl⟩).1
    | selfDestruct => exact (FailsKeeping.selfDestruct hsteady h ⟨hfetched, rfl⟩).1
    | _ => exact hrefunds.elim
  · have hsame := step_keeps_refunded fun op hop hrefunds => hbooks ⟨op, hop, hrefunds⟩
    rw [h] at hsame
    exact hsame

/-! ## Ticks -/

/-- A tick that does not end its frame with a failure is a step that has booked
    something or nothing. -/
theorem tick_booked {action : Option Action} (h : tick x = (action, x'))
    (hends : ∀ ending, action = some (.finished ending) → ending.exit.isSuccess = true) :
    ∃ s, Booked x s x' := by
  unfold tick at h
  cases hstep : step x with
  | error e y =>
    rw [hstep] at h
    cases h
    cases hends _ rfl
  | ok s y =>
    have hlast := settle_ok s y
    rw [hstep] at h
    rw [h] at hlast
    obtain rfl : x' = y := hlast
    exact ⟨s, step_booked hstep⟩

/-- A frame that makes a request books nothing, and waits for what the request
    leads to. -/
theorem tick_requests {request : Request} (h : tick x = (some request.action, x')) :
    x'.frame.gas.refunded = x.frame.gas.refunded ∧ request.AwaitedBy x'.frame := by
  have hstep : step x = .ok request.step x' := tick_request h
  constructor
  · have hbooked := step_booked hstep
    generalize hs : request.step = s at hbooked
    cases hbooked with
    | nothing _ hsame => exact hsame
    | stored _ _ _ => cases request <;> cases hs
    | destroyed _ _ _ => cases request <;> cases hs
  · cases request with
    | call message =>
      obtain ⟨y, _, hcall⟩ := tick_call_executed h
      exact (call_forwards hcall).2
    | create message =>
      obtain ⟨salted, y, hcreate⟩ := tick_create_executed h
      exact (create_forwards hcreate).2

/-- **What a tick books is paid for**, so the counter and the gas that is left,
    at its rate, do not grow together. -/
theorem tick_weight {action : Option Action} (h : tick x = (action, x')) :
    x'.frame.gas.refunded.natAbs + Gas.refundRate * x'.frame.gas.remaining ≤
      x.frame.gas.refunded.natAbs + Gas.refundRate * x.frame.gas.remaining := by
  have hpays := tick_pays h
  unfold tick at h
  cases hstep : step x with
  | error e y =>
    have hsame := step_failed hstep
    rw [hstep] at h
    cases h
    simp only [halt, Gas.forfeit, hsame]
    omega
  | ok s y =>
    have hbooked := step_booked hstep
    have hlast := settle_ok s y
    rw [hstep] at h
    rw [h] at hlast
    obtain rfl : x' = y := hlast
    unfold Gas.refundRate
    cases hbooked with
    | nothing _ hsame => omega
    | @stored _ _ outcome _ _ hbooked hpaid =>
      have hrate := Gas.sstoreRefund_paid x.frame.hardfork outcome.initial outcome.present
        outcome.new outcome.isCold
      unfold Gas.refundRate at hrate
      omega
    | destroyed _ hbooked hpaid =>
      simp only [Gas.static] at hpaid
      have hrefund : (x'.frame.gas.refunded - x.frame.gas.refunded).natAbs ≤ 24000 := by
        rw [hbooked]
        unfold Gas.selfDestructRefund
        split <;> omega
      omega

/-- The rules of a frame stay. -/
theorem tick_hardfork (x : Exec η) : (tick x).2.frame.hardfork = x.frame.hardfork := by
  have hsteady : Frame.Steady fun frame => frame.hardfork = x.frame.hardfork :=
    ⟨fun _ h => h, fun _ h => h, fun _ h => h, fun _ h => h⟩
  exact tick_keeps hsteady (fun _ h => h) (fun _ _ _ _ _ h => h) (fun _ _ _ _ _ h => h) rfl

/-! ## Answers -/

section Answers

omit [Host η]

/-- What is booked first stays booked. -/
theorem refund_then {α : Type} {rest : Unit → StepM η α} (amount : Int) (y : Exec η)
    (hrest : ∀ P : Frame → Prop, Frame.Steady P → Keeps P (rest ())) :
    (endState ((refund amount >>= rest) y)).frame.gas.refunded =
      y.frame.gas.refunded + amount := by
  have hsteady : Frame.Steady
      (Frame.Tallied (y.frame.gas.refunded + amount) y.frame.hardfork) :=
    Frame.Tallied.steady _ _
  exact (hrest _ hsteady { y with frame := { y.frame with gas := y.frame.gas.refund amount } }
    ⟨rfl, rfl⟩).1

theorem deliverCall_refunded (outOffset outLen : Nat) (result : FrameResult) (y : Exec η) :
    (endState (deliverCall outOffset outLen result y)).frame.gas.refunded =
      y.frame.gas.refunded + result.refund :=
  refund_then _ y fun _ hP => (Keeps.modifyMemory hP _).bind fun _ =>
    (Keeps.setReturnData hP _).bind fun _ => .push hP _

theorem deliverCreate_refunded {result : FrameResult}
    (h : result.isSuccess = true → result.createdAddress.isSome) (y : Exec η) :
    (endState (deliverCreate result y)).frame.gas.refunded =
      y.frame.gas.refunded + result.refund := by
  cases hsuccess : result.isSuccess with
  | true =>
    obtain ⟨address, haddress⟩ := Option.isSome_iff_exists.mp (h hsuccess)
    rw [FrameResult.refund_of_success hsuccess]
    unfold deliverCreate
    rw [haddress, hsuccess]
    exact refund_then _ y fun _ hP => (Keeps.setReturnData hP _).bind fun _ => .push hP _
  | false =>
    -- a failure brings nothing
    have hsteady : Frame.Steady (Frame.Tallied y.frame.gas.refunded y.frame.hardfork) :=
      Frame.Tallied.steady _ _
    have hkept : Keeps (Frame.Tallied y.frame.gas.refunded y.frame.hardfork) (do
        modifyFrame fun frame => { frame with
          returnData := if result.exit.isRevert then result.output else ByteArray.empty }
        push 0 : StepM η Unit) :=
      (Keeps.setReturnData hsteady _).bind fun _ => .push hsteady _
    have hsame := (hkept y ⟨rfl, rfl⟩).1
    rw [FrameResult.refund_of_failure hsuccess, Int.add_zero]
    unfold deliverCreate
    rw [hsuccess]
    cases result.createdAddress <;> exact hsame

/-- **A frame that takes an answer books the refund that it brings**, also if it
    halts over it. -/
theorem take_refunded {result : FrameResult} (h : x.frame.Takes result) :
    (take result x).2.frame.gas.refunded = x.frame.gas.refunded + result.refund := by
  obtain ⟨pending, hwaiting, htold⟩ := h
  have hbooked : (endState (deliver result x)).frame.gas.refunded =
      x.frame.gas.refunded + result.refund := by
    cases pending with
    | call outOffset outLen =>
      have hdeliver : deliver result x =
          deliverCall outOffset outLen result (x.refilled result) := by
        simp only [deliver, bind_apply, frameGet, hwaiting, takeBack_apply]
        rfl
      rw [hdeliver]
      exact deliverCall_refunded _ _ _ _
    | create =>
      have hdeliver : deliver result x = deliverCreate result (x.refilled result) := by
        simp only [deliver, bind_apply, frameGet, hwaiting, takeBack_apply]
        rfl
      rw [hdeliver]
      exact deliverCreate_refunded (htold rfl) _
  unfold take
  cases hd : deliver result x with
  | ok u y =>
    rw [hd] at hbooked
    exact hbooked
  | error e y =>
    rw [hd] at hbooked
    exact hbooked

theorem take_hardfork (result : FrameResult) (x : Exec η) :
    (take result x).2.frame.hardfork = x.frame.hardfork := by
  have hsteady : Frame.Steady fun frame => frame.hardfork = x.frame.hardfork :=
    ⟨fun _ h => h, fun _ h => h, fun _ h => h, fun _ h => h⟩
  exact take_keeps hsteady result (fun _ h => h) (fun _ h => h) rfl

end Answers

end Exec

end Evm
