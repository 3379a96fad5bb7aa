import Evm.Proofs.Frame.Tick

/-! # What a new frame gets

    How much of the gas of a frame a call or creation takes along.

    The gas for a new frame is set aside last, when everything else that the
    instruction costs is paid. So what was left then is what is left now and
    what was set aside, together.
-/

namespace Evm

/-! ## Shares -/

/-- The value that a call takes from the stack, after two other words. -/
def IsValueOperand (scheme : CallScheme) (stack : Stack) (value : Word) : Prop :=
  if Exec.takesValue scheme then stack[2]? = some value else value = 0

/-- The gas of a call, asked for in the frame `before` and with the meter `after`
    behind it: what the top of the stack requests, but no more than all but
    one 64th of what was left, and with a value the stipend on top. What was
    left is what is left now and what was set aside, together. -/
def CallMessage.ForwardedFrom (message : CallMessage) (before : Frame) (after : Gas) : Prop :=
  ∃ requested value left forwarded,
    before.stack[0]? = some requested ∧ IsValueOperand message.scheme before.stack value ∧
    left = after.remaining + forwarded ∧
    forwarded = min requested.toNat (left - left / 64) ∧
    message.gasLimit = forwarded + if value ≠ 0 then Gas.callStipend else 0

/-- The gas of a creation: all but one 64th of what was left. -/
def CreateMessage.ForwardedFrom (message : CreateMessage) (after : Gas) : Prop :=
  ∃ left, left = after.remaining + message.gasLimit ∧ message.gasLimit = left - left / 64

namespace Exec

variable {η : Type} [Host η] {x x' : Exec η}

/-! ## What a new frame gets -/

section Blocks

omit [Host η]

theorem pop_ok {w : Word} (h : pop x = .ok w x') :
    x.frame.stack = w :: x'.frame.stack := by
  unfold pop at h
  cases hstack : x.frame.stack with
  | nil => simp [hstack, Stack.pop] at h
  | cons v rest =>
    simp only [hstack, Stack.pop] at h
    cases h
    rfl

theorem setAside_ok {requested forwarded : Nat} (h : setAside requested x = .ok forwarded x') :
    x.frame.gas.remaining = x'.frame.gas.remaining + forwarded ∧
      forwarded = min requested (Gas.forwardable x.frame.gas.remaining) := by
  unfold setAside at h
  obtain ⟨available, y, havailable, h⟩ := bind_ok h
  cases havailable
  obtain ⟨u, z, hcharge, hforwarded⟩ := bind_ok h
  cases hforwarded
  refine ⟨?_, rfl⟩
  obtain ⟨hrich, rfl⟩ := charge_ok hcharge
  exact (Nat.sub_add_cancel hrich).symm

end Blocks

/-- A call sends along what is requested, up to all but one 64th of what is
    left, and with a value the stipend on top. The frame waits for its outcome. -/
theorem call_forwards {scheme : CallScheme} {message : CallMessage}
    (h : call scheme x = .ok (.call message) x') :
    (∃ requested value left forwarded,
      x.frame.stack[0]? = some requested ∧ IsValueOperand scheme x.frame.stack value ∧
      left = x'.frame.gas.remaining + forwarded ∧
      forwarded = min requested.toNatCapped (left - left / 64) ∧
      message.gasLimit = forwarded + if value ≠ 0 then Gas.callStipend else 0) ∧
      ∃ outOffset outLen, x'.frame.waiting = some (.call outOffset outLen) := by
  unfold call at h
  obtain ⟨requested, x1, hrequested, h⟩ := bind_ok h
  obtain ⟨callee, x2, hcallee, h⟩ := bind_ok h
  obtain ⟨value, x3, hvalue, h⟩ := bind_ok h
  have hstack := pop_ok hrequested
  rw [pop_ok hcallee] at hstack
  have hoperand : IsValueOperand scheme x.frame.stack value := by
    unfold IsValueOperand
    unfold popValue at hvalue
    by_cases htakes : takesValue scheme
    · rw [if_pos htakes] at hvalue ⊢
      rw [pop_ok hvalue] at hstack
      simp [hstack]
    · rw [if_neg htakes] at hvalue ⊢
      cases hvalue
      rfl
  -- the other operands, and what is paid before the gas is set aside
  obtain ⟨inOffset, x4, _, h⟩ := bind_ok h
  obtain ⟨inLen, x5, _, h⟩ := bind_ok h
  obtain ⟨outOffset, x6, _, h⟩ := bind_ok h
  obtain ⟨outLen, x7, _, h⟩ := bind_ok h
  obtain ⟨_, x8, _, h⟩ := bind_ok h
  obtain ⟨input, x9, _, h⟩ := bind_ok h
  obtain ⟨output, x10, _, h⟩ := bind_ok h
  obtain ⟨account, x11, _, h⟩ := bind_ok h
  obtain ⟨_, x12, _, h⟩ := bind_ok h
  obtain ⟨forwarded, x13, hforwarded, h⟩ := bind_ok h
  obtain ⟨hleft, hmin⟩ := setAside_ok hforwarded
  -- nothing is paid afterwards
  cases h
  refine ⟨⟨requested, value, _, forwarded, by simp [hstack], hoperand, hleft, hmin, ?_⟩, _, _, rfl⟩
  cases scheme <;> (simp only [callMessage]; split <;> rfl)

/-- A creation sends along all but one 64th of what is left. The frame waits for
    its outcome. -/
theorem create_forwards {salted : Bool} {message : CreateMessage}
    (h : create salted x = .ok (.create message) x') :
    message.ForwardedFrom x'.frame.gas ∧ x'.frame.waiting = some .create := by
  unfold create at h
  obtain ⟨_, x1, _, h⟩ := bind_ok h
  obtain ⟨value, x2, _, h⟩ := bind_ok h
  obtain ⟨offset, x3, _, h⟩ := bind_ok h
  obtain ⟨len, x4, _, h⟩ := bind_ok h
  obtain ⟨scheme, x5, _, h⟩ := bind_ok h
  obtain ⟨range, x6, _, h⟩ := bind_ok h
  obtain ⟨hardfork, x7, _, h⟩ := bind_ok h
  obtain ⟨config, x8, _, h⟩ := bind_ok h
  obtain ⟨_, x9, _, h⟩ := bind_ok h
  obtain ⟨_, x10, _, h⟩ := bind_ok h
  obtain ⟨initCode, x11, _, h⟩ := bind_ok h
  obtain ⟨available, x12, havailable, hset⟩ := bind_ok h
  obtain ⟨gasLimit, x13, hgasLimit, hdone⟩ := bind_ok hset
  cases havailable
  obtain ⟨hleft, hmin⟩ := setAside_ok hgasLimit
  cases hdone
  refine ⟨⟨_, hleft, ?_⟩, rfl⟩
  simp only [Gas.forwardable] at hmin
  simp only
  omega

/-- A step that succeeds has carried out its instruction, on the same stack. -/
theorem step_executed {s : Step} {op : Opcode} (hop : x.frame.opcode? = some op)
    (h : step x = .ok s x') :
    ∃ (y : Exec η) (pc : Nat), y.frame.stack = x.frame.stack ∧ execute op pc y = .ok s x' := by
  rcases step_fetch hop with ⟨e, _, herror⟩ | ⟨gas, _, hexecute⟩
  · rw [herror] at h
    cases h
  · rw [hexecute] at h
    refine ⟨_, _, ?_, h⟩
    rfl

/-- What a step that succeeds leads to. -/
theorem step_leadsTo {s : Step} (h : step x = .ok s x') : x.frame.LeadsTo s := by
  have hsteps : ∃ op : StepM η Step,
      step x = op x ∧ MadeOf (fun _ => True) x.frame.LeadsTo op :=
    step_madeOf fun _ _ _ _ => trivial
  obtain ⟨op, hop, hmade⟩ := hsteps
  rw [hop] at h
  exact (hmade.success h).2

/-- A frame that asks for a call has carried out the instruction for it. -/
theorem tick_call_executed {message : CallMessage}
    (h : tick x = (some (.call message), x')) :
    ∃ y : Exec η, y.frame.stack = x.frame.stack ∧
      call message.scheme y = .ok (.call message) x' := by
  have hstep : step x = .ok (Request.call message).step x' := tick_request h
  rcases step_leadsTo hstep with hplain | ⟨_, hop, hleads⟩
  · exact hplain.elim
  · cases hleads with
    | plain hplain => exact hplain.elim
    | call heq =>
      subst heq
      obtain ⟨y, pc, hstack, hexecute⟩ := step_executed hop hstep
      exact ⟨y, hstack, hexecute⟩

/-- A frame that asks for a creation has carried out an instruction for it. -/
theorem tick_create_executed {message : CreateMessage}
    (h : tick x = (some (.create message), x')) :
    ∃ (salted : Bool) (y : Exec η), create salted y = .ok (.create message) x' := by
  have hstep : step x = .ok (Request.create message).step x' := tick_request h
  rcases step_leadsTo hstep with hplain | ⟨_, hop, hleads⟩
  · exact hplain.elim
  · cases hleads with
    | plain hplain => exact hplain.elim
    | create heq =>
      rcases heq with rfl | rfl
      · obtain ⟨y, pc, _, hexecute⟩ := step_executed hop hstep
        exact ⟨false, y, hexecute⟩
      · obtain ⟨y, pc, _, hexecute⟩ := step_executed hop hstep
        exact ⟨true, y, hexecute⟩

/-- **What a call is given**, in a frame whose gas 64 bits hold. -/
theorem tick_call {message : CallMessage} (hgas : x.frame.gas.remaining ≤ Word.maxUInt64)
    (h : tick x = (some (.call message), x')) :
    message.ForwardedFrom x.frame x'.frame.gas := by
  have hpays := tick_pays h
  obtain ⟨y, hstack, hcall⟩ := tick_call_executed h
  obtain ⟨requested, value, left, forwarded, htop, hvalue, hleft, hmin, hlimit⟩ :=
    (call_forwards hcall).1
  rw [hstack] at htop hvalue
  refine ⟨requested, value, left, forwarded, htop, hvalue, hleft, ?_, hlimit⟩
  -- 64 bits hold what is left, so capping the request makes no difference
  simp only [tickPrice, Action.price] at hpays
  simp only [Word.toNatCapped] at hmin
  omega

/-- **What a creation is given.** -/
theorem tick_create {message : CreateMessage} (h : tick x = (some (.create message), x')) :
    message.ForwardedFrom x'.frame.gas := by
  obtain ⟨salted, y, hcreate⟩ := tick_create_executed h
  exact (create_forwards hcreate).1

end Exec

end Evm
