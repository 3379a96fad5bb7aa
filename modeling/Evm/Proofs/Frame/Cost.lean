import Evm.Frame.Run
import Evm.Proofs.EndState

/-! # What a frame pays

    An instruction that lets its frame go on takes at least one unit of gas
    from the frame, and one that asks for a call or creation takes one unit
    more than it sends along: the stipend of a call with value is less than
    what moving the value costs.

    `Pays op cost` says that a success of `op` with result `a` leaves at
    least `cost a` less gas than there was. What is paid by the steps of a
    block adds up (`Pays.bind`); most blocks pay for one thing only, and the
    rest of their steps is shown to give nothing back (`Pays.seq`).
-/

namespace Evm

/-! ## Prices -/

/-- Gas sent along with a request. -/
def Step.sent : Step → Nat
  | .call message => message.gasLimit
  | .create message => message.gasLimit
  | _ => 0

/-- The least that a step takes from its frame. -/
def Step.price : Step → Nat
  | .exit _ _ => 0
  | step => step.sent + 1

theorem Step.price_le (step : Step) : step.price ≤ step.sent + 1 := by
  cases step <;> simp [price]

/-- The least that a frame has paid by the time it stops running. -/
def Action.price : Action → Nat
  | .call message => message.gasLimit + 1
  | .create message => message.gasLimit + 1
  | .finished _ => 0

/-- **A payment**: there was enough, and the rest of the meter stays. -/
theorem Gas.charge?_ok {gas left : Gas} {amount : Nat} (h : gas.charge? amount = some left) :
    amount ≤ gas.remaining ∧ left = { gas with remaining := gas.remaining - amount } := by
  unfold charge? at h
  split at h
  · cases h
  · next hrich =>
    cases h
    exact ⟨Nat.le_of_not_lt hrich, rfl⟩

namespace Exec

variable {η α γ : Type}

/-- A payment touches nothing but the meter. -/
theorem charge_ok {x x' : Exec η} {amount : Nat} {u : Unit} (h : charge amount x = .ok u x') :
    amount ≤ x.frame.gas.remaining ∧
      x' = { x with frame := { x.frame with
        gas := { x.frame.gas with remaining := x.frame.gas.remaining - amount } } } := by
  unfold charge at h
  cases hcharge : x.frame.gas.charge? amount with
  | none =>
    rw [hcharge] at h
    cases h
  | some left =>
    obtain ⟨hrich, rfl⟩ := Gas.charge?_ok hcharge
    rw [hcharge] at h
    cases h
    exact ⟨hrich, rfl⟩

/-- A success leaves at least `cost` less gas than there was. -/
def Pays (op : StepM η α) (cost : α → Nat) : Prop :=
  ∀ x a x', op x = .ok a x' → x'.frame.gas.remaining + cost a ≤ x.frame.gas.remaining

/-! ## Blocks -/

namespace Pays

protected theorem pure {cost : α → Nat} (a : α) (h : cost a = 0) :
    Pays (pure a : StepM η α) cost := by
  intro x a' x' hx
  cases hx
  rw [h]
  exact Nat.le_refl _

protected theorem throw {cost : α → Nat} (e : EvmError) : Pays (throw e : StepM η α) cost := by
  intro x a x' hx
  cases hx

/-- What two steps pay adds up. -/
theorem bind {op : StepM η α} {next : α → StepM η γ} {c : α → Nat} {d : α → γ → Nat}
    {cost : γ → Nat} (hop : Pays op c) (hnext : ∀ a, Pays (next a) (d a))
    (hcost : ∀ a b, cost b ≤ c a + d a b) : Pays (op >>= next) cost := by
  intro x b x' hx
  obtain ⟨a, y, hfirst, hsecond⟩ := bind_ok hx
  have h1 := hop x a y hfirst
  have h2 := hnext a y b x' hsecond
  have h3 := hcost a b
  omega

/-- A first step that gives nothing back. -/
theorem seq {op : StepM η α} {next : α → StepM η γ} {c : α → Nat} {cost : γ → Nat}
    (hop : Pays op c) (hnext : ∀ a, Pays (next a) cost) : Pays (op >>= next) cost :=
  hop.bind hnext fun _ _ => Nat.le_add_left _ _

theorem mono {op : StepM η α} {c cost : α → Nat} (hop : Pays op c) (h : ∀ a, cost a ≤ c a) :
    Pays op cost := by
  intro x a x' hx
  have h1 := hop x a x' hx
  have h2 := h a
  omega

theorem ite {p : Prop} [Decidable p] {op op' : StepM η α} {cost : α → Nat}
    (hthen : p → Pays op cost) (helse : ¬p → Pays op' cost) :
    Pays (if p then op else op') cost := by
  by_cases h : p
  · rw [if_pos h]
    exact hthen h
  · rw [if_neg h]
    exact helse h

/-! ## Small steps -/

/-- A step that does not touch the meter. -/
theorem of_gas_eq {op : StepM η α}
    (h : ∀ x a x', op x = .ok a x' → x'.frame.gas = x.frame.gas) : Pays op fun _ => 0 := by
  intro x a x' hx
  rw [h x a x' hx]
  exact Nat.le_refl _

theorem pop : Pays (pop : StepM η Word) fun _ => 0 := by
  apply of_gas_eq
  intro x a x' hx
  unfold Exec.pop at hx
  split at hx <;> cases hx
  rfl

theorem push (w : Word) : Pays (push w : StepM η Unit) fun _ => 0 := by
  apply of_gas_eq
  intro x a x' hx
  unfold Exec.push at hx
  split at hx <;> cases hx
  rfl

theorem dup (n : Nat) : Pays (dup n : StepM η Unit) fun _ => 0 := by
  apply of_gas_eq
  intro x a x' hx
  unfold Exec.dup at hx
  split at hx <;> cases hx
  rfl

theorem swap (n : Nat) : Pays (swap n : StepM η Unit) fun _ => 0 := by
  apply of_gas_eq
  intro x a x' hx
  unfold Exec.swap at hx
  split at hx <;> cases hx
  rfl

theorem popList (n : Nat) : Pays (popList n : StepM η (List Word)) fun _ => 0 := by
  induction n with
  | zero => exact .pure _ rfl
  | succ n ih => exact pop.seq fun _ => ih.seq fun _ => .pure _ rfl

theorem charge (n : Nat) : Pays (charge n : StepM η Unit) fun _ => n := by
  intro x a x' hx
  obtain ⟨hrich, rfl⟩ := charge_ok hx
  show x.frame.gas.remaining - n + n ≤ x.frame.gas.remaining
  omega

theorem chargeWhen (c : Bool) (n : Nat) :
    Pays (chargeWhen c n : StepM η Unit) fun _ => if c then n else 0 := by
  unfold Exec.chargeWhen
  cases c with
  | true => exact charge n
  | false => exact .pure _ rfl

theorem chargeCold (isCold : Bool) : Pays (chargeCold isCold : StepM η Unit) fun _ => 0 :=
  (chargeWhen isCold _).mono fun _ => Nat.zero_le _

theorem refund (amount : Int) : Pays (refund amount : StepM η Unit) fun _ => 0 := by
  intro x a x' hx
  cases hx
  exact Nat.le_refl _

theorem modifyFrame (f : Frame → Frame) (h : ∀ frame, (f frame).gas = frame.gas) :
    Pays (modifyFrame f : StepM η Unit) fun _ => 0 := by
  apply of_gas_eq
  intro x a x' hx
  cases hx
  exact h x.frame

theorem modifyMemory (f : Memory → Memory) :
    Pays (modifyMemory f : StepM η Unit) fun _ => 0 := by
  apply of_gas_eq
  intro x a x' hx
  cases hx
  rfl

protected theorem get : Pays (get : StepM η (Exec η)) fun _ => 0 := by
  apply of_gas_eq
  intro x a x' hx
  cases hx
  rfl

theorem frameGet (f : Frame → α) : Pays (frameGet f : StepM η α) fun _ => 0 := by
  apply of_gas_eq
  intro x a x' hx
  cases hx
  rfl

theorem hostGet (f : η → α) : Pays (hostGet f : StepM η α) fun _ => 0 := by
  apply of_gas_eq
  intro x a x' hx
  cases hx
  rfl

theorem onHost (op : HostM η α) : Pays (onHost op : StepM η α) fun _ => 0 := by
  apply of_gas_eq
  intro x a x' hx
  unfold Exec.onHost at hx
  simp only at hx
  split at hx <;> cases hx
  rfl

theorem failWhen (c : Bool) (e : EvmError) :
    Pays (failWhen c e : StepM η Unit) fun _ => 0 := by
  unfold Exec.failWhen
  exact .ite (fun _ => .throw e) fun _ => .pure _ rfl

theorem requireWritable : Pays (requireWritable : StepM η Unit) fun _ => 0 :=
  (frameGet _).seq fun _ => failWhen _ _

theorem toIndex (w : Word) : Pays (toIndex w : StepM η Nat) fun _ => 0 := by
  unfold Exec.toIndex
  split
  · exact .pure _ rfl
  · exact .throw _

theorem resizeMemory (offset len : Word) :
    Pays (resizeMemory offset len : StepM η (Nat × Nat)) fun _ => 0 := by
  unfold Exec.resizeMemory
  refine .ite (fun _ => .pure _ rfl) fun _ => ?_
  refine (toIndex _).seq fun _ => (toIndex _).seq fun _ => (frameGet _).seq fun _ => ?_
  refine .ite (fun _ => ?_) fun _ => .pure _ rfl
  exact (charge _).seq fun _ => (modifyMemory _).seq fun _ => .pure _ rfl

theorem readMemory (offset len : Nat) :
    Pays (readMemory offset len : StepM η Bytes) fun _ => 0 :=
  frameGet _

/-- What is set aside is paid. -/
theorem setAside (requested : Nat) :
    Pays (setAside requested : StepM η Nat) fun forwarded => forwarded := by
  unfold Exec.setAside
  refine (frameGet _).seq fun available => ?_
  intro x forwarded x' hx
  obtain ⟨u, y, hcharge, hforwarded⟩ := bind_ok hx
  cases hforwarded
  exact charge _ x u x' hcharge

/-! ## Instructions -/

/-- The end of an instruction after which the frame goes on. -/
theorem next : Pays (pure .next : StepM η Step) Step.sent := .pure _ rfl

theorem copyToMemory (source : Bytes) (memOffset dataOffset len : Word) :
    Pays (copyToMemory source memOffset dataOffset len : StepM η Step) Step.sent :=
  (resizeMemory _ _).seq fun _ => (charge _).seq fun _ => (modifyMemory _).seq fun _ => next

theorem copyFrom (source : Frame → Bytes) :
    Pays (copyFrom source : StepM η Step) Step.sent :=
  pop.seq fun _ => pop.seq fun _ => pop.seq fun _ => (frameGet _).seq fun _ =>
    copyToMemory _ _ _ _

theorem copyReturnData : Pays (copyReturnData : StepM η Step) Step.sent :=
  pop.seq fun _ => pop.seq fun _ => pop.seq fun _ => (frameGet _).seq fun _ =>
    (failWhen _ _).seq fun _ => copyToMemory _ _ _ _

theorem copyWithinMemory : Pays (copyWithinMemory : StepM η Step) Step.sent :=
  pop.seq fun _ => pop.seq fun _ => pop.seq fun _ => .ite (fun _ => next) fun _ =>
    (resizeMemory _ _).seq fun _ => (resizeMemory _ _).seq fun _ => (charge _).seq fun _ =>
      (modifyMemory _).seq fun _ => next

theorem jumpTo (dest : Word) : Pays (jumpTo dest : StepM η Step) Step.sent := by
  unfold Exec.jumpTo
  refine (frameGet _).seq fun _ => .ite (fun _ => ?_) fun _ => .throw _
  refine (modifyFrame _ ?_).seq fun _ => next
  intro frame
  rfl

theorem finish (reason : ExitReason) : Pays (finish reason : StepM η Step) Step.price :=
  pop.seq fun _ => pop.seq fun _ => (resizeMemory _ _).seq fun _ => (readMemory _ _).seq fun _ =>
    .pure _ rfl

theorem pushImmediate (size : Nat) : Pays (pushImmediate size : StepM η Step) Step.sent := by
  unfold Exec.pushImmediate
  refine (frameGet _).seq fun _ => (modifyFrame _ ?_).seq fun _ => (push _).seq fun _ => next
  intro frame
  rfl

theorem popValue (scheme : CallScheme) : Pays (popValue scheme : StepM η Word) fun _ => 0 :=
  .ite (fun _ => pop) fun _ => .pure _ rfl

theorem requireMovable (scheme : CallScheme) (value : Word) :
    Pays (requireMovable scheme value : StepM η Unit) fun _ => 0 :=
  .ite (fun _ => requireWritable) fun _ => .pure _ rfl

theorem chargeCall (scheme : CallScheme) (value : Word) (account : AccountLoad) :
    Pays (chargeCall scheme value account : StepM η Unit) fun _ =>
      if value ≠ 0 then Gas.callValue else 0 := by
  unfold Exec.chargeCall
  refine (chargeCold _).seq fun _ => ?_
  refine (chargeWhen _ _).bind (fun _ => (chargeWhen _ _).mono fun _ => Nat.zero_le _)
    fun _ _ => ?_
  by_cases h : value ≠ 0 <;> simp

theorem popScheme (salted : Bool) :
    Pays (popScheme salted : StepM η CreateScheme) fun _ => 0 :=
  .ite (fun _ => pop.seq fun _ => .pure _ rfl) fun _ => .pure _ rfl

section Hosted

variable [Host η]

/-- A write of a slot has no static cost, but costs at least a warm access. -/
theorem storeSlot : Pays (storeSlot : StepM η Step) Step.price := by
  unfold Exec.storeSlot
  refine requireWritable.seq fun _ => (frameGet _).seq fun _ => (failWhen _ _).seq fun _ => ?_
  refine pop.seq fun _ => pop.seq fun _ => (frameGet _).seq fun _ => ?_
  refine (onHost _).seq fun outcome => ?_
  have hleast : 1 ≤ Gas.sstore outcome.initial outcome.present outcome.new outcome.isCold := by
    unfold Gas.sstore
    simp only [Gas.warmAccess, Gas.sstoreSet, Gas.sstoreReset, Gas.coldSload]
    split <;> split <;> (try split) <;> omega
  refine (charge _).bind (fun _ => (frameGet _).seq fun _ => (refund _).seq fun _ => next)
    fun _ step => ?_
  have hprice := step.price_le
  omega

theorem log (topicCount : Nat) : Pays (log topicCount : StepM η Step) Step.sent :=
  requireWritable.seq fun _ => pop.seq fun _ => pop.seq fun _ => (popList _).seq fun _ =>
    (resizeMemory _ _).seq fun _ => (charge _).seq fun _ => (readMemory _ _).seq fun _ =>
      (frameGet _).seq fun _ => (onHost _).seq fun _ => next

/-- **A call pays for what it sends along.** The stipend is not set aside,
    but moving the value costs more than it. -/
theorem call (scheme : CallScheme) : Pays (call scheme : StepM η Step) Step.sent := by
  unfold Exec.call
  refine pop.seq fun requested => pop.seq fun callee => ?_
  refine (popValue scheme).seq fun value => ?_
  refine pop.seq fun _ => pop.seq fun _ => pop.seq fun outOffset => pop.seq fun outLen => ?_
  refine (requireMovable scheme value).seq fun _ => ?_
  refine (resizeMemory _ _).seq fun input => (resizeMemory _ _).seq fun output => ?_
  refine (onHost _).seq fun account => ?_
  -- what the charge does not cover is left to the rest
  refine (chargeCall scheme value account).bind (d := fun _ step =>
    step.sent - if value ≠ 0 then Gas.callValue else 0) (fun _ => ?_) fun _ _ => by omega
  have htail : ∀ gasLimit, Pays (do
      let bytes ← Exec.readMemory input.1 input.2
      let context ← Exec.frameGet (·.context)
      Exec.modifyFrame fun frame => { frame with waiting := some (.call output.1 output.2) }
      return .call (callMessage context scheme (.ofWord callee) value bytes gasLimit) :
        StepM η Step) fun step => step.sent - gasLimit := by
    intro gasLimit
    refine (readMemory _ _).seq fun bytes => (frameGet _).seq fun context => ?_
    refine (modifyFrame _ ?_).seq fun _ => .pure _ ?_
    · intro frame
      rfl
    · have hlimit : (callMessage context scheme (.ofWord callee) value bytes gasLimit).gasLimit =
          gasLimit := by
        cases scheme <;> rfl
      show (callMessage context scheme (.ofWord callee) value bytes gasLimit).gasLimit -
        gasLimit = 0
      rw [hlimit, Nat.sub_self]
  -- the stipend is sent without being set aside, and costs less than the value
  refine (setAside _).bind (fun forwarded => htail _) fun forwarded step => ?_
  simp only [Gas.callValue, Gas.callStipend]
  split <;> omega

/-- A creation pays for what it sends along. -/
theorem create (salted : Bool) : Pays (create salted : StepM η Step) Step.sent := by
  unfold Exec.create
  refine requireWritable.seq fun _ => pop.seq fun value => pop.seq fun _ => pop.seq fun _ => ?_
  refine (popScheme salted).seq fun scheme => (resizeMemory _ _).seq fun range => ?_
  refine (frameGet _).seq fun hardfork => (hostGet _).seq fun config => ?_
  refine (failWhen _ _).seq fun _ => (charge _).seq fun _ => ?_
  refine (readMemory _ _).seq fun initCode => (frameGet _).seq fun available => ?_
  have htail : ∀ gasLimit, Pays (do
      let context ← Exec.frameGet (·.context)
      Exec.modifyFrame fun frame => { frame with waiting := some .create }
      return .create ⟨context.address, scheme, value, initCode, gasLimit, context.depth + 1⟩ :
        StepM η Step) fun step => step.sent - gasLimit := by
    intro gasLimit
    refine (frameGet _).seq fun context => (modifyFrame _ ?_).seq fun _ => .pure _ ?_
    · intro frame
      rfl
    · exact Nat.sub_self gasLimit
  exact (setAside _).bind (fun forwarded => htail _) fun forwarded step => by omega

theorem selfDestruct : Pays (selfDestruct : StepM η Step) Step.sent :=
  requireWritable.seq fun _ => pop.seq fun _ => (frameGet _).seq fun _ => (onHost _).seq fun _ =>
    (chargeWhen _ _).seq fun _ => (chargeWhen _ _).seq fun _ => (frameGet _).seq fun _ =>
      (refund _).seq fun _ => .pure _ rfl

/-- **Every instruction pays its price**, counting its static cost. -/
theorem execute (op : Opcode) (pc : Nat) :
    Pays (execute op pc : StepM η Step) fun step => step.price - Gas.static op := by
  -- an instruction with a static cost has only what it sends left to pay
  have hsent : ∀ {m : StepM η Step}, 1 ≤ Gas.static op → Pays m Step.sent →
      Pays m fun step => step.price - Gas.static op := by
    intro m hstatic hm
    refine hm.mono fun step => ?_
    have hprice := step.price_le
    omega
  unfold Exec.execute
  cases op with
  | stop => exact .pure _ rfl
  | unary op => exact hsent (Nat.succ_pos _) (pop.seq fun _ => (push _).seq fun _ => next)
  | binary op =>
    refine hsent (by cases op <;> decide) ?_
    exact pop.seq fun _ => pop.seq fun _ => (push _).seq fun _ => next
  | ternary op =>
    refine hsent (Nat.succ_pos _) ?_
    exact pop.seq fun _ => pop.seq fun _ => pop.seq fun _ => (push _).seq fun _ => next
  | exp =>
    refine hsent (Nat.succ_pos _) ?_
    exact pop.seq fun _ => pop.seq fun _ => (charge _).seq fun _ => (push _).seq fun _ => next
  | keccak256 =>
    refine hsent (Nat.succ_pos _) ?_
    exact pop.seq fun _ => pop.seq fun _ => (resizeMemory _ _).seq fun _ => (charge _).seq fun _ =>
      (readMemory _ _).seq fun _ => (push _).seq fun _ => next
  | query q => exact hsent (Nat.succ_pos _) (Pays.get.seq fun _ => (push _).seq fun _ => next)
  | balance =>
    refine hsent (Nat.succ_pos _) ?_
    exact pop.seq fun _ => (onHost _).seq fun _ => (chargeCold _).seq fun _ => (push _).seq fun _ =>
      next
  | selfBalance =>
    refine hsent (Nat.succ_pos _) ?_
    exact (frameGet _).seq fun _ => (onHost _).seq fun _ => (push _).seq fun _ => next
  | extCodeSize =>
    refine hsent (Nat.succ_pos _) ?_
    exact pop.seq fun _ => (onHost _).seq fun _ => (chargeCold _).seq fun _ => (push _).seq fun _ =>
      next
  | extCodeCopy =>
    refine hsent (Nat.succ_pos _) ?_
    exact pop.seq fun _ => pop.seq fun _ => pop.seq fun _ => pop.seq fun _ =>
      (onHost _).seq fun _ => (chargeCold _).seq fun _ => copyToMemory _ _ _ _
  | extCodeHash =>
    refine hsent (Nat.succ_pos _) ?_
    exact pop.seq fun _ => (onHost _).seq fun _ => (chargeCold _).seq fun _ => (push _).seq fun _ =>
      next
  | callDataLoad =>
    refine hsent (Nat.succ_pos _) ?_
    exact pop.seq fun _ => (frameGet _).seq fun _ => (push _).seq fun _ => next
  | callDataCopy => exact hsent (Nat.succ_pos _) (copyFrom _)
  | codeCopy => exact hsent (Nat.succ_pos _) (copyFrom _)
  | returnDataCopy => exact hsent (Nat.succ_pos _) copyReturnData
  | blockHash =>
    refine hsent (Nat.succ_pos _) ?_
    exact pop.seq fun _ => (onHost _).seq fun _ => (push _).seq fun _ => next
  | blobHash =>
    refine hsent (Nat.succ_pos _) ?_
    exact pop.seq fun _ => (hostGet _).seq fun _ => (push _).seq fun _ => next
  | pop => exact hsent (Nat.succ_pos _) (pop.seq fun _ => next)
  | mload =>
    refine hsent (Nat.succ_pos _) ?_
    exact pop.seq fun _ => (resizeMemory _ _).seq fun _ => (frameGet _).seq fun _ =>
      (push _).seq fun _ => next
  | mstore =>
    refine hsent (Nat.succ_pos _) ?_
    exact pop.seq fun _ => pop.seq fun _ => (resizeMemory _ _).seq fun _ =>
      (modifyMemory _).seq fun _ => next
  | mstore8 =>
    refine hsent (Nat.succ_pos _) ?_
    exact pop.seq fun _ => pop.seq fun _ => (resizeMemory _ _).seq fun _ =>
      (modifyMemory _).seq fun _ => next
  | mcopy => exact hsent (Nat.succ_pos _) copyWithinMemory
  | push0 => exact hsent (Nat.succ_pos _) ((push _).seq fun _ => next)
  | push i => exact hsent (Nat.succ_pos _) (pushImmediate _)
  | dup i => exact hsent (Nat.succ_pos _) ((dup _).seq fun _ => next)
  | swap i => exact hsent (Nat.succ_pos _) ((swap _).seq fun _ => next)
  | sload =>
    refine hsent (Nat.succ_pos _) ?_
    exact pop.seq fun _ => (frameGet _).seq fun _ => (onHost _).seq fun _ =>
      (chargeWhen _ _).seq fun _ => (push _).seq fun _ => next
  -- a write of a slot is charged for by its outcome only
  | sstore => exact storeSlot
  | tload =>
    refine hsent (Nat.succ_pos _) ?_
    exact pop.seq fun _ => (frameGet _).seq fun _ => (onHost _).seq fun _ => (push _).seq fun _ =>
      next
  | tstore =>
    refine hsent (Nat.succ_pos _) ?_
    exact requireWritable.seq fun _ => pop.seq fun _ => pop.seq fun _ => (frameGet _).seq fun _ =>
      (onHost _).seq fun _ => next
  | jump => exact hsent (Nat.succ_pos _) (pop.seq fun _ => jumpTo _)
  | jumpi =>
    refine hsent (Nat.succ_pos _) ?_
    exact pop.seq fun _ => pop.seq fun _ => .ite (fun _ => next) fun _ => jumpTo _
  | jumpDest => exact hsent (Nat.succ_pos _) next
  -- a frame that ends owes nothing
  | ret => exact finish _
  | revert => exact finish _
  | invalid => exact .throw _
  | log topics => exact hsent (Nat.le_add_right_of_le (by decide)) (log _)
  | create => exact hsent (Nat.succ_pos _) (create _)
  | create2 => exact hsent (Nat.succ_pos _) (create _)
  | call scheme => exact hsent (Nat.succ_pos _) (call _)
  | selfDestruct => exact hsent (Nat.succ_pos _) selfDestruct

/-- The static cost of an instruction is that of its kind. -/
theorem instruction?_staticGas {fork : Hardfork} {b : UInt8} {instruction : Instruction}
    (h : fork.instruction? b = some instruction) :
    instruction.staticGas = Gas.static instruction.opcode := by
  rw [Hardfork.instruction?_eq_decode?] at h
  unfold Hardfork.decode? at h
  split at h
  · split at h <;> cases h
    rfl
  · cases h

/-- **A step pays its price.** -/
theorem step : Pays (step : StepM η Step) Step.price := by
  unfold Exec.step
  refine (frameGet id).seq fun frame => ?_
  split
  · next hpc =>
    cases hi : frame.hardfork.instruction? frame.code[frame.pc] with
    | none => simp only [hi]; exact .throw _
    | some instruction =>
      simp only [hi]
      refine (failWhen _ _).seq fun _ => (failWhen _ _).seq fun _ => ?_
      -- the static cost is charged first, and is that of the instruction
      refine (charge _).bind (fun _ => (modifyFrame _ ?_).seq fun _ => execute _ _) fun _ step => ?_
      · intro frame
        rfl
      · have hstatic := instruction?_staticGas hi
        omega
  · -- the end of the code is a stop
    exact .pure _ rfl

end Hosted

theorem deliverCall (outOffset outLen : Nat) (result : FrameResult) :
    Pays (deliverCall outOffset outLen result : StepM η Unit) fun _ => 0 := by
  unfold Exec.deliverCall
  refine (refund _).seq fun _ => (modifyMemory _).seq fun _ => ?_
  refine (modifyFrame _ ?_).seq fun _ => push _
  intro frame
  rfl

theorem deliverCreate (result : FrameResult) :
    Pays (deliverCreate result : StepM η Unit) fun _ => 0 := by
  unfold Exec.deliverCreate
  split
  · refine (refund _).seq fun _ => (modifyFrame _ ?_).seq fun _ => push _
    intro frame
    rfl
  · refine (modifyFrame _ ?_).seq fun _ => push _
    intro frame
    rfl

end Pays

/-! ## Runs -/

theorem takeBack_apply (result : FrameResult) (x : Exec η) :
    takeBack result x =
      .ok ⟨⟩ { x with frame := { x.frame with
        waiting := none, gas := x.frame.gas.giveBack result.gas.remaining } } := rfl

/-- Taking an outcome gives back no more than what is left of its gas. -/
theorem deliver_remaining {result : FrameResult} {x x' : Exec η} {u : Unit}
    (h : deliver result x = .ok u x') :
    x'.frame.gas.remaining ≤ x.frame.gas.remaining + result.gas.remaining := by
  unfold deliver at h
  obtain ⟨waiting, y, hwaiting, hrest⟩ := bind_ok h
  cases hwaiting
  cases hw : x.frame.waiting with
  | none =>
    simp only [hw, pure_apply] at hrest
    cases hrest
    exact Nat.le_add_right _ _
  | some pending =>
    -- what is taken back is added before the rest is done
    simp only [hw, bind_apply, takeBack_apply] at hrest
    cases pending with
    | call outOffset outLen => exact Pays.deliverCall outOffset outLen result _ u x' hrest
    | create => exact Pays.deliverCreate result _ u x' hrest

variable [Host η]

/-- **What a run takes from its frame** covers what its request sends along,
    and one unit more. -/
theorem runFor_price (bound : Nat) {x x' : Exec η} {action : Action}
    (h : runFor bound x = (action, x')) :
    x'.frame.gas.remaining + action.price ≤ x.frame.gas.remaining := by
  induction bound generalizing x with
  | zero =>
    cases h
    exact Nat.zero_le _
  | succ bound ih =>
    unfold runFor at h
    cases hs : step x with
    | error e y =>
      -- a halt forfeits all that is left
      rw [hs] at h
      cases h
      exact Nat.zero_le _
    | ok s y =>
      have hpays := Pays.step x s y hs
      rw [hs] at h
      cases s with
      | next =>
        have hrest := ih h
        omega
      | exit reason output => cases h; exact hpays
      | call message => cases h; exact hpays
      | create message => cases h; exact hpays

theorem run_price {x x' : Exec η} {action : Action} (h : run x = (action, x')) :
    x'.frame.gas.remaining + action.price ≤ x.frame.gas.remaining :=
  runFor_price _ h

theorem resume_price {result : FrameResult} {x x' : Exec η} {action : Action}
    (h : resume result x = (action, x')) :
    x'.frame.gas.remaining + action.price ≤
      x.frame.gas.remaining + result.gas.remaining := by
  unfold resume at h
  cases hd : deliver result x with
  | error e y =>
    rw [hd] at h
    cases h
    exact Nat.zero_le _
  | ok u y =>
    rw [hd] at h
    have hback := deliver_remaining hd
    have hrun := run_price h
    omega

/-- The meter that a frame ends with is the one it is told to have. -/
theorem runFor_finished (bound : Nat) {x x' : Exec η} {ending : Ending}
    (h : runFor bound x = (.finished ending, x')) : ending.gas = x'.frame.gas := by
  induction bound generalizing x with
  | zero => cases h; rfl
  | succ bound ih =>
    unfold runFor at h
    cases hs : step x with
    | error e y => rw [hs] at h; cases h; rfl
    | ok s y =>
      rw [hs] at h
      cases s with
      | next => exact ih h
      | exit reason output => cases h; rfl
      | call message => cases h
      | create message => cases h

theorem resume_finished {result : FrameResult} {x x' : Exec η} {ending : Ending}
    (h : resume result x = (.finished ending, x')) : ending.gas = x'.frame.gas := by
  unfold resume at h
  cases hd : deliver result x with
  | error e y => rw [hd] at h; cases h; rfl
  | ok u y => rw [hd] at h; exact runFor_finished _ h

end Exec

end Evm
