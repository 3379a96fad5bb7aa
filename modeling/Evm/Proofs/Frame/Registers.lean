import Evm.Proofs.Frame.Metering

/-! # What instructions leave alone

    All instructions work on the stack, and many on the memory. The position
    in the code, the refund counter and what the frame waits for are different:
    each of them is moved by a few instructions, and by all others it is left
    alone, also when they fail.

    `Keeps P op` says that a block keeps the property `P` of the frame however
    it ends. A property that depends on none of the three, and on the stack
    only up to its height, is `Steady`; every instruction keeps it
    (`execute_keeps`), and a property that depends on one of the three as well
    is kept by the instructions that do not move that one.
-/

namespace Evm

/-- A property of frames that the memory, the returned data and the gas that is
    left do not bear on, nor the stack unless it grows above its limit. -/
structure Frame.Steady (P : Frame → Prop) : Prop where
  stack : ∀ {frame : Frame} {stack : Stack},
    stack.length ≤ frame.stack.length ∨ stack.length ≤ Stack.limit →
    P frame → P { frame with stack }
  memory : ∀ {frame : Frame} (memory : Memory), P frame → P { frame with memory }
  returnData : ∀ {frame : Frame} (returnData : Bytes), P frame → P { frame with returnData }
  remaining : ∀ {frame : Frame} (remaining : Nat),
    P frame → P { frame with gas := { frame.gas with remaining } }

/-- The refund counter stands at an amount, under some rules. -/
def Frame.Tallied (refunded : Int) (fork : Hardfork) (frame : Frame) : Prop :=
  frame.gas.refunded = refunded ∧ frame.hardfork = fork

theorem Frame.Tallied.steady (refunded : Int) (fork : Hardfork) :
    Frame.Steady (Frame.Tallied refunded fork) where
  stack _ h := h
  memory _ h := h
  returnData _ h := h
  remaining _ h := h

namespace Opcode

/-- The instructions that choose where the frame goes on. -/
def Moves : Opcode → Prop
  | .push _ | .jump | .jumpi => True
  | _ => False

/-- The instructions that move the refund counter. -/
def Refunds : Opcode → Prop
  | .sstore | .selfDestruct => True
  | _ => False

end Opcode

namespace Exec

variable {η α γ : Type} {P : Frame → Prop}

/-! ## Blocks -/

/-- The block keeps a property of the frame, be it a success or a failure. -/
def Keeps (P : Frame → Prop) (op : StepM η α) : Prop :=
  ∀ x, P x.frame → P (endState (op x)).frame

namespace Keeps

/-- After a success. -/
theorem ok {op : StepM η α} (hop : Keeps P op) {x x' : Exec η} {a : α} (h : op x = .ok a x')
    (hx : P x.frame) : P x'.frame := by
  have hkept := hop x hx
  rwa [h] at hkept

protected theorem pure (a : α) : Keeps P (pure a : StepM η α) := fun _ hx => hx

protected theorem throw (e : EvmError) : Keeps P (throw e : StepM η α) := fun _ hx => hx

theorem bind {op : StepM η α} {next : α → StepM η γ} (hop : Keeps P op)
    (hnext : ∀ a, Keeps P (next a)) : Keeps P (op >>= next) := by
  intro x hx
  have hmid := hop x hx
  rw [bind_apply]
  cases h : op x with
  | error e y =>
    rw [h] at hmid
    exact hmid
  | ok a y =>
    rw [h] at hmid
    exact hnext a y hmid

theorem ite {p : Prop} [Decidable p] {op op' : StepM η α} (hthen : Keeps P op)
    (helse : Keeps P op') : Keeps P (if p then op else op') := by
  by_cases h : p
  · rw [if_pos h]
    exact hthen
  · rw [if_neg h]
    exact helse

/-- A block that leaves the frame as it is. -/
theorem of_same {op : StepM η α} (h : ∀ x, (endState (op x)).frame = x.frame) : Keeps P op := by
  intro x hx
  rw [h]
  exact hx

theorem modifyFrame {f : Frame → Frame} (h : ∀ {frame}, P frame → P (f frame)) :
    Keeps P (modifyFrame f : StepM η Unit) :=
  fun _ hx => h hx

theorem frameGet (f : Frame → α) : Keeps P (frameGet f : StepM η α) := of_same fun _ => rfl

theorem hostGet (f : η → α) : Keeps P (hostGet f : StepM η α) := of_same fun _ => rfl

protected theorem get : Keeps P (get : StepM η (Exec η)) := of_same fun _ => rfl

theorem onHost (op : HostM η α) : Keeps P (onHost op : StepM η α) := by
  apply of_same
  rintro ⟨frame, host⟩
  unfold Exec.onHost
  simp only
  cases op host <;> rfl

theorem failWhen (c : Bool) (e : EvmError) : Keeps P (failWhen c e : StepM η Unit) :=
  ite (.throw e) (.pure _)

theorem requireWritable : Keeps P (requireWritable : StepM η Unit) :=
  (frameGet _).bind fun _ => failWhen _ _

theorem toIndex (w : Word) : Keeps P (toIndex w : StepM η Nat) := by
  unfold Exec.toIndex
  split
  · exact .pure _
  · exact .throw _

theorem readMemory (offset len : Nat) : Keeps P (readMemory offset len : StepM η Bytes) :=
  frameGet _

/-! ## The stack -/

/-- No word is pushed above the limit. -/
theorem push_height {s s' : Stack} {w : Word} (h : s.push w = .ok s') :
    s'.length ≤ Stack.limit := by
  unfold Stack.push at h
  split at h <;> cases h
  rw [List.length_cons]
  omega

section Steady

variable (hP : Frame.Steady P)

include hP

theorem pop : Keeps P (pop : StepM η Word) := by
  intro x hx
  unfold Exec.pop
  cases hstack : x.frame.stack with
  | nil => exact hx
  | cons w rest =>
    refine hP.stack (.inl ?_) hx
    rw [hstack, List.length_cons]
    exact Nat.le_succ _

theorem push (w : Word) : Keeps P (push w : StepM η Unit) := by
  intro x hx
  unfold Exec.push
  cases h : x.frame.stack.push w with
  | error e => exact hx
  | ok s => exact hP.stack (.inr (push_height h)) hx

theorem dup (n : Nat) : Keeps P (dup n : StepM η Unit) := by
  intro x hx
  unfold Exec.dup
  cases h : x.frame.stack.dup n with
  | error e => exact hx
  | ok s =>
    refine hP.stack (.inr ?_) hx
    unfold Stack.dup at h
    split at h
    · cases h
    · split at h
      · exact push_height h
      · cases h

theorem swap (n : Nat) : Keeps P (swap n : StepM η Unit) := by
  intro x hx
  unfold Exec.swap
  cases h : x.frame.stack.swap n with
  | error e => exact hx
  | ok s =>
    -- the words change places, and there are as many of them
    refine hP.stack (.inl (Nat.le_of_eq ?_)) hx
    unfold Stack.swap at h
    split at h
    · next top rest k hstack =>
      split at h <;> cases h
      rw [hstack, List.length_cons, List.length_cons, List.length_set]
    · cases h

theorem popList (n : Nat) : Keeps P (popList n : StepM η (List Word)) := by
  induction n with
  | zero => exact .pure _
  | succ n ih => exact (pop hP).bind fun _ => ih.bind fun _ => .pure _

/-! ## Gas and memory -/

theorem charge (n : Nat) : Keeps P (charge n : StepM η Unit) := by
  intro x hx
  unfold Exec.charge Gas.charge?
  by_cases h : x.frame.gas.remaining < n
  · rw [if_pos h]
    exact hx
  · rw [if_neg h]
    exact hP.remaining _ hx

theorem chargeWhen (c : Bool) (n : Nat) : Keeps P (chargeWhen c n : StepM η Unit) :=
  ite (charge hP n) (.pure _)

theorem chargeCold (isCold : Bool) : Keeps P (chargeCold isCold : StepM η Unit) :=
  chargeWhen hP _ _

theorem modifyMemory (f : Memory → Memory) : Keeps P (modifyMemory f : StepM η Unit) := by
  intro x hx
  have hmemory : P { x.frame with memory := f x.frame.memory } := hP.memory _ hx
  exact hmemory

theorem setReturnData (returnData : Bytes) :
    Keeps P (Exec.modifyFrame fun frame => { frame with returnData } : StepM η Unit) :=
  modifyFrame (hP.returnData _)

theorem resizeMemory (offset len : Word) :
    Keeps P (resizeMemory offset len : StepM η (Nat × Nat)) := by
  unfold Exec.resizeMemory
  refine .ite (.pure _) ?_
  refine (toIndex _).bind fun _ => (toIndex _).bind fun _ => (frameGet _).bind fun _ => ?_
  refine .ite ?_ (.pure _)
  exact (charge hP _).bind fun _ => (modifyMemory hP _).bind fun _ => .pure _

theorem setAside (requested : Nat) : Keeps P (setAside requested : StepM η Nat) :=
  (frameGet _).bind fun _ => (charge hP _).bind fun _ => .pure _

/-! ## Parts of instructions -/

theorem pushNext (w : Word) : Keeps P (do Exec.push w; return .next : StepM η Step) :=
  (push hP w).bind fun _ => .pure _

theorem copyToMemory (source : Bytes) (memOffset dataOffset len : Word) :
    Keeps P (copyToMemory source memOffset dataOffset len : StepM η Step) :=
  (resizeMemory hP _ _).bind fun _ => (charge hP _).bind fun _ => (modifyMemory hP _).bind fun _ =>
    .pure _

theorem copyFrom (source : Frame → Bytes) : Keeps P (copyFrom source : StepM η Step) :=
  (pop hP).bind fun _ => (pop hP).bind fun _ => (pop hP).bind fun _ => (frameGet _).bind fun _ =>
    copyToMemory hP _ _ _ _

theorem copyReturnData : Keeps P (copyReturnData : StepM η Step) :=
  (pop hP).bind fun _ => (pop hP).bind fun _ => (pop hP).bind fun _ => (frameGet _).bind fun _ =>
    (failWhen _ _).bind fun _ => copyToMemory hP _ _ _ _

theorem copyWithinMemory : Keeps P (copyWithinMemory : StepM η Step) :=
  (pop hP).bind fun _ => (pop hP).bind fun _ => (pop hP).bind fun _ => .ite (.pure _) <|
    (resizeMemory hP _ _).bind fun _ => (resizeMemory hP _ _).bind fun _ =>
      (charge hP _).bind fun _ => (modifyMemory hP _).bind fun _ => .pure _

theorem finish (reason : ExitReason) : Keeps P (finish reason : StepM η Step) :=
  (pop hP).bind fun _ => (pop hP).bind fun _ => (resizeMemory hP _ _).bind fun _ =>
    (readMemory _ _).bind fun _ => .pure _

end Steady

end Keeps

variable [Host η]

namespace Keeps

section Steady

variable (hP : Frame.Steady P)

include hP

theorem log (topicCount : Nat) : Keeps P (log topicCount : StepM η Step) := by
  unfold Exec.log
  refine requireWritable.bind fun _ => (pop hP).bind fun _ => (pop hP).bind fun _ => ?_
  refine (popList hP _).bind fun _ => (resizeMemory hP _ _).bind fun _ => ?_
  refine (charge hP _).bind fun _ => (readMemory _ _).bind fun _ => (frameGet _).bind fun _ => ?_
  exact (onHost _).bind fun _ => .pure _

/-- A frame that asks for a call waits for it. -/
theorem call (scheme : CallScheme)
    (hwaits : ∀ {frame : Frame} (waiting), P frame → P { frame with waiting }) :
    Keeps P (call scheme : StepM η Step) := by
  unfold Exec.call
  refine (pop hP).bind fun _ => (pop hP).bind fun _ => ?_
  refine (ite (pop hP) (.pure _)).bind fun _ => (pop hP).bind fun _ => (pop hP).bind fun _ => ?_
  refine (pop hP).bind fun _ => (pop hP).bind fun _ => ?_
  refine (ite requireWritable (.pure _)).bind fun _ => ?_
  refine (resizeMemory hP _ _).bind fun _ => (resizeMemory hP _ _).bind fun _ => ?_
  refine (onHost _).bind fun account => ?_
  have hcost : ∀ value, Keeps P (chargeCall scheme value account : StepM η Unit) := fun value =>
    (chargeCold hP _).bind fun _ => (chargeWhen hP _ _).bind fun _ => chargeWhen hP _ _
  refine (hcost _).bind fun _ => (setAside hP _).bind fun _ => (readMemory _ _).bind fun _ => ?_
  exact (frameGet _).bind fun _ => (modifyFrame (hwaits _)).bind fun _ => .pure _

/-- A frame that asks for a creation waits for it. -/
theorem create (salted : Bool)
    (hwaits : ∀ {frame : Frame} (waiting), P frame → P { frame with waiting }) :
    Keeps P (create salted : StepM η Step) := by
  unfold Exec.create
  refine requireWritable.bind fun _ => (pop hP).bind fun _ => (pop hP).bind fun _ => ?_
  refine (pop hP).bind fun _ => (ite ((pop hP).bind fun _ => .pure _) (.pure _)).bind fun _ => ?_
  refine (resizeMemory hP _ _).bind fun _ => (frameGet _).bind fun _ => (hostGet _).bind fun _ => ?_
  refine (failWhen _ _).bind fun _ => (charge hP _).bind fun _ => (readMemory _ _).bind fun _ => ?_
  refine (frameGet _).bind fun _ => (setAside hP _).bind fun _ => (frameGet _).bind fun _ => ?_
  exact (modifyFrame (hwaits _)).bind fun _ => .pure _

end Steady

end Keeps

/-! ## Instructions -/

/-- **What an instruction leaves alone.** A property that does not depend on
    what the instruction moves is kept by it, be it a success or a failure. -/
theorem execute_keeps (hP : Frame.Steady P) (op : Opcode) (pc : Nat)
    (hmoves : op.Moves → ∀ {frame : Frame} (pc), P frame → P { frame with pc })
    (hwaits : op.Requests → ∀ {frame : Frame} (waiting), P frame → P { frame with waiting })
    (hrefunds : op.Refunds → ∀ {frame : Frame} (amount),
      P frame → P { frame with gas := frame.gas.refund amount }) :
    Keeps P (execute op pc : StepM η Step) := by
  have hjump : op.Moves → ∀ dest, Keeps P (jumpTo dest : StepM η Step) := fun hop dest =>
    (Keeps.frameGet _).bind fun _ =>
      .ite ((Keeps.modifyFrame (hmoves hop _)).bind fun _ => .pure _) (.throw _)
  have hrefund : op.Refunds → ∀ amount, Keeps P (refund amount : StepM η Unit) :=
    fun hop amount _ hx => hrefunds hop amount hx
  unfold execute
  cases op with
  | stop => exact .pure _
  | unary op => exact (Keeps.pop hP).bind fun _ => .pushNext hP _
  | binary op => exact (Keeps.pop hP).bind fun _ => (Keeps.pop hP).bind fun _ => .pushNext hP _
  | ternary op =>
    exact (Keeps.pop hP).bind fun _ => (Keeps.pop hP).bind fun _ => (Keeps.pop hP).bind fun _ =>
      .pushNext hP _
  | exp =>
    exact (Keeps.pop hP).bind fun _ => (Keeps.pop hP).bind fun _ =>
      (Keeps.charge hP _).bind fun _ => .pushNext hP _
  | keccak256 =>
    refine (Keeps.pop hP).bind fun _ => (Keeps.pop hP).bind fun _ => ?_
    refine (Keeps.resizeMemory hP _ _).bind fun _ => (Keeps.charge hP _).bind fun _ => ?_
    exact (Keeps.readMemory _ _).bind fun _ => .pushNext hP _
  | query q => exact Keeps.get.bind fun _ => .pushNext hP _
  -- the host is asked about an account
  | balance =>
    exact (Keeps.pop hP).bind fun _ => (Keeps.onHost _).bind fun _ =>
      (Keeps.chargeCold hP _).bind fun _ => .pushNext hP _
  | selfBalance =>
    exact (Keeps.frameGet _).bind fun _ => (Keeps.onHost _).bind fun _ => .pushNext hP _
  | extCodeSize =>
    exact (Keeps.pop hP).bind fun _ => (Keeps.onHost _).bind fun _ =>
      (Keeps.chargeCold hP _).bind fun _ => .pushNext hP _
  | extCodeCopy =>
    refine (Keeps.pop hP).bind fun _ => (Keeps.pop hP).bind fun _ => (Keeps.pop hP).bind fun _ => ?_
    refine (Keeps.pop hP).bind fun _ => (Keeps.onHost _).bind fun _ => ?_
    exact (Keeps.chargeCold hP _).bind fun _ => .copyToMemory hP _ _ _ _
  | extCodeHash =>
    exact (Keeps.pop hP).bind fun _ => (Keeps.onHost _).bind fun _ =>
      (Keeps.chargeCold hP _).bind fun _ => .pushNext hP _
  | callDataLoad =>
    exact (Keeps.pop hP).bind fun _ => (Keeps.frameGet _).bind fun _ => .pushNext hP _
  | callDataCopy => exact .copyFrom hP _
  | codeCopy => exact .copyFrom hP _
  | returnDataCopy => exact .copyReturnData hP
  | blockHash => exact (Keeps.pop hP).bind fun _ => (Keeps.onHost _).bind fun _ => .pushNext hP _
  | blobHash => exact (Keeps.pop hP).bind fun _ => (Keeps.hostGet _).bind fun _ => .pushNext hP _
  -- stack and memory
  | pop => exact (Keeps.pop hP).bind fun _ => .pure _
  | mload =>
    exact (Keeps.pop hP).bind fun _ => (Keeps.resizeMemory hP _ _).bind fun _ =>
      (Keeps.frameGet _).bind fun _ => .pushNext hP _
  | mstore =>
    exact (Keeps.pop hP).bind fun _ => (Keeps.pop hP).bind fun _ =>
      (Keeps.resizeMemory hP _ _).bind fun _ => (Keeps.modifyMemory hP _).bind fun _ => .pure _
  | mstore8 =>
    exact (Keeps.pop hP).bind fun _ => (Keeps.pop hP).bind fun _ =>
      (Keeps.resizeMemory hP _ _).bind fun _ => (Keeps.modifyMemory hP _).bind fun _ => .pure _
  | mcopy => exact .copyWithinMemory hP
  | push0 => exact .pushNext hP _
  | push i =>
    exact (Keeps.frameGet _).bind fun _ =>
      Keeps.bind (fun _ hx => hmoves trivial _ hx) fun _ => .pushNext hP _
  | dup i => exact (Keeps.dup hP _).bind fun _ => .pure _
  | swap i => exact (Keeps.swap hP _).bind fun _ => .pure _
  -- the host is asked about storage
  | sload =>
    refine (Keeps.pop hP).bind fun _ => (Keeps.frameGet _).bind fun _ => ?_
    exact (Keeps.onHost _).bind fun _ => (Keeps.chargeWhen hP _ _).bind fun _ => .pushNext hP _
  | sstore =>
    show Keeps P storeSlot
    unfold storeSlot
    refine Keeps.requireWritable.bind fun _ => (Keeps.frameGet _).bind fun _ => ?_
    refine (Keeps.failWhen _ _).bind fun _ => (Keeps.pop hP).bind fun _ => ?_
    refine (Keeps.pop hP).bind fun _ => (Keeps.frameGet _).bind fun _ => ?_
    refine (Keeps.onHost _).bind fun _ => (Keeps.charge hP _).bind fun _ => ?_
    exact (Keeps.frameGet _).bind fun _ => (hrefund trivial _).bind fun _ => .pure _
  | tload =>
    exact (Keeps.pop hP).bind fun _ => (Keeps.frameGet _).bind fun _ =>
      (Keeps.onHost _).bind fun _ => .pushNext hP _
  | tstore =>
    refine Keeps.requireWritable.bind fun _ => (Keeps.pop hP).bind fun _ => ?_
    refine (Keeps.pop hP).bind fun _ => (Keeps.frameGet _).bind fun _ => ?_
    exact (Keeps.onHost _).bind fun _ => .pure _
  -- flow
  | jump => exact (Keeps.pop hP).bind fun _ => hjump trivial _
  | jumpi =>
    exact (Keeps.pop hP).bind fun _ => (Keeps.pop hP).bind fun _ =>
      .ite (.pure _) (hjump trivial _)
  | jumpDest => exact .pure _
  | ret => exact .finish hP _
  | revert => exact .finish hP _
  | invalid => exact .throw _
  -- requests
  | log topics => exact .log hP _
  | create => exact .create hP _ (hwaits trivial)
  | create2 => exact .create hP _ (hwaits trivial)
  | call scheme => exact .call hP _ (hwaits trivial)
  | selfDestruct =>
    show Keeps P selfDestruct
    unfold selfDestruct
    refine Keeps.requireWritable.bind fun _ => (Keeps.pop hP).bind fun _ => ?_
    refine (Keeps.frameGet _).bind fun _ => (Keeps.onHost _).bind fun _ => ?_
    refine (Keeps.chargeWhen hP _ _).bind fun _ => (Keeps.chargeWhen hP _ _).bind fun _ => ?_
    exact (Keeps.frameGet _).bind fun _ => (hrefund trivial _).bind fun _ => .pure _

/-! ## Ticks -/

/-- A step in a place where there is no instruction. -/
theorem step_of_none {x : Exec η} (h : x.frame.opcode? = none) :
    step x = if hpc : x.frame.pc < x.frame.code.size then
        .error (.invalidOpcode x.frame.code[x.frame.pc]) x
      else .ok (.exit .stop ByteArray.empty) x := by
  unfold Frame.opcode? at h
  unfold step
  simp only [bind_apply, frameGet, id_eq]
  by_cases hpc : x.frame.pc < x.frame.code.size
  · rw [dif_pos hpc] at h
    have hnone : x.frame.hardfork.instruction? x.frame.code[x.frame.pc] = none :=
      Option.map_eq_none_iff.mp h
    rw [dif_pos hpc, dif_pos hpc]
    simp only [hnone]
    rfl
  · rw [dif_neg hpc, dif_neg hpc]
    rfl

omit [Host η] in
/-- A frame that halts forfeits its gas, and that is all. -/
theorem settle_keeps (hP : Frame.Steady P) {r : EStateM.Result EvmError (Exec η) Step}
    (h : P (endState r).frame) : P (settle r).2.frame := by
  cases r with
  | ok s y =>
    rw [settle_ok]
    exact h
  | error e y => exact hP.remaining 0 h

/-- What a tick leaves alone, in a frame that is free to move on. -/
theorem tick_keeps (hP : Frame.Steady P) {x : Exec η}
    (hmoves : ∀ {frame : Frame} (pc), P frame → P { frame with pc })
    (hwaits : ∀ op, x.frame.opcode? = some op → op.Requests →
      ∀ {frame : Frame} (waiting), P frame → P { frame with waiting })
    (hrefunds : ∀ op, x.frame.opcode? = some op → op.Refunds → ∀ {frame : Frame} (amount),
      P frame → P { frame with gas := frame.gas.refund amount })
    (hx : P x.frame) : P (tick x).2.frame := by
  refine settle_keeps hP ?_
  cases hop : x.frame.opcode? with
  | none =>
    -- there is no instruction, or the code is at its end
    rw [step_of_none hop]
    split <;> exact hx
  | some op =>
    rcases step_fetch hop with ⟨e, _, herror⟩ | ⟨gas, hcharge, hexecute⟩
    · rw [herror]
      exact hx
    · rw [hexecute]
      refine execute_keeps hP op _ (fun _ => hmoves) (hwaits op hop) (hrefunds op hop) _ ?_
      have hgas : gas = { x.frame.gas with remaining := gas.remaining } := by
        obtain ⟨_, rfl⟩ := Gas.charge?_ok hcharge
        rfl
      rw [hgas]
      have hpaid : P { x.frame with gas := { x.frame.gas with remaining := gas.remaining } } :=
        hP.remaining _ hx
      exact hmoves _ hpaid

omit [Host η] in
/-- What taking an outcome leaves alone, whatever the frame waits for. -/
theorem take_keeps (hP : Frame.Steady P) (result : FrameResult)
    (hwaits : ∀ {frame : Frame} (waiting), P frame → P { frame with waiting })
    (hrefunds : ∀ {frame : Frame} (amount),
      P frame → P { frame with gas := frame.gas.refund amount })
    {x : Exec η} (hx : P x.frame) : P (take result x).2.frame := by
  have hrefund : ∀ amount, Keeps P (refund amount : StepM η Unit) := fun amount _ hx =>
    hrefunds amount hx
  have hback : Keeps P (takeBack result : StepM η Unit) := by
    intro x hx
    have hwaiting : P { x.frame with waiting := none } := hwaits _ hx
    have hgas : P (x.refilled result).frame := hP.remaining _ hwaiting
    exact hgas
  have hdeliver : Keeps P (deliver result : StepM η Unit) := by
    unfold deliver
    refine (Keeps.frameGet _).bind fun waiting => ?_
    cases waiting with
    | none => exact .pure _
    | some pending =>
      refine hback.bind fun _ => ?_
      cases pending with
      | call outOffset outLen =>
        exact (hrefund _).bind fun _ => (Keeps.modifyMemory hP _).bind fun _ =>
          (Keeps.setReturnData hP _).bind fun _ => .push hP _
      | create =>
        show Keeps P (deliverCreate result)
        unfold deliverCreate
        split
        · exact (hrefund _).bind fun _ => (Keeps.setReturnData hP _).bind fun _ => .push hP _
        · exact (Keeps.setReturnData hP _).bind fun _ => .push hP _
  have hkept := hdeliver x hx
  unfold take
  cases hd : deliver result x with
  | ok u y =>
    rw [hd] at hkept
    exact hkept
  | error e y =>
    rw [hd] at hkept
    exact hP.remaining 0 hkept

end Exec

end Evm
