import Evm.Proofs.Frame.Refunds

/-! # Operands

    The table says of every instruction how many words it takes from the stack
    and how many it leaves, and a frame is checked against the table before
    the instruction is carried out. The instructions take and put their words
    one by one, though, in other places, and a call or creation puts its word
    only when it has its answer.

    `Handles rest k k' op` says that a block which finds `k` operands on top of
    `rest` leaves `k'` words there and touches nothing of `rest`. A block of
    this kind never finds the stack too low or too full. Every instruction
    handles as many words as the table says (`execute_handles`).
-/

namespace Evm

/-! ## Faults and operands -/

/-- A stack that is too low or too full. -/
def EvmError.IsStackFault : EvmError → Prop
  | .stackUnderflow | .stackOverflow => True
  | _ => False

/-- The host has answered a use with this failure, and was left so. -/
def HostAnswers {η : Type} [Host η] (e : EvmError) (host : η) : Prop :=
  ∃ (use : HostUse) (before : η), use.perform before = .error e host

/-- The stack of the frame is `k` words and what lies below them. -/
def Frame.Above (rest : Stack) (k : Nat) (frame : Frame) : Prop :=
  ∃ top : Stack, top.length = k ∧ frame.stack = top ++ rest

/-- The words that an instruction itself leaves. The answer to a request comes
    later. -/
def Opcode.leaves : Opcode → Nat
  | .create | .create2 | .call _ => 0
  | op => op.outputs

theorem Opcode.leaves_of_plain {op : Opcode} (h : ¬op.Requests) : op.leaves = op.outputs := by
  cases op <;> first | rfl | exact absurd trivial h

theorem Opcode.leaves_of_requests {op : Opcode} (h : op.Requests) :
    op.leaves = 0 ∧ op.outputs = 1 := by
  cases op <;> first | exact ⟨rfl, rfl⟩ | exact h.elim

/-- The table has each instruction with its own number of operands. -/
theorem Hardfork.instruction?_ofOpcode {fork : Hardfork} {b : UInt8} {instruction : Instruction}
    (h : fork.instruction? b = some instruction) : instruction = .ofOpcode instruction.opcode := by
  rw [instruction?_eq_decode?] at h
  unfold decode? at h
  split at h
  · split at h <;> cases h
    rfl
  · cases h

namespace Exec

variable {η α γ : Type} {rest : Stack} {k k' k'' : Nat}

/-! ## Blocks -/

/-- What a block leaves on top of `rest`, and what it does not fail with: a
    fault of the stack can only be an answer of the host. -/
def Leaves [Host η] (rest : Stack) (k : Nat) : EStateM.Result EvmError (Exec η) α → Prop
  | .ok _ y => y.frame.Above rest k
  | .error e y => e.IsStackFault → HostAnswers e y.host

/-- The block takes `k` operands from above `rest` and leaves `k'` words. -/
def Handles [Host η] (rest : Stack) (k k' : Nat) (op : StepM η α) : Prop :=
  ∀ x, x.frame.Above rest k → Leaves rest k' (op x)

variable [Host η]

namespace Handles

protected theorem pure (a : α) : Handles rest k k (pure a : StepM η α) := fun _ h => h

protected theorem throw {e : EvmError} (h : ¬e.IsStackFault) :
    Handles rest k k' (throw e : StepM η α) :=
  fun _ _ hfault => absurd hfault h

theorem bind {op : StepM η α} {next : α → StepM η γ} (hop : Handles rest k k' op)
    (hnext : ∀ a, Handles rest k' k'' (next a)) : Handles rest k k'' (op >>= next) := by
  intro x hx
  have hmid := hop x hx
  rw [bind_apply]
  cases h : op x with
  | error e y =>
    rw [h] at hmid
    exact hmid
  | ok a y =>
    rw [h] at hmid
    exact hnext a y hmid

theorem ite {p : Prop} [Decidable p] {op op' : StepM η α} (hthen : Handles rest k k' op)
    (helse : Handles rest k k' op') : Handles rest k k' (if p then op else op') := by
  by_cases h : p
  · rw [if_pos h]
    exact hthen
  · rw [if_neg h]
    exact helse

/-- A block that does not touch the stack and does not fail over it. -/
theorem of_aside {op : StepM η α}
    (hok : ∀ x a y, op x = .ok a y → y.frame.stack = x.frame.stack)
    (herror : ∀ x e y, op x = .error e y → ¬e.IsStackFault) : Handles rest k k op := by
  rintro x ⟨top, hheight, hstack⟩
  cases h : op x with
  | ok a y => exact ⟨top, hheight, (hok x a y h).trans hstack⟩
  | error e y => exact fun hfault => absurd hfault (herror x e y h)

/-- A block that only looks. -/
theorem of_look {op : StepM η α} (f : Exec η → α) (h : ∀ x, op x = .ok (f x) x) :
    Handles rest k k op := by
  intro x hx
  rw [h]
  exact hx

theorem frameGet (f : Frame → α) : Handles rest k k (frameGet f : StepM η α) :=
  of_look (fun x => f x.frame) fun _ => rfl

theorem hostGet (f : η → α) : Handles rest k k (hostGet f : StepM η α) :=
  of_look (fun x => f x.host) fun _ => rfl

protected theorem get : Handles rest k k (get : StepM η (Exec η)) := of_look id fun _ => rfl

theorem modifyFrame {f : Frame → Frame} (h : ∀ frame, (f frame).stack = frame.stack) :
    Handles rest k k (modifyFrame f : StepM η Unit) := by
  apply of_aside
  · rintro x _ y ⟨⟩
    exact h x.frame
  · rintro x e y ⟨⟩

theorem failWhen (c : Bool) {e : EvmError} (h : ¬e.IsStackFault) :
    Handles rest k k (failWhen c e : StepM η Unit) :=
  ite (.throw h) (.pure _)

theorem requireWritable : Handles rest k k (requireWritable : StepM η Unit) :=
  (frameGet _).bind fun _ => failWhen _ (by exact not_false)

/-- What the host fails with is its own answer. -/
theorem onHost {op : HostM η α} (use : HostUse) (huse : use.perform = discard op) :
    Handles rest k k (onHost op : StepM η α) := by
  rintro ⟨frame, host⟩ hx
  unfold Exec.onHost
  simp only
  cases hop : op host with
  | ok a host' => exact hx
  | error e host' =>
    intro _
    have hperform : use.perform host = .error e host' := by
      rw [huse]
      exact discard_error hop
    exact ⟨use, host, hperform⟩

/-! ## Words -/

/-- There is a word to take as long as operands are left. -/
theorem pop : Handles rest (k + 1) k (pop : StepM η Word) := by
  rintro x ⟨top, hheight, hstack⟩
  obtain ⟨w, top, rfl⟩ := List.exists_cons_of_length_eq_add_one hheight
  have hpop : Exec.pop x =
      .ok w { x with frame := { x.frame with stack := top ++ rest } } := by
    simp only [Exec.pop, hstack, List.cons_append, Stack.pop]
  rw [hpop]
  exact ⟨top, Nat.succ.inj hheight, rfl⟩

/-- A word fits as long as the stack is below its limit. -/
theorem push (w : Word) (hroom : k + rest.length < Stack.limit) :
    Handles rest k (k + 1) (push w : StepM η Unit) := by
  rintro x ⟨top, hheight, hstack⟩
  have hlength : x.frame.stack.length = k + rest.length := by
    rw [hstack, List.length_append, hheight]
  have hpush : Exec.push w x =
      .ok ⟨⟩ { x with frame := { x.frame with stack := w :: x.frame.stack } } := by
    simp only [Exec.push, Stack.push, hlength, if_neg (Nat.not_le.mpr hroom)]
  rw [hpush]
  refine ⟨w :: top, congrArg (· + 1) hheight, ?_⟩
  show w :: x.frame.stack = w :: top ++ rest
  rw [hstack, List.cons_append]

/-- The lowest operand can be copied. -/
theorem dup (n : Nat) (hroom : n + 1 + rest.length < Stack.limit) :
    Handles rest (n + 1) (n + 2) (dup (n + 1) : StepM η Unit) := by
  rintro x ⟨top, hheight, hstack⟩
  have hn : n < top.length := by omega
  have hword : x.frame.stack[n]? = some top[n] := by
    rw [hstack, List.getElem?_append_left hn, List.getElem?_eq_getElem]
  have hdup : Exec.dup (n + 1) x = Exec.push top[n] x := by
    simp only [Exec.dup, Exec.push, Stack.dup, hword]
  rw [hdup]
  exact push _ hroom x ⟨top, hheight, hstack⟩

/-- The lowest operand can be exchanged with the top one. -/
theorem swap (n : Nat) : Handles rest (n + 2) (n + 2) (swap (n + 1) : StepM η Unit) := by
  rintro x ⟨top, hheight, hstack⟩
  obtain ⟨w, top, rfl⟩ := List.exists_cons_of_length_eq_add_one hheight
  have hlength : top.length = n + 1 := Nat.succ.inj hheight
  have hn : n < top.length := by omega
  have hword : (top ++ rest)[n]? = some top[n] := by
    rw [List.getElem?_append_left hn, List.getElem?_eq_getElem]
  have hset : (top ++ rest).set n w = top.set n w ++ rest := List.set_append_left n w hn
  have hswap : Exec.swap (n + 1) x = .ok ⟨⟩ { x with
      frame := { x.frame with stack := top[n] :: (top.set n w ++ rest) } } := by
    simp only [Exec.swap, hstack, List.cons_append, Stack.swap, hword, hset]
  rw [hswap]
  refine ⟨top[n] :: top.set n w, ?_, rfl⟩
  rw [List.length_cons, List.length_set, hlength]

theorem popList (n : Nat) : Handles rest (k + n) k (popList n : StepM η (List Word)) := by
  induction n with
  | zero => exact .pure _
  | succ n ih => exact pop.bind fun _ => ih.bind fun _ => .pure _

/-! ## Gas and memory -/

theorem charge (n : Nat) : Handles rest k k (charge n : StepM η Unit) := by
  refine of_aside ?_ ?_
  · intro x _ y h
    obtain ⟨_, rfl⟩ := charge_ok h
    rfl
  · intro x e y h
    unfold Exec.charge at h
    split at h <;> cases h
    exact not_false

theorem chargeWhen (c : Bool) (n : Nat) : Handles rest k k (chargeWhen c n : StepM η Unit) :=
  ite (charge n) (.pure _)

theorem chargeCold (isCold : Bool) : Handles rest k k (chargeCold isCold : StepM η Unit) :=
  chargeWhen _ _

theorem refund (amount : Int) : Handles rest k k (refund amount : StepM η Unit) :=
  modifyFrame (f := fun frame => { frame with gas := frame.gas.refund amount }) fun _ => rfl

theorem modifyMemory (f : Memory → Memory) : Handles rest k k (modifyMemory f : StepM η Unit) := by
  apply of_aside
  · rintro x _ y ⟨⟩
    rfl
  · rintro x e y ⟨⟩

theorem toIndex (w : Word) : Handles rest k k (toIndex w : StepM η Nat) := by
  unfold Exec.toIndex
  split
  · exact .pure _
  · exact .throw not_false

theorem resizeMemory (offset len : Word) :
    Handles rest k k (resizeMemory offset len : StepM η (Nat × Nat)) := by
  unfold Exec.resizeMemory
  refine .ite (.pure _) ?_
  refine (toIndex _).bind fun _ => (toIndex _).bind fun _ => (frameGet _).bind fun _ => ?_
  refine .ite ?_ (.pure _)
  exact (charge _).bind fun _ => (modifyMemory _).bind fun _ => .pure _

theorem readMemory (offset len : Nat) : Handles rest k k (readMemory offset len : StepM η Bytes) :=
  frameGet _

theorem setAside (requested : Nat) : Handles rest k k (setAside requested : StepM η Nat) :=
  (frameGet _).bind fun _ => (charge _).bind fun _ => .pure _

/-! ## Parts of instructions -/

theorem pushNext (w : Word) (hroom : rest.length + 1 ≤ Stack.limit) :
    Handles rest 0 1 (do Exec.push w; return .next : StepM η Step) :=
  (push w (by omega)).bind fun _ => .pure _

theorem copyToMemory (source : Bytes) (memOffset dataOffset len : Word) :
    Handles rest k k (copyToMemory source memOffset dataOffset len : StepM η Step) :=
  (resizeMemory _ _).bind fun _ => (charge _).bind fun _ => (modifyMemory _).bind fun _ => .pure _

theorem copyFrom (source : Frame → Bytes) : Handles rest 3 0 (copyFrom source : StepM η Step) :=
  pop.bind fun _ => pop.bind fun _ => pop.bind fun _ => (frameGet _).bind fun _ =>
    copyToMemory _ _ _ _

theorem copyReturnData : Handles rest 3 0 (copyReturnData : StepM η Step) :=
  pop.bind fun _ => pop.bind fun _ => pop.bind fun _ => (frameGet _).bind fun _ =>
    (failWhen _ (by exact not_false)).bind fun _ => copyToMemory _ _ _ _

theorem copyWithinMemory : Handles rest 3 0 (copyWithinMemory : StepM η Step) :=
  pop.bind fun _ => pop.bind fun _ => pop.bind fun _ => .ite (.pure _) <|
    (resizeMemory _ _).bind fun _ => (resizeMemory _ _).bind fun _ => (charge _).bind fun _ =>
      (modifyMemory _).bind fun _ => .pure _

theorem storeSlot : Handles rest 2 0 (storeSlot : StepM η Step) := by
  unfold Exec.storeSlot
  refine requireWritable.bind fun _ => (frameGet _).bind fun _ => ?_
  refine (failWhen _ (by exact not_false)).bind fun _ => pop.bind fun key => ?_
  refine pop.bind fun value => (frameGet _).bind fun address => ?_
  refine (onHost (.sstore ⟨address, key⟩ value) rfl).bind fun _ => (charge _).bind fun _ => ?_
  exact (frameGet _).bind fun _ => (refund _).bind fun _ => .pure _

theorem jumpTo (dest : Word) : Handles rest k k (jumpTo dest : StepM η Step) := by
  refine (frameGet _).bind fun _ => .ite ?_ (.throw not_false)
  exact (modifyFrame (by intro _; rfl)).bind fun _ => .pure _

theorem finish (reason : ExitReason) : Handles rest 2 0 (finish reason : StepM η Step) :=
  pop.bind fun _ => pop.bind fun _ => (resizeMemory _ _).bind fun _ =>
    (readMemory _ _).bind fun _ => .pure _

theorem pushImmediate (size : Nat) (hroom : rest.length + 1 ≤ Stack.limit) :
    Handles rest 0 1 (pushImmediate size : StepM η Step) :=
  (frameGet _).bind fun _ => (modifyFrame (by intro _; rfl)).bind fun _ => pushNext _ hroom

theorem log (topicCount : Nat) :
    Handles rest (topicCount + 2) 0 (log topicCount : StepM η Step) := by
  unfold Exec.log
  refine requireWritable.bind fun _ => pop.bind fun _ => pop.bind fun _ => ?_
  have htopics : Handles rest (0 + topicCount) 0 (Exec.popList topicCount : StepM η (List Word)) :=
    popList topicCount
  rw [Nat.zero_add] at htopics
  refine htopics.bind fun topics => (resizeMemory _ _).bind fun _ => (charge _).bind fun _ => ?_
  refine (readMemory _ _).bind fun data => (frameGet _).bind fun address => ?_
  exact (onHost (.log ⟨address, topics.map Hash.ofWord, data⟩) rfl).bind fun _ => .pure _

/-- A call has one operand more if it takes a value from the stack. -/
theorem call (scheme : CallScheme) :
    Handles rest (Opcode.call scheme).inputs 0 (call scheme : StepM η Step) := by
  have hvalue : Handles rest (if takesValue scheme then 5 else 4) 4
      (popValue scheme : StepM η Word) := by
    unfold popValue
    cases takesValue scheme
    · exact .pure _
    · exact pop
  have hinputs : (Opcode.call scheme).inputs = (if takesValue scheme then 5 else 4) + 2 := by
    cases scheme <;> rfl
  have hmovable : ∀ value, Handles rest 0 0 (requireMovable scheme value : StepM η Unit) :=
    fun value => .ite requireWritable (.pure _)
  have hcost : ∀ value account,
      Handles rest 0 0 (chargeCall scheme value account : StepM η Unit) := fun value account =>
    (chargeCold _).bind fun _ => (chargeWhen _ _).bind fun _ => chargeWhen _ _
  rw [hinputs]
  unfold Exec.call
  refine pop.bind fun requested => pop.bind fun callee => hvalue.bind fun value => ?_
  refine pop.bind fun _ => pop.bind fun _ => pop.bind fun _ => pop.bind fun _ => ?_
  refine (hmovable value).bind fun _ => ?_
  refine (resizeMemory _ _).bind fun _ => (resizeMemory _ _).bind fun _ => ?_
  refine (onHost (.loadAccount (.ofWord callee)) rfl).bind fun account => ?_
  refine (hcost value account).bind fun _ => (setAside _).bind fun _ => ?_
  refine (readMemory _ _).bind fun _ => (frameGet _).bind fun _ => ?_
  exact (modifyFrame (by intro _; rfl)).bind fun _ => .pure _

/-- A creation has one operand more if it takes a salt from the stack. -/
theorem create (salted : Bool) :
    Handles rest ((if salted then 1 else 0) + 3) 0 (create salted : StepM η Step) := by
  have hscheme : Handles rest (if salted then 1 else 0) 0
      (popScheme salted : StepM η CreateScheme) := by
    unfold popScheme
    cases salted
    · exact .pure _
    · exact pop.bind fun _ => .pure _
  unfold Exec.create
  refine requireWritable.bind fun _ => pop.bind fun _ => pop.bind fun _ => pop.bind fun _ => ?_
  refine hscheme.bind fun _ => (resizeMemory _ _).bind fun _ => (frameGet _).bind fun _ => ?_
  refine (hostGet _).bind fun _ => (failWhen _ (by exact not_false)).bind fun _ => ?_
  refine (charge _).bind fun _ => (readMemory _ _).bind fun _ => (frameGet _).bind fun _ => ?_
  refine (setAside _).bind fun _ => (frameGet _).bind fun _ => ?_
  exact (modifyFrame (by intro _; rfl)).bind fun _ => .pure _

theorem selfDestruct : Handles rest 1 0 (selfDestruct : StepM η Step) := by
  unfold Exec.selfDestruct
  refine requireWritable.bind fun _ => pop.bind fun target => (frameGet _).bind fun address => ?_
  refine (onHost (.selfDestruct address (.ofWord target)) rfl).bind fun _ => ?_
  refine (chargeWhen _ _).bind fun _ => (chargeWhen _ _).bind fun _ => ?_
  exact (frameGet _).bind fun _ => (refund _).bind fun _ => .pure _

end Handles

/-! ## Instructions -/

/-- **Every instruction handles as many words as the table says**, if there is
    room for those that it leaves. -/
theorem execute_handles (op : Opcode) (pc : Nat)
    (hroom : rest.length + op.outputs ≤ Stack.limit) :
    Handles rest op.inputs op.leaves (execute op pc : StepM η Step) := by
  unfold execute
  cases op with
  | stop => exact .pure _
  | unary op => exact Handles.pop.bind fun _ => .pushNext _ hroom
  | binary op => exact Handles.pop.bind fun _ => Handles.pop.bind fun _ => .pushNext _ hroom
  | ternary op =>
    exact Handles.pop.bind fun _ => Handles.pop.bind fun _ => Handles.pop.bind fun _ =>
      .pushNext _ hroom
  | exp =>
    exact Handles.pop.bind fun _ => Handles.pop.bind fun _ => (Handles.charge _).bind fun _ =>
      .pushNext _ hroom
  | keccak256 =>
    refine Handles.pop.bind fun _ => Handles.pop.bind fun _ => ?_
    refine (Handles.resizeMemory _ _).bind fun _ => (Handles.charge _).bind fun _ => ?_
    exact (Handles.readMemory _ _).bind fun _ => .pushNext _ hroom
  | query q => exact Handles.get.bind fun _ => .pushNext _ hroom
  -- the host is asked about an account
  | balance =>
    refine Handles.pop.bind fun a => (Handles.onHost (.balance (.ofWord a)) rfl).bind fun _ => ?_
    exact (Handles.chargeCold _).bind fun _ => .pushNext _ hroom
  | selfBalance =>
    refine (Handles.frameGet _).bind fun a => (Handles.onHost (.balance a) rfl).bind fun _ => ?_
    exact .pushNext _ hroom
  | extCodeSize =>
    refine Handles.pop.bind fun a => (Handles.onHost (.code (.ofWord a)) rfl).bind fun _ => ?_
    exact (Handles.chargeCold _).bind fun _ => .pushNext _ hroom
  | extCodeCopy =>
    refine Handles.pop.bind fun a => Handles.pop.bind fun _ => Handles.pop.bind fun _ => ?_
    refine Handles.pop.bind fun _ => (Handles.onHost (.code (.ofWord a)) rfl).bind fun _ => ?_
    exact (Handles.chargeCold _).bind fun _ => .copyToMemory _ _ _ _
  | extCodeHash =>
    refine Handles.pop.bind fun a => (Handles.onHost (.codeHash (.ofWord a)) rfl).bind fun _ => ?_
    exact (Handles.chargeCold _).bind fun _ => .pushNext _ hroom
  | callDataLoad =>
    exact Handles.pop.bind fun _ => (Handles.frameGet _).bind fun _ => .pushNext _ hroom
  | callDataCopy => exact .copyFrom _
  | codeCopy => exact .copyFrom _
  | returnDataCopy => exact .copyReturnData
  | blockHash =>
    refine Handles.pop.bind fun n => (Handles.onHost (.blockHash n) rfl).bind fun _ => ?_
    exact .pushNext _ hroom
  | blobHash => exact Handles.pop.bind fun _ => (Handles.hostGet _).bind fun _ => .pushNext _ hroom
  -- stack and memory
  | pop => exact Handles.pop.bind fun _ => .pure _
  | mload =>
    exact Handles.pop.bind fun _ => (Handles.resizeMemory _ _).bind fun _ =>
      (Handles.frameGet _).bind fun _ => .pushNext _ hroom
  | mstore =>
    exact Handles.pop.bind fun _ => Handles.pop.bind fun _ =>
      (Handles.resizeMemory _ _).bind fun _ => (Handles.modifyMemory _).bind fun _ => .pure _
  | mstore8 =>
    exact Handles.pop.bind fun _ => Handles.pop.bind fun _ =>
      (Handles.resizeMemory _ _).bind fun _ => (Handles.modifyMemory _).bind fun _ => .pure _
  | mcopy => exact .copyWithinMemory
  | push0 => exact .pushNext _ hroom
  | push i => exact .pushImmediate _ hroom
  | dup i =>
    simp only [Opcode.outputs] at hroom
    exact (Handles.dup _ (by omega)).bind fun _ => .pure _
  | swap i => exact (Handles.swap _).bind fun _ => .pure _
  -- the host is asked about storage
  | sload =>
    refine Handles.pop.bind fun key => (Handles.frameGet _).bind fun address => ?_
    refine (Handles.onHost (.sload ⟨address, key⟩) rfl).bind fun _ => ?_
    exact (Handles.chargeWhen _ _).bind fun _ => .pushNext _ hroom
  | sstore => exact .storeSlot
  | tload =>
    refine Handles.pop.bind fun key => (Handles.frameGet _).bind fun address => ?_
    exact (Handles.onHost (.tload ⟨address, key⟩) rfl).bind fun _ => .pushNext _ hroom
  | tstore =>
    refine Handles.requireWritable.bind fun _ => Handles.pop.bind fun key => ?_
    refine Handles.pop.bind fun value => (Handles.frameGet _).bind fun address => ?_
    exact (Handles.onHost (.tstore ⟨address, key⟩ value) rfl).bind fun _ => .pure _
  -- flow
  | jump => exact Handles.pop.bind fun _ => .jumpTo _
  | jumpi => exact Handles.pop.bind fun _ => Handles.pop.bind fun _ => .ite (.pure _) (.jumpTo _)
  | jumpDest => exact .pure _
  | ret => exact .finish _
  | revert => exact .finish _
  | invalid => exact .throw not_false
  -- requests
  | log topics => exact .log _
  | create => exact .create false
  | create2 => exact .create true
  | call scheme => exact .call scheme
  | selfDestruct => exact .selfDestruct

end Exec

end Evm
