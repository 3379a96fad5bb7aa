import Evm.Frame.Run
import Evm.Proofs.Lockstep

/-! # Frames over hosts that answer alike

    A frame sees no more of its host than the answers that it gets. So a
    frame run over one host and the same frame run over another do the same,
    as long as the two hosts stay related by a relation under which all of
    their operations run in lockstep (`HostsAgree`).

    The instructions are put together from few parts, and the rules for those
    are all that has to be known of a host.
-/

namespace Evm

variable {η θ α : Type}

/-- A frame over a host beside the same frame over a related one. -/
structure Beside (R : η → θ → Prop) (x : Exec η) (y : Exec θ) : Prop where
  frame : x.frame = y.frame
  host : R x.host y.host

/-- Two kinds of hosts answer alike where they are related, and stay related. -/
structure HostsAgree [Host η] [Host θ] (R : η → θ → Prop) : Prop where
  env : ∀ host host', R host host' → Host.env host = Host.env host'
  config : ∀ host host', R host host' → Host.config host = Host.config host'
  loadAccount : ∀ a, Lockstep R (Host.loadAccount a) (Host.loadAccount a)
  balance : ∀ a, Lockstep R (Host.balance a) (Host.balance a)
  code : ∀ a, Lockstep R (Host.code a) (Host.code a)
  codeHash : ∀ a, Lockstep R (Host.codeHash a) (Host.codeHash a)
  blockHash : ∀ number, Lockstep R (Host.blockHash number) (Host.blockHash number)
  sload : ∀ s, Lockstep R (Host.sload s) (Host.sload s)
  sstore : ∀ s value, Lockstep R (Host.sstore s value) (Host.sstore s value)
  tload : ∀ s, Lockstep R (Host.tload s) (Host.tload s)
  tstore : ∀ s value, Lockstep R (Host.tstore s value) (Host.tstore s value)
  log : ∀ entry, Lockstep R (Host.log entry) (Host.log entry)
  selfDestruct : ∀ address target,
    Lockstep R (Host.selfDestruct address target) (Host.selfDestruct address target)

/-- A step over a host of one kind in lockstep with one over a host of another. -/
abbrev StepsBeside (R : η → θ → Prop) (op : StepM η α) (op' : StepM θ α) : Prop :=
  Lockstep (Beside R) op op'

namespace StepsBeside

open Exec

variable {R : η → θ → Prop}

/-! ## Steps of the frame alone -/

theorem pop : StepsBeside R pop pop := by
  rintro ⟨frame, host⟩ ⟨_, host'⟩ ⟨rfl, hR⟩
  unfold Exec.pop
  dsimp only
  cases frame.stack.pop with
  | ok taken => exact .ok taken.1 ⟨rfl, hR⟩
  | error e => exact .error e ⟨rfl, hR⟩

theorem push (w : Word) : StepsBeside R (push w) (push w) := by
  rintro ⟨frame, host⟩ ⟨_, host'⟩ ⟨rfl, hR⟩
  unfold Exec.push
  dsimp only
  cases frame.stack.push w with
  | ok stack => exact .ok () ⟨rfl, hR⟩
  | error e => exact .error e ⟨rfl, hR⟩

theorem dup (n : Nat) : StepsBeside R (dup n) (dup n) := by
  rintro ⟨frame, host⟩ ⟨_, host'⟩ ⟨rfl, hR⟩
  unfold Exec.dup
  dsimp only
  cases frame.stack.dup n with
  | ok stack => exact .ok () ⟨rfl, hR⟩
  | error e => exact .error e ⟨rfl, hR⟩

theorem swap (n : Nat) : StepsBeside R (swap n) (swap n) := by
  rintro ⟨frame, host⟩ ⟨_, host'⟩ ⟨rfl, hR⟩
  unfold Exec.swap
  dsimp only
  cases frame.stack.swap n with
  | ok stack => exact .ok () ⟨rfl, hR⟩
  | error e => exact .error e ⟨rfl, hR⟩

theorem popList (n : Nat) : StepsBeside R (popList n) (popList n) := by
  induction n with
  | zero => exact .pure _
  | succ n ih => exact pop.bind fun _ => ih.bind fun _ => .pure _

theorem charge (amount : Nat) : StepsBeside R (charge amount) (charge amount) := by
  rintro ⟨frame, host⟩ ⟨_, host'⟩ ⟨rfl, hR⟩
  unfold Exec.charge
  dsimp only
  cases frame.gas.charge? amount with
  | some gas => exact .ok () ⟨rfl, hR⟩
  | none => exact .error _ ⟨rfl, hR⟩

theorem modifyFrame (f : Frame → Frame) : StepsBeside R (modifyFrame f) (modifyFrame f) :=
  .modify fun _ _ h => ⟨congrArg f h.frame, h.host⟩

theorem refund (amount : Int) : StepsBeside R (refund amount) (refund amount) :=
  modifyFrame fun frame => { frame with gas := frame.gas.refund amount }

theorem modifyMemory (f : Memory → Memory) : StepsBeside R (modifyMemory f) (modifyMemory f) := by
  rintro ⟨frame, host⟩ ⟨_, host'⟩ ⟨rfl, hR⟩
  exact .ok () ⟨rfl, hR⟩

theorem frameGet (f : Frame → α) : StepsBeside R (frameGet f) (frameGet f) := by
  rintro ⟨frame, host⟩ ⟨_, host'⟩ ⟨rfl, hR⟩
  exact .ok (f frame) ⟨rfl, hR⟩

theorem failWhen (condition : Bool) (e : EvmError) :
    StepsBeside R (failWhen condition e) (failWhen condition e) :=
  .ite (.throw e) (.pure _)

theorem requireWritable : StepsBeside R requireWritable requireWritable :=
  (frameGet _).bind fun _ => failWhen _ _

theorem chargeWhen (condition : Bool) (amount : Nat) :
    StepsBeside R (chargeWhen condition amount) (chargeWhen condition amount) :=
  .ite (charge _) (.pure _)

theorem chargeCall (scheme : CallScheme) (value : Word) (account : AccountLoad) :
    StepsBeside R (chargeCall scheme value account) (chargeCall scheme value account) :=
  (chargeWhen _ _).bind fun _ => (chargeWhen _ _).bind fun _ => chargeWhen _ _

theorem setAside (requested : Nat) : StepsBeside R (setAside requested) (setAside requested) :=
  (frameGet _).bind fun _ => (charge _).bind fun _ => .pure _

theorem toIndex (w : Word) : StepsBeside R (toIndex w) (toIndex w) := by
  unfold Exec.toIndex
  cases w.toIndex? with
  | some n => exact .pure n
  | none => exact .throw _

theorem resizeMemory (offset len : Word) :
    StepsBeside R (resizeMemory offset len) (resizeMemory offset len) := by
  unfold Exec.resizeMemory
  refine .ite (.pure _) ?_
  refine (toIndex _).bind fun _ => (toIndex _).bind fun _ => (frameGet _).bind fun _ => ?_
  refine .ite ?_ (.pure _)
  exact (charge _).bind fun _ => (modifyMemory _).bind fun _ => .pure _

theorem readMemory (offset len : Nat) :
    StepsBeside R (readMemory offset len) (readMemory offset len) :=
  frameGet _

theorem pushNext (w : Word) :
    StepsBeside R (do Exec.push w; return Step.next) (do Exec.push w; return Step.next) :=
  (push w).bind fun _ => .pure _

theorem copyToMemory (source : Bytes) (memOffset dataOffset len : Word) :
    StepsBeside R (copyToMemory source memOffset dataOffset len)
      (copyToMemory source memOffset dataOffset len) :=
  (resizeMemory _ _).bind fun _ => (charge _).bind fun _ => (modifyMemory _).bind fun _ => .pure _

theorem copyFrom (source : Frame → Bytes) : StepsBeside R (copyFrom source) (copyFrom source) :=
  pop.bind fun _ => pop.bind fun _ => pop.bind fun _ => (frameGet _).bind fun _ =>
    copyToMemory _ _ _ _

theorem copyReturnData : StepsBeside R copyReturnData copyReturnData :=
  pop.bind fun _ => pop.bind fun _ => pop.bind fun _ => (frameGet _).bind fun _ =>
    (failWhen _ _).bind fun _ => copyToMemory _ _ _ _

theorem copyWithinMemory : StepsBeside R copyWithinMemory copyWithinMemory :=
  pop.bind fun _ => pop.bind fun _ => pop.bind fun _ => .ite (.pure _) <|
    (resizeMemory _ _).bind fun _ => (resizeMemory _ _).bind fun _ => (charge _).bind fun _ =>
      (modifyMemory _).bind fun _ => .pure _

theorem jumpTo (dest : Word) : StepsBeside R (jumpTo dest) (jumpTo dest) :=
  (frameGet _).bind fun _ => .ite ((modifyFrame _).bind fun _ => .pure _) (.throw _)

theorem finish (reason : ExitReason) : StepsBeside R (finish reason) (finish reason) :=
  pop.bind fun _ => pop.bind fun _ => (resizeMemory _ _).bind fun _ =>
    (readMemory _ _).bind fun _ => .pure _

theorem pushImmediate (size : Nat) : StepsBeside R (pushImmediate size) (pushImmediate size) :=
  (frameGet _).bind fun _ => (modifyFrame _).bind fun _ => pushNext _

/-! ## Steps with the host -/

theorem onHost {op : HostM η α} {op' : HostM θ α} (h : Lockstep R op op') :
    StepsBeside R (onHost op) (onHost op') := by
  rintro ⟨frame, host⟩ ⟨_, host'⟩ ⟨rfl, hR⟩
  have hop := h host host' hR
  unfold Exec.onHost
  dsimp only
  generalize op host = result, op' host' = result' at hop
  cases hop with
  | ok a hleft => exact .ok a ⟨rfl, hleft⟩
  | error e hleft => exact .error e ⟨rfl, hleft⟩

theorem hostGet {f : η → α} {f' : θ → α} (h : ∀ host host', R host host' → f host = f' host') :
    StepsBeside R (hostGet f) (hostGet f') := by
  rintro ⟨frame, host⟩ ⟨_, host'⟩ ⟨rfl, hR⟩
  unfold Exec.hostGet
  dsimp only
  rw [h _ _ hR]
  exact .ok _ ⟨rfl, hR⟩

variable [Host η] [Host θ] (hosts : HostsAgree R)

include hosts

theorem answerQuery {x : Exec η} {y : Exec θ} (h : Beside R x y) (pc : Nat) (q : Query) :
    answerQuery x pc q = answerQuery y pc q := by
  obtain ⟨frame, host⟩ := x
  obtain ⟨_, host'⟩ := y
  obtain ⟨rfl, hR⟩ := h
  cases q <;> simp only [Exec.answerQuery, hosts.env _ _ hR]

/-! ## Instructions -/

theorem storeSlot : StepsBeside R storeSlot storeSlot := by
  unfold Exec.storeSlot
  refine requireWritable.bind fun _ => (frameGet _).bind fun _ => (failWhen _ _).bind fun _ => ?_
  refine pop.bind fun key => pop.bind fun value => (frameGet _).bind fun address => ?_
  refine (onHost (hosts.sstore ⟨address, key⟩ value)).bind fun _ => (charge _).bind fun _ => ?_
  exact (frameGet _).bind fun _ => (refund _).bind fun _ => .pure _

theorem log (topicCount : Nat) : StepsBeside R (log topicCount) (log topicCount) := by
  unfold Exec.log
  refine requireWritable.bind fun _ => pop.bind fun _ => pop.bind fun _ => ?_
  refine (popList _).bind fun _ => (resizeMemory _ _).bind fun _ => (charge _).bind fun _ => ?_
  refine (readMemory _ _).bind fun _ => (frameGet _).bind fun _ => ?_
  exact (onHost (hosts.log _)).bind fun _ => .pure _

theorem call (scheme : CallScheme) : StepsBeside R (call scheme) (call scheme) := by
  have hvalue : StepsBeside R (popValue scheme) (popValue scheme) := .ite pop (.pure _)
  have hmovable : ∀ value, StepsBeside R (requireMovable scheme value)
      (requireMovable scheme value) := fun _ => .ite requireWritable (.pure _)
  unfold Exec.call
  refine pop.bind fun _ => pop.bind fun callee => hvalue.bind fun value => ?_
  refine pop.bind fun _ => pop.bind fun _ => pop.bind fun _ => pop.bind fun _ => ?_
  refine (hmovable value).bind fun _ => ?_
  refine (resizeMemory _ _).bind fun _ => (resizeMemory _ _).bind fun _ => ?_
  refine (onHost (hosts.loadAccount (.ofWord callee))).bind fun account => ?_
  refine (chargeCall _ _ _).bind fun _ => (setAside _).bind fun _ => ?_
  refine (readMemory _ _).bind fun _ => (frameGet _).bind fun _ => ?_
  exact (modifyFrame _).bind fun _ => .pure _

theorem create (salted : Bool) : StepsBeside R (create salted) (create salted) := by
  have hscheme : StepsBeside R (popScheme salted) (popScheme salted) :=
    .ite (pop.bind fun _ => .pure _) (.pure _)
  unfold Exec.create
  refine requireWritable.bind fun _ => pop.bind fun _ => pop.bind fun _ => pop.bind fun _ => ?_
  refine hscheme.bind fun _ => (resizeMemory _ _).bind fun _ => (frameGet _).bind fun _ => ?_
  refine (hostGet hosts.config).bind fun _ => (failWhen _ _).bind fun _ => ?_
  refine (charge _).bind fun _ => ?_
  refine (readMemory _ _).bind fun _ => (frameGet _).bind fun _ => (setAside _).bind fun _ => ?_
  exact (frameGet _).bind fun _ => (modifyFrame _).bind fun _ => .pure _

theorem selfDestruct : StepsBeside R selfDestruct selfDestruct := by
  unfold Exec.selfDestruct
  refine requireWritable.bind fun _ => pop.bind fun target => (frameGet _).bind fun address => ?_
  refine (onHost (hosts.selfDestruct address (.ofWord target))).bind fun _ => ?_
  refine (chargeWhen _ _).bind fun _ => (chargeWhen _ _).bind fun _ => (frameGet _).bind fun _ => ?_
  exact (refund _).bind fun _ => .pure _

/-- **Every instruction** does the same over hosts that answer alike. -/
theorem execute (op : Opcode) (pc : Nat) :
    StepsBeside R (Exec.execute op pc) (Exec.execute op pc) := by
  have hcold : ∀ isCold, StepsBeside R (chargeCold isCold) (chargeCold isCold) :=
    fun _ => chargeWhen _ _
  unfold Exec.execute
  cases op with
  | stop => exact .pure _
  | unary op => exact pop.bind fun _ => pushNext _
  | binary op => exact pop.bind fun _ => pop.bind fun _ => pushNext _
  | ternary op => exact pop.bind fun _ => pop.bind fun _ => pop.bind fun _ => pushNext _
  | exp => exact pop.bind fun _ => pop.bind fun _ => (charge _).bind fun _ => pushNext _
  | keccak256 =>
    exact pop.bind fun _ => pop.bind fun _ => (resizeMemory _ _).bind fun _ =>
      (charge _).bind fun _ => (readMemory _ _).bind fun _ => pushNext _
  | query q =>
    refine .get_bind fun x y h => ?_
    rw [answerQuery hosts h]
    exact pushNext _ x y h
  -- the host is asked about an account
  | balance =>
    exact pop.bind fun _ => (onHost (hosts.balance _)).bind fun _ => (hcold _).bind fun _ =>
      pushNext _
  | selfBalance =>
    exact (frameGet _).bind fun _ => (onHost (hosts.balance _)).bind fun _ => pushNext _
  | extCodeSize =>
    exact pop.bind fun _ => (onHost (hosts.code _)).bind fun _ => (hcold _).bind fun _ =>
      pushNext _
  | extCodeCopy =>
    refine pop.bind fun _ => pop.bind fun _ => pop.bind fun _ => pop.bind fun _ => ?_
    exact (onHost (hosts.code _)).bind fun _ => (hcold _).bind fun _ => copyToMemory _ _ _ _
  | extCodeHash =>
    exact pop.bind fun _ => (onHost (hosts.codeHash _)).bind fun _ => (hcold _).bind fun _ =>
      pushNext _
  | callDataLoad => exact pop.bind fun _ => (frameGet _).bind fun _ => pushNext _
  | callDataCopy => exact copyFrom _
  | codeCopy => exact copyFrom _
  | returnDataCopy => exact copyReturnData
  | blockHash => exact pop.bind fun _ => (onHost (hosts.blockHash _)).bind fun _ => pushNext _
  | blobHash =>
    refine pop.bind fun _ => (hostGet fun _ _ h => ?_).bind fun _ => pushNext _
    rw [hosts.env _ _ h]
  | pop => exact pop.bind fun _ => .pure _
  | mload =>
    exact pop.bind fun _ => (resizeMemory _ _).bind fun _ => (frameGet _).bind fun _ => pushNext _
  | mstore =>
    exact pop.bind fun _ => pop.bind fun _ => (resizeMemory _ _).bind fun _ =>
      (modifyMemory _).bind fun _ => .pure _
  | mstore8 =>
    exact pop.bind fun _ => pop.bind fun _ => (resizeMemory _ _).bind fun _ =>
      (modifyMemory _).bind fun _ => .pure _
  | mcopy => exact copyWithinMemory
  | push0 => exact pushNext _
  | push i => exact pushImmediate _
  | dup i => exact (dup _).bind fun _ => .pure _
  | swap i => exact (swap _).bind fun _ => .pure _
  -- the host is asked about storage
  | sload =>
    refine pop.bind fun key => (frameGet _).bind fun address => ?_
    exact (onHost (hosts.sload ⟨address, key⟩)).bind fun _ => (chargeWhen _ _).bind fun _ =>
      pushNext _
  | sstore => exact storeSlot hosts
  | tload =>
    refine pop.bind fun key => (frameGet _).bind fun address => ?_
    exact (onHost (hosts.tload ⟨address, key⟩)).bind fun _ => pushNext _
  | tstore =>
    refine requireWritable.bind fun _ => pop.bind fun key => pop.bind fun value => ?_
    refine (frameGet _).bind fun address => ?_
    exact (onHost (hosts.tstore ⟨address, key⟩ value)).bind fun _ => .pure _
  | jump => exact pop.bind fun _ => jumpTo _
  | jumpi => exact pop.bind fun _ => pop.bind fun _ => .ite (.pure _) (jumpTo _)
  | jumpDest => exact .pure _
  | ret => exact finish _
  | revert => exact finish _
  | invalid => exact .throw _
  | log topics => exact log hosts _
  | create => exact create hosts _
  | create2 => exact create hosts _
  | call scheme => exact call hosts _
  | selfDestruct => exact selfDestruct hosts

/-! ## Steps and runs -/

/-- **A step** over hosts that answer alike. -/
theorem step : StepsBeside R step step := by
  unfold Exec.step
  refine (frameGet _).bind fun frame => ?_
  by_cases hpc : frame.pc < frame.code.size
  · simp only [dif_pos hpc]
    cases frame.hardfork.instruction? frame.code[frame.pc] with
    | none => exact .throw _
    | some instruction =>
      refine (failWhen _ _).bind fun _ => (failWhen _ _).bind fun _ => (charge _).bind fun _ => ?_
      exact (modifyFrame _).bind fun _ => StepsBeside.execute hosts _ _
  · simp only [dif_neg hpc]
    exact .pure _

omit hosts [Host η] [Host θ] in
theorem deliver (result : FrameResult) : StepsBeside R (deliver result) (deliver result) := by
  have hcall : ∀ outOffset outLen, StepsBeside R (deliverCall outOffset outLen result)
      (deliverCall outOffset outLen result) := fun _ _ =>
    (refund _).bind fun _ => (modifyMemory _).bind fun _ => (modifyFrame _).bind fun _ => push _
  have hcreate : StepsBeside R (deliverCreate result) (deliverCreate result) := by
    unfold Exec.deliverCreate
    split
    · exact (refund _).bind fun _ => (modifyFrame _).bind fun _ => push _
    · exact (modifyFrame _).bind fun _ => push _
  unfold Exec.deliver
  refine (frameGet _).bind fun waiting => ?_
  cases waiting with
  | none => exact .pure _
  | some pending =>
    refine (modifyFrame _).bind fun _ => ?_
    cases pending with
    | call outOffset outLen => exact hcall _ _
    | create => exact hcreate

end StepsBeside

/-- Two frames stopped for the same reason, beside each other. -/
def StopsBeside (R : η → θ → Prop) (stop : Action × Exec η) (stop' : Action × Exec θ) : Prop :=
  stop.1 = stop'.1 ∧ Beside R stop.2 stop'.2

namespace HostsAgree

variable {R : η → θ → Prop}

theorem halt {x : Exec η} {y : Exec θ} (e : EvmError) (h : Beside R x y) :
    StopsBeside R (Exec.halt e x) (Exec.halt e y) := by
  obtain ⟨frame, host⟩ := x
  obtain ⟨_, host'⟩ := y
  obtain ⟨rfl, hR⟩ := h
  exact ⟨rfl, rfl, hR⟩

variable [Host η] [Host θ] (hosts : HostsAgree R)

include hosts

theorem runFor (bound : Nat) {x : Exec η} {y : Exec θ} (h : Beside R x y) :
    StopsBeside R (Exec.runFor bound x) (Exec.runFor bound y) := by
  induction bound generalizing x y with
  | zero => exact halt _ h
  | succ bound ih =>
    have hstep := StepsBeside.step hosts x y h
    unfold Exec.runFor
    generalize Exec.step x = result, Exec.step y = result' at hstep
    cases hstep with
    | error e hleft => exact halt e hleft
    | ok s hleft =>
      cases s with
      | next => exact ih hleft
      | call message => exact ⟨rfl, hleft⟩
      | create message => exact ⟨rfl, hleft⟩
      | exit exit output =>
        refine ⟨?_, hleft⟩
        dsimp only
        rw [hleft.frame]

/-- **A run** of a frame stops for the same reason over hosts that answer
    alike. -/
theorem run {x : Exec η} {y : Exec θ} (h : Beside R x y) :
    StopsBeside R x.run y.run := by
  unfold Exec.run
  rw [h.frame]
  exact hosts.runFor _ h

theorem resume (result : FrameResult) {x : Exec η} {y : Exec θ} (h : Beside R x y) :
    StopsBeside R (Exec.resume result x) (Exec.resume result y) := by
  have htaken := StepsBeside.deliver result x y h
  unfold Exec.resume
  generalize Exec.deliver result x = taken, Exec.deliver result y = taken' at htaken
  cases htaken with
  | ok _ hleft => exact hosts.run hleft
  | error e hleft => exact halt e hleft

end HostsAgree

end Evm
