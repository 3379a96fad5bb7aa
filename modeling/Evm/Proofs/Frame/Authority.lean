import Evm.Frame.Run
import Evm.Proofs.EndState
import Mathlib.Logic.Relation

/-! # What a frame may do to its host

    A frame acts for one account, that of its context. Through its host it
    may look at any account, but it reaches storage only at its own address,
    leaves logs and destroys in its own name, and writes only if its context
    is not static. A request names the frame's own account, or for a delegate
    call the frame's own caller, and it is static if the frame is.

    `Confined ctx op post` says this of a block of steps run in a context,
    for failures as for successes; `post` is what is known of the result
    after a success, and is how a check that was passed (`requireWritable`)
    and an address that was looked up reach the uses of the host that depend
    on them.
-/

namespace Evm

/-! ## Authority -/

/-- One use of a host. -/
inductive HostUse where
  | loadAccount (a : Address)
  | balance (a : Address)
  | code (a : Address)
  | codeHash (a : Address)
  | blockHash (number : Word)
  | sload (s : Slot)
  | sstore (s : Slot) (value : Word)
  | tload (s : Slot)
  | tstore (s : Slot) (value : Word)
  | log (entry : Log)
  | selfDestruct (address target : Address)

namespace HostUse

/-- The host after a use, be it a success or a failure. -/
def on {η : Type} [Host η] (use : HostUse) (host : η) : η :=
  match use with
  | .loadAccount a => endState (Host.loadAccount a host)
  | .balance a => endState (Host.balance a host)
  | .code a => endState (Host.code a host)
  | .codeHash a => endState (Host.codeHash a host)
  | .blockHash number => endState (Host.blockHash number host)
  | .sload s => endState (Host.sload s host)
  | .sstore s value => endState (Host.sstore s value host)
  | .tload s => endState (Host.tload s host)
  | .tstore s value => endState (Host.tstore s value host)
  | .log entry => endState (Host.log entry host)
  | .selfDestruct address target => endState (Host.selfDestruct address target host)

/-- The uses that a frame with a given context has the authority for. -/
def AllowedIn (ctx : FrameContext) : HostUse → Prop
  | .loadAccount _ | .balance _ | .code _ | .codeHash _ | .blockHash _ => True
  | .sload s | .tload s => s.address = ctx.address
  | .sstore s _ | .tstore s _ => s.address = ctx.address ∧ ctx.isStatic = false
  | .log entry => entry.address = ctx.address ∧ ctx.isStatic = false
  | .selfDestruct address _ => address = ctx.address ∧ ctx.isStatic = false

end HostUse

/-- One host becomes the other by uses that a context has the authority for. -/
def Uses {η : Type} [Host η] (ctx : FrameContext) : η → η → Prop :=
  Relation.ReflTransGen fun host host' => ∃ use : HostUse, use.AllowedIn ctx ∧ host' = use.on host

/-- A call that a frame with a given context may ask for. -/
def CallMessage.RequestedBy (ctx : FrameContext) (message : CallMessage) : Prop :=
  ∃ scheme callee value input gasLimit,
    message = Exec.callMessage ctx scheme callee value input gasLimit ∧
      (scheme = .call → value ≠ 0 → ctx.isStatic = false)

/-- A creation that a frame with a given context may ask for. -/
def CreateMessage.RequestedBy (ctx : FrameContext) (message : CreateMessage) : Prop :=
  message.caller = ctx.address ∧ message.depth = ctx.depth + 1 ∧ ctx.isStatic = false

/-- What a step may lead to in a context. -/
def Step.AllowedIn (ctx : FrameContext) : Step → Prop
  | .next => True
  | .exit _ _ => True
  | .call message => message.RequestedBy ctx
  | .create message => message.RequestedBy ctx

/-- What a run may stop with in a context. -/
def Action.AllowedIn (ctx : FrameContext) : Action → Prop
  | .call message => message.RequestedBy ctx
  | .create message => message.RequestedBy ctx
  | .finished _ => True

namespace Exec

variable {η α γ : Type} [Host η] {ctx : FrameContext}

/-! ## Blocks -/

/-- In a frame with the context `ctx` the block leaves the context alone, uses
    the host only as the context allows, and succeeds with `post`. -/
def Confined (ctx : FrameContext) (op : StepM η α) (post : α → Prop) : Prop :=
  ∀ x, x.frame.context = ctx →
    (endState (op x)).frame.context = ctx ∧ Uses ctx x.host (endState (op x)).host ∧
      ∀ a x', op x = .ok a x' → post a

namespace Confined

protected theorem pure {post : α → Prop} (a : α) (h : post a) :
    Confined ctx (pure a : StepM η α) post := by
  intro x hx
  refine ⟨hx, .refl, ?_⟩
  intro a' x' hok
  cases hok
  exact h

protected theorem throw {post : α → Prop} (e : EvmError) :
    Confined ctx (throw e : StepM η α) post := by
  intro x hx
  refine ⟨hx, .refl, ?_⟩
  intro a' x' hok
  cases hok

/-- What the first step succeeds with may be used for the next one. -/
theorem bind {op : StepM η α} {next : α → StepM η γ} {mid : α → Prop} {post : γ → Prop}
    (hop : Confined ctx op mid) (hnext : ∀ a, mid a → Confined ctx (next a) post) :
    Confined ctx (op >>= next) post := by
  intro x hx
  obtain ⟨hcontext, huses, hmid⟩ := hop x hx
  rw [bind_apply]
  cases h : op x with
  | error e y =>
    -- a failure has used the host, too, and promises nothing more
    rw [h] at hcontext huses
    refine ⟨hcontext, huses, ?_⟩
    intro a x' hok
    cases hok
  | ok a y =>
    rw [h] at hcontext huses
    obtain ⟨hcontext', huses', hpost⟩ := hnext a (hmid a y h) y hcontext
    exact ⟨hcontext', huses.trans huses', hpost⟩

/-- A first step of which nothing has to be known. -/
theorem seq {op : StepM η α} {next : α → StepM η γ} {mid : α → Prop} {post : γ → Prop}
    (hop : Confined ctx op mid) (hnext : ∀ a, Confined ctx (next a) post) :
    Confined ctx (op >>= next) post :=
  hop.bind fun a _ => hnext a

theorem mono {op : StepM η α} {p post : α → Prop} (hop : Confined ctx op p)
    (h : ∀ a, p a → post a) : Confined ctx op post := by
  intro x hx
  obtain ⟨hcontext, huses, hp⟩ := hop x hx
  exact ⟨hcontext, huses, fun a x' hok => h a (hp a x' hok)⟩

theorem ite {p : Prop} [Decidable p] {op op' : StepM η α} {post : α → Prop}
    (hthen : p → Confined ctx op post) (helse : ¬p → Confined ctx op' post) :
    Confined ctx (if p then op else op') post := by
  by_cases h : p
  · rw [if_pos h]
    exact hthen h
  · rw [if_neg h]
    exact helse h

/-! ## Small steps -/

/-- A step inside the frame. -/
theorem of_inside {op : StepM η α}
    (h : ∀ x, (endState (op x)).frame.context = x.frame.context ∧
      (endState (op x)).host = x.host) : Confined ctx op fun _ => True := by
  intro x hx
  obtain ⟨hcontext, hhost⟩ := h x
  refine ⟨hcontext.trans hx, ?_, fun _ _ _ => trivial⟩
  rw [hhost]
  exact .refl

theorem pop : Confined ctx (pop : StepM η Word) fun _ => True := by
  apply of_inside
  intro x
  unfold Exec.pop
  split <;> exact ⟨rfl, rfl⟩

theorem push (w : Word) : Confined ctx (push w : StepM η Unit) fun _ => True := by
  apply of_inside
  intro x
  unfold Exec.push
  split <;> exact ⟨rfl, rfl⟩

theorem dup (n : Nat) : Confined ctx (dup n : StepM η Unit) fun _ => True := by
  apply of_inside
  intro x
  unfold Exec.dup
  split <;> exact ⟨rfl, rfl⟩

theorem swap (n : Nat) : Confined ctx (swap n : StepM η Unit) fun _ => True := by
  apply of_inside
  intro x
  unfold Exec.swap
  split <;> exact ⟨rfl, rfl⟩

theorem popList (n : Nat) : Confined ctx (popList n : StepM η (List Word)) fun _ => True := by
  induction n with
  | zero => exact .pure _ trivial
  | succ n ih => exact pop.seq fun _ => ih.seq fun _ => .pure _ trivial

theorem charge (n : Nat) : Confined ctx (charge n : StepM η Unit) fun _ => True := by
  apply of_inside
  intro x
  unfold Exec.charge
  split <;> exact ⟨rfl, rfl⟩

theorem chargeWhen (c : Bool) (n : Nat) :
    Confined ctx (chargeWhen c n : StepM η Unit) fun _ => True :=
  .ite (fun _ => charge n) fun _ => .pure _ trivial

theorem chargeCold (isCold : Bool) :
    Confined ctx (chargeCold isCold : StepM η Unit) fun _ => True :=
  chargeWhen isCold _

theorem refund (amount : Int) : Confined ctx (refund amount : StepM η Unit) fun _ => True :=
  of_inside fun _ => ⟨rfl, rfl⟩

theorem modifyFrame (f : Frame → Frame) (h : ∀ frame, (f frame).context = frame.context) :
    Confined ctx (modifyFrame f : StepM η Unit) fun _ => True :=
  of_inside fun x => ⟨h x.frame, rfl⟩

theorem modifyMemory (f : Memory → Memory) :
    Confined ctx (modifyMemory f : StepM η Unit) fun _ => True :=
  of_inside fun _ => ⟨rfl, rfl⟩

protected theorem get : Confined ctx (get : StepM η (Exec η)) fun _ => True :=
  of_inside fun _ => ⟨rfl, rfl⟩

theorem frameGet (f : Frame → α) : Confined ctx (frameGet f : StepM η α) fun _ => True :=
  of_inside fun _ => ⟨rfl, rfl⟩

/-- What is looked up in the context is what this context says. -/
theorem contextGet (f : FrameContext → α) :
    Confined ctx (Exec.frameGet fun frame => f frame.context : StepM η α) fun a => a = f ctx := by
  intro x hx
  refine ⟨hx, .refl, ?_⟩
  intro a x' hok
  cases hok
  exact congrArg f hx

theorem hostGet (f : η → α) : Confined ctx (hostGet f : StepM η α) fun _ => True :=
  of_inside fun _ => ⟨rfl, rfl⟩

/-- A use of the host that the context allows. -/
theorem onHost {op : HostM η α} (use : HostUse) (huse : ∀ host, endState (op host) = use.on host)
    (hallowed : use.AllowedIn ctx) : Confined ctx (onHost op : StepM η α) fun _ => True := by
  rintro ⟨frame, host⟩ hx
  have hend : endState (Exec.onHost op ⟨frame, host⟩) = ⟨frame, use.on host⟩ := by
    rw [← huse]
    unfold Exec.onHost
    simp only
    cases op host <;> rfl
  rw [hend]
  exact ⟨hx, .single ⟨use, hallowed, rfl⟩, fun _ _ _ => trivial⟩

theorem failWhen (c : Bool) (e : EvmError) :
    Confined ctx (failWhen c e : StepM η Unit) fun _ => c = false := by
  unfold Exec.failWhen
  cases c with
  | true => exact .throw e
  | false => exact .pure _ rfl

/-- Only a frame that may write passes. -/
theorem requireWritable :
    Confined ctx (requireWritable : StepM η Unit) fun _ => ctx.isStatic = false := by
  refine (contextGet (·.isStatic)).bind fun isStatic hstatic => ?_
  subst hstatic
  exact failWhen _ _

theorem toIndex (w : Word) : Confined ctx (toIndex w : StepM η Nat) fun _ => True := by
  unfold Exec.toIndex
  split
  · exact .pure _ trivial
  · exact .throw _

theorem resizeMemory (offset len : Word) :
    Confined ctx (resizeMemory offset len : StepM η (Nat × Nat)) fun _ => True := by
  unfold Exec.resizeMemory
  refine .ite (fun _ => .pure _ trivial) fun _ => ?_
  refine (toIndex _).seq fun _ => (toIndex _).seq fun _ => (frameGet _).seq fun _ => ?_
  refine .ite (fun _ => ?_) fun _ => .pure _ trivial
  exact (charge _).seq fun _ => (modifyMemory _).seq fun _ => .pure _ trivial

theorem readMemory (offset len : Nat) :
    Confined ctx (readMemory offset len : StepM η Bytes) fun _ => True :=
  (frameGet _).mono fun _ _ => trivial

theorem setAside (requested : Nat) :
    Confined ctx (setAside requested : StepM η Nat) fun _ => True :=
  (frameGet _).seq fun _ => (charge _).seq fun _ => .pure _ trivial

/-! ## Instructions -/

/-- The end of an instruction after which the frame goes on. -/
theorem next : Confined ctx (pure .next : StepM η Step) (Step.AllowedIn ctx) := .pure _ trivial

theorem copyToMemory (source : Bytes) (memOffset dataOffset len : Word) :
    Confined ctx (copyToMemory source memOffset dataOffset len : StepM η Step)
      (Step.AllowedIn ctx) :=
  (resizeMemory _ _).seq fun _ => (charge _).seq fun _ => (modifyMemory _).seq fun _ => next

theorem copyFrom (source : Frame → Bytes) :
    Confined ctx (copyFrom source : StepM η Step) (Step.AllowedIn ctx) :=
  pop.seq fun _ => pop.seq fun _ => pop.seq fun _ => (frameGet _).seq fun _ =>
    copyToMemory _ _ _ _

theorem copyReturnData :
    Confined ctx (copyReturnData : StepM η Step) (Step.AllowedIn ctx) :=
  pop.seq fun _ => pop.seq fun _ => pop.seq fun _ => (frameGet _).seq fun _ =>
    (failWhen _ _).seq fun _ => copyToMemory _ _ _ _

theorem copyWithinMemory :
    Confined ctx (copyWithinMemory : StepM η Step) (Step.AllowedIn ctx) :=
  pop.seq fun _ => pop.seq fun _ => pop.seq fun _ => .ite (fun _ => next) fun _ =>
    (resizeMemory _ _).seq fun _ => (resizeMemory _ _).seq fun _ => (charge _).seq fun _ =>
      (modifyMemory _).seq fun _ => next

/-- A write of a slot is one of the frame's own and needs a frame that may
    write. -/
theorem storeSlot : Confined ctx (storeSlot : StepM η Step) (Step.AllowedIn ctx) := by
  unfold Exec.storeSlot
  refine requireWritable.bind fun _ hwritable => ?_
  refine (frameGet _).seq fun _ => (failWhen _ _).seq fun _ => pop.seq fun key => ?_
  refine pop.seq fun value => (contextGet (·.address)).bind fun address haddress => ?_
  have hallowed : (HostUse.sstore ⟨address, key⟩ value).AllowedIn ctx := ⟨haddress, hwritable⟩
  refine (onHost _ (fun _ => rfl) hallowed).seq fun _ => ?_
  exact (charge _).seq fun _ => (frameGet _).seq fun _ => (refund _).seq fun _ => next

theorem jumpTo (dest : Word) : Confined ctx (jumpTo dest : StepM η Step) (Step.AllowedIn ctx) := by
  unfold Exec.jumpTo
  refine (frameGet _).seq fun _ => .ite (fun _ => ?_) fun _ => .throw _
  refine (modifyFrame _ ?_).seq fun _ => next
  intro frame
  rfl

theorem finish (reason : ExitReason) :
    Confined ctx (finish reason : StepM η Step) (Step.AllowedIn ctx) :=
  pop.seq fun _ => pop.seq fun _ => (resizeMemory _ _).seq fun _ => (readMemory _ _).seq fun _ =>
    .pure _ trivial

theorem pushImmediate (size : Nat) :
    Confined ctx (pushImmediate size : StepM η Step) (Step.AllowedIn ctx) := by
  unfold Exec.pushImmediate
  refine (frameGet _).seq fun _ => (modifyFrame _ ?_).seq fun _ => (push _).seq fun _ => next
  intro frame
  rfl

/-- A log is left in the frame's own name and needs a frame that may write. -/
theorem log (topicCount : Nat) :
    Confined ctx (log topicCount : StepM η Step) (Step.AllowedIn ctx) := by
  unfold Exec.log
  refine requireWritable.bind fun _ hwritable => pop.seq fun _ => pop.seq fun _ => ?_
  refine (popList _).seq fun topics => (resizeMemory _ _).seq fun _ => (charge _).seq fun _ => ?_
  refine (readMemory _ _).seq fun data => (contextGet (·.address)).bind fun address haddress => ?_
  have hallowed : (HostUse.log ⟨address, topics.map Hash.ofWord, data⟩).AllowedIn ctx :=
    ⟨haddress, hwritable⟩
  exact (onHost _ (fun _ => rfl) hallowed).seq fun _ => next

theorem popValue (scheme : CallScheme) :
    Confined ctx (popValue scheme : StepM η Word) fun _ => True :=
  .ite (fun _ => pop) fun _ => .pure _ trivial

/-- Only a frame that may write passes with a call that moves value. -/
theorem requireMovable (scheme : CallScheme) (value : Word) :
    Confined ctx (requireMovable scheme value : StepM η Unit) fun _ =>
      scheme = .call → value ≠ 0 → ctx.isStatic = false :=
  .ite (fun _ => requireWritable.mono fun _ hwritable _ _ => hwritable)
    fun hneither => .pure _ fun hscheme hvalue => absurd ⟨hscheme, hvalue⟩ hneither

theorem chargeCall (scheme : CallScheme) (value : Word) (account : AccountLoad) :
    Confined ctx (chargeCall scheme value account : StepM η Unit) fun _ => True :=
  (chargeCold _).seq fun _ => (chargeWhen _ _).seq fun _ => chargeWhen _ _

theorem popScheme (salted : Bool) :
    Confined ctx (popScheme salted : StepM η CreateScheme) fun _ => True :=
  .ite (fun _ => pop.seq fun _ => .pure _ trivial) fun _ => .pure _ trivial

/-- What is asked for is a call of the frame's context. -/
theorem call (scheme : CallScheme) :
    Confined ctx (call scheme : StepM η Step) (Step.AllowedIn ctx) := by
  unfold Exec.call
  refine pop.seq fun requested => pop.seq fun callee => (popValue _).seq fun value => ?_
  refine pop.seq fun _ => pop.seq fun _ => pop.seq fun _ => pop.seq fun _ => ?_
  refine (requireMovable scheme value).bind fun _ hmovable => ?_
  refine (resizeMemory _ _).seq fun _ => (resizeMemory _ _).seq fun _ => ?_
  refine (onHost (.loadAccount (.ofWord callee)) (fun _ => rfl) trivial).seq fun account => ?_
  refine (chargeCall _ _ _).seq fun _ => (setAside _).seq fun forwarded => ?_
  refine (readMemory _ _).seq fun input => (contextGet id).bind fun context hcontext => ?_
  refine (modifyFrame _ ?_).seq fun _ => .pure _ ?_
  · intro frame
    rfl
  · rw [hcontext]
    exact ⟨scheme, .ofWord callee, value, input, _, rfl, hmovable⟩

/-- What is asked for is a creation by the frame's own account, which may
    write. -/
theorem create (salted : Bool) :
    Confined ctx (create salted : StepM η Step) (Step.AllowedIn ctx) := by
  unfold Exec.create
  refine requireWritable.bind fun _ hwritable => ?_
  refine pop.seq fun _ => pop.seq fun _ => pop.seq fun _ => ?_
  refine (popScheme _).seq fun _ => (resizeMemory _ _).seq fun _ => (frameGet _).seq fun _ => ?_
  refine (hostGet _).seq fun _ => (failWhen _ _).seq fun _ => (charge _).seq fun _ => ?_
  refine (readMemory _ _).seq fun _ => (frameGet _).seq fun _ => (setAside _).seq fun _ => ?_
  refine (contextGet id).bind fun context hcontext => (modifyFrame _ ?_).seq fun _ => .pure _ ?_
  · intro frame
    rfl
  · rw [hcontext]
    exact ⟨rfl, rfl, hwritable⟩

/-- A frame destroys its own account only, and needs to be one that may
    write. -/
theorem selfDestruct : Confined ctx (selfDestruct : StepM η Step) (Step.AllowedIn ctx) := by
  unfold Exec.selfDestruct
  refine requireWritable.bind fun _ hwritable => pop.seq fun target => ?_
  refine (contextGet (·.address)).bind fun address haddress => ?_
  have hallowed : (HostUse.selfDestruct address (.ofWord target)).AllowedIn ctx :=
    ⟨haddress, hwritable⟩
  refine (onHost _ (fun _ => rfl) hallowed).seq fun _ => ?_
  exact (chargeWhen _ _).seq fun _ => (chargeWhen _ _).seq fun _ => (frameGet _).seq fun _ =>
    (refund _).seq fun _ => .pure _ trivial

/-- **Every instruction keeps to the authority of its frame.** -/
theorem execute (op : Opcode) (pc : Nat) :
    Confined ctx (execute op pc : StepM η Step) (Step.AllowedIn ctx) := by
  unfold Exec.execute
  cases op with
  | stop => exact .pure _ trivial
  | unary op => exact pop.seq fun _ => (push _).seq fun _ => next
  | binary op => exact pop.seq fun _ => pop.seq fun _ => (push _).seq fun _ => next
  | ternary op =>
    exact pop.seq fun _ => pop.seq fun _ => pop.seq fun _ => (push _).seq fun _ => next
  | exp =>
    exact pop.seq fun _ => pop.seq fun _ => (charge _).seq fun _ => (push _).seq fun _ => next
  | keccak256 =>
    exact pop.seq fun _ => pop.seq fun _ => (resizeMemory _ _).seq fun _ => (charge _).seq fun _ =>
      (readMemory _ _).seq fun _ => (push _).seq fun _ => next
  | query q => exact Confined.get.seq fun _ => (push _).seq fun _ => next
  -- every account may be looked at
  | balance =>
    refine pop.seq fun a => (onHost (.balance (.ofWord a)) (fun _ => rfl) trivial).seq fun _ => ?_
    exact (chargeCold _).seq fun _ => (push _).seq fun _ => next
  | selfBalance =>
    refine (frameGet _).seq fun a => (onHost (.balance a) (fun _ => rfl) trivial).seq fun _ => ?_
    exact (push _).seq fun _ => next
  | extCodeSize =>
    refine pop.seq fun a => (onHost (.code (.ofWord a)) (fun _ => rfl) trivial).seq fun _ => ?_
    exact (chargeCold _).seq fun _ => (push _).seq fun _ => next
  | extCodeCopy =>
    refine pop.seq fun a => pop.seq fun _ => pop.seq fun _ => pop.seq fun _ => ?_
    refine (onHost (.code (.ofWord a)) (fun _ => rfl) trivial).seq fun _ => ?_
    exact (chargeCold _).seq fun _ => copyToMemory _ _ _ _
  | extCodeHash =>
    refine pop.seq fun a => (onHost (.codeHash (.ofWord a)) (fun _ => rfl) trivial).seq fun _ => ?_
    exact (chargeCold _).seq fun _ => (push _).seq fun _ => next
  | callDataLoad => exact pop.seq fun _ => (frameGet _).seq fun _ => (push _).seq fun _ => next
  | callDataCopy => exact copyFrom _
  | codeCopy => exact copyFrom _
  | returnDataCopy => exact copyReturnData
  | blockHash =>
    refine pop.seq fun n => (onHost (.blockHash n) (fun _ => rfl) trivial).seq fun _ => ?_
    exact (push _).seq fun _ => next
  | blobHash => exact pop.seq fun _ => (hostGet _).seq fun _ => (push _).seq fun _ => next
  | pop => exact pop.seq fun _ => next
  | mload =>
    exact pop.seq fun _ => (resizeMemory _ _).seq fun _ => (frameGet _).seq fun _ =>
      (push _).seq fun _ => next
  | mstore =>
    exact pop.seq fun _ => pop.seq fun _ => (resizeMemory _ _).seq fun _ =>
      (modifyMemory _).seq fun _ => next
  | mstore8 =>
    exact pop.seq fun _ => pop.seq fun _ => (resizeMemory _ _).seq fun _ =>
      (modifyMemory _).seq fun _ => next
  | mcopy => exact copyWithinMemory
  | push0 => exact (push _).seq fun _ => next
  | push i => exact pushImmediate _
  | dup i => exact (dup _).seq fun _ => next
  | swap i => exact (swap _).seq fun _ => next
  -- storage is that of the frame's own address
  | sload =>
    refine pop.seq fun key => (contextGet (·.address)).bind fun address haddress => ?_
    refine (onHost (.sload ⟨address, key⟩) (fun _ => rfl) haddress).seq fun _ => ?_
    exact (chargeWhen _ _).seq fun _ => (push _).seq fun _ => next
  | sstore => exact storeSlot
  | tload =>
    refine pop.seq fun key => (contextGet (·.address)).bind fun address haddress => ?_
    refine (onHost (.tload ⟨address, key⟩) (fun _ => rfl) haddress).seq fun _ => ?_
    exact (push _).seq fun _ => next
  | tstore =>
    refine requireWritable.bind fun _ hwritable => pop.seq fun key => pop.seq fun value => ?_
    refine (contextGet (·.address)).bind fun address haddress => ?_
    have hallowed : (HostUse.tstore ⟨address, key⟩ value).AllowedIn ctx := ⟨haddress, hwritable⟩
    exact (onHost _ (fun _ => rfl) hallowed).seq fun _ => next
  | jump => exact pop.seq fun _ => jumpTo _
  | jumpi => exact pop.seq fun _ => pop.seq fun _ => .ite (fun _ => next) fun _ => jumpTo _
  | jumpDest => exact next
  | ret => exact finish _
  | revert => exact finish _
  | invalid => exact .throw _
  | log topics => exact log _
  | create => exact create _
  | create2 => exact create _
  | call scheme => exact call _
  | selfDestruct => exact selfDestruct

theorem step : Confined ctx (step : StepM η Step) (Step.AllowedIn ctx) := by
  unfold Exec.step
  refine (frameGet id).seq fun frame => ?_
  split
  · next hpc =>
    cases hi : frame.hardfork.instruction? frame.code[frame.pc] with
    | none => simp only [hi]; exact .throw _
    | some instruction =>
      simp only [hi]
      refine (failWhen _ _).seq fun _ => (failWhen _ _).seq fun _ => (charge _).seq fun _ => ?_
      refine (modifyFrame _ ?_).seq fun _ => execute _ _
      intro frame
      rfl
  · -- the end of the code is a stop
    exact .pure _ trivial

theorem takeBack (result : FrameResult) :
    Confined ctx (takeBack result : StepM η Unit) fun _ => True :=
  modifyFrame _ fun _ => rfl

theorem deliverCall (outOffset outLen : Nat) (result : FrameResult) :
    Confined ctx (deliverCall outOffset outLen result : StepM η Unit) fun _ => True := by
  unfold Exec.deliverCall
  refine (refund _).seq fun _ => (modifyMemory _).seq fun _ => ?_
  refine (modifyFrame _ ?_).seq fun _ => push _
  intro frame
  rfl

theorem deliverCreate (result : FrameResult) :
    Confined ctx (deliverCreate result : StepM η Unit) fun _ => True := by
  unfold Exec.deliverCreate
  split
  · refine (refund _).seq fun _ => (modifyFrame _ ?_).seq fun _ => push _
    intro frame
    rfl
  · refine (modifyFrame _ ?_).seq fun _ => push _
    intro frame
    rfl

theorem deliver (result : FrameResult) :
    Confined ctx (deliver result : StepM η Unit) fun _ => True := by
  unfold Exec.deliver
  refine (frameGet _).seq fun waiting => ?_
  cases waiting with
  | none => exact .pure _ trivial
  | some pending =>
    refine (takeBack _).seq fun _ => ?_
    cases pending with
    | call outOffset outLen => exact deliverCall _ _ _
    | create => exact deliverCreate _

end Confined

/-! ## Runs -/

/-- **A run keeps to the authority of its frame.** -/
theorem runFor_confined (bound : Nat) {x x' : Exec η} {action : Action}
    (hx : x.frame.context = ctx) (h : runFor bound x = (action, x')) :
    x'.frame.context = ctx ∧ Uses ctx x.host x'.host ∧ action.AllowedIn ctx := by
  induction bound generalizing x with
  | zero =>
    cases h
    exact ⟨hx, .refl, trivial⟩
  | succ bound ih =>
    obtain ⟨hcontext, huses, hallowed⟩ := Confined.step x hx
    unfold runFor at h
    cases hs : step x with
    | error e y =>
      rw [hs] at h hcontext huses
      cases h
      exact ⟨hcontext, huses, trivial⟩
    | ok s y =>
      have hs' := hallowed s y hs
      rw [hs] at h hcontext huses
      cases s with
      | next =>
        obtain ⟨hcontext', huses', hallowed'⟩ := ih hcontext h
        exact ⟨hcontext', huses.trans huses', hallowed'⟩
      | exit reason output => cases h; exact ⟨hcontext, huses, trivial⟩
      | call message => cases h; exact ⟨hcontext, huses, hs'⟩
      | create message => cases h; exact ⟨hcontext, huses, hs'⟩

theorem run_confined {x x' : Exec η} {action : Action}
    (hx : x.frame.context = ctx) (h : run x = (action, x')) :
    x'.frame.context = ctx ∧ Uses ctx x.host x'.host ∧ action.AllowedIn ctx :=
  runFor_confined _ hx h

theorem resume_confined {result : FrameResult} {x x' : Exec η} {action : Action}
    (hx : x.frame.context = ctx) (h : resume result x = (action, x')) :
    x'.frame.context = ctx ∧ Uses ctx x.host x'.host ∧ action.AllowedIn ctx := by
  obtain ⟨hcontext, huses, _⟩ := Confined.deliver result x hx
  unfold resume at h
  cases hd : deliver result x with
  | error e y =>
    rw [hd] at h hcontext huses
    cases h
    exact ⟨hcontext, huses, trivial⟩
  | ok u y =>
    rw [hd] at h hcontext huses
    obtain ⟨hcontext', huses', hallowed⟩ := run_confined hcontext h
    exact ⟨hcontext', huses.trans huses', hallowed⟩

end Exec

end Evm
