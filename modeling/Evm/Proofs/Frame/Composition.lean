import Evm.Proofs.Frame.Authority
import Evm.Proofs.Frame.Cost

/-! # What instructions are made of

    Every instruction is a chain of small steps: it changes the stack or the
    memory, moves on in the code, pays gas, moves the refund counter, or has
    the host do something. An instruction that fails has gone some way along
    such a chain and then failed for a reason of its own or because the host
    did.

    `MadeOf ok post op` says this of a block of steps; `ok` is the set of uses
    of the host that it may make, and `post` holds of what it returns. A
    property that all small steps keep is then kept by every instruction
    (`step_madeOf`, `SmallSteps.keeps`), and no instruction has to be looked
    at again for it.
-/

namespace Evm

/-! ## Uses of the host, as operations -/

namespace HostUse

/-- A use as an operation of the host, without its result. -/
def perform {η : Type} [Host η] (use : HostUse) : HostM η PUnit :=
  match use with
  | .loadAccount a => discard (Host.loadAccount a)
  | .balance a => discard (Host.balance a)
  | .code a => discard (Host.code a)
  | .codeHash a => discard (Host.codeHash a)
  | .blockHash number => discard (Host.blockHash number)
  | .sload s => discard (Host.sload s)
  | .sstore s value => discard (Host.sstore s value)
  | .tload s => discard (Host.tload s)
  | .tstore s value => discard (Host.tstore s value)
  | .log entry => discard (Host.log entry)
  | .selfDestruct address target => discard (Host.selfDestruct address target)

/-- Whether a use destroys an account. -/
def IsDestruct : HostUse → Prop
  | .selfDestruct _ _ => True
  | _ => False

/-- Whether a use is counted by the refunds of the frame. -/
def IsBooked : HostUse → Prop
  | .sstore _ _ | .selfDestruct _ _ => True
  | _ => False

/-- Whether a use is made at an instruction. -/
def Suits : HostUse → Opcode → Prop
  | .loadAccount _, op => ∃ scheme, op = .call scheme
  | .balance _, op => op = .balance ∨ op = .selfBalance
  | .code _, op => op = .extCodeSize ∨ op = .extCodeCopy
  | .codeHash _, op => op = .extCodeHash
  | .blockHash _, op => op = .blockHash
  | .sload _, op => op = .sload
  | .sstore _ _, op => op = .sstore
  | .tload _, op => op = .tload
  | .tstore _ _, op => op = .tstore
  | .log _, op => ∃ topics, op = .log topics
  | .selfDestruct _ _, op => op = .selfDestruct

end HostUse

theorem discard_ok {σ α : Type} {op : EStateM EvmError σ α} {s s' : σ} {a : α}
    (h : op s = .ok a s') : discard op s = .ok ⟨⟩ s' := by
  show EStateM.map _ op s = _
  simp only [EStateM.map, h]

theorem discard_error {σ α : Type} {op : EStateM EvmError σ α} {s s' : σ} {e : EvmError}
    (h : op s = .error e s') : discard op s = .error e s' := by
  show EStateM.map _ op s = _
  simp only [EStateM.map, h]

theorem endState_discard {σ α : Type} (op : EStateM EvmError σ α) (s : σ) :
    endState (discard op s) = endState (op s) := by
  cases h : op s with
  | ok a s' => rw [discard_ok h, endState_ok, endState_ok]
  | error e s' => rw [discard_error h, endState_error, endState_error]

/-- A use leaves the host that it leads to. -/
theorem HostUse.endState_perform {η : Type} [Host η] (use : HostUse) (host : η) :
    endState (use.perform host) = use.on host := by
  cases use <;> exact endState_discard _ _

/-- The instruction that a frame is at, if it is at one. -/
def Frame.opcode? (frame : Frame) : Option Opcode :=
  if h : frame.pc < frame.code.size then
    (frame.hardfork.instruction? frame.code[frame.pc]).map Instruction.opcode
  else none

/-- A failure that does not come from the state. -/
def EvmError.IsOwn (e : EvmError) : Prop := ∀ cause, e ≠ .state cause

/-- A step that asks for nothing and does not halt. -/
def Step.IsPlain : Step → Prop
  | .next => True
  | .exit (.halt _) _ => False
  | .exit _ _ => True
  | .call _ | .create _ => False

/-- The instructions that ask for a call or creation. -/
def Opcode.Requests : Opcode → Prop
  | .create | .create2 | .call _ => True
  | _ => False

/-- What an instruction can lead to if it does not fail. Frames halt by failing
    only, and only the instructions for it ask for a call or creation. -/
inductive Opcode.LeadsTo (op : Opcode) : Step → Prop where
  | plain {s : Step} : s.IsPlain → op.LeadsTo s
  | call {message : CallMessage} : op = .call message.scheme → op.LeadsTo (.call message)
  | create {message : CreateMessage} : op = .create ∨ op = .create2 →
    op.LeadsTo (.create message)

/-- What a step of a frame can lead to if it does not fail. -/
def Frame.LeadsTo (frame : Frame) (s : Step) : Prop :=
  s.IsPlain ∨ ∃ op, frame.opcode? = some op ∧ op.LeadsTo s

/-- A step that does not fail does not halt. -/
theorem Frame.LeadsTo.not_halt {frame : Frame} {err : EvmError} {output : Bytes} :
    ¬frame.LeadsTo (.exit (.halt err) output) := by
  rintro (hplain | ⟨op, _, hplain | _ | _⟩)
  · exact hplain
  · next hplain => exact hplain

namespace Exec

variable {η α γ : Type} [Host η] {ok : HostUse → Prop}

/-! ## Small steps -/

/-- One small step, with the uses of the host out of a set. -/
inductive SmallStep (ok : HostUse → Prop) : Exec η → Exec η → Prop where
  | stack (x : Exec η) (stack : Stack) : SmallStep ok x { x with frame := { x.frame with stack } }
  | memory (x : Exec η) (memory : Memory) :
    SmallStep ok x { x with frame := { x.frame with memory } }
  | position (x : Exec η) (pc : Nat) : SmallStep ok x { x with frame := { x.frame with pc } }
  | waiting (x : Exec η) (waiting : Option Pending) :
    SmallStep ok x { x with frame := { x.frame with waiting } }
  | returnData (x : Exec η) (returnData : Bytes) :
    SmallStep ok x { x with frame := { x.frame with returnData } }
  | charge {x : Exec η} {amount : Nat} {gas : Gas} :
    x.frame.gas.charge? amount = some gas →
    SmallStep ok x { x with frame := { x.frame with gas } }
  | refund (x : Exec η) (amount : Int) :
    SmallStep ok x { x with frame := { x.frame with gas := x.frame.gas.refund amount } }
  | host {x : Exec η} {use : HostUse} {host : η} :
    ok use → use.perform x.host = .ok ⟨⟩ host → SmallStep ok x { x with host }

/-- Chains of small steps. -/
def SmallSteps (ok : HostUse → Prop) : Exec η → Exec η → Prop :=
  Relation.ReflTransGen (SmallStep ok)

/-- What every small step keeps is kept by a chain of them. -/
theorem SmallSteps.keeps {P : Exec η → Prop} {x y : Exec η} (h : SmallSteps ok x y)
    (hstep : ∀ x y, SmallStep ok x y → P x → P y) (hx : P x) : P y := by
  induction h with
  | refl => exact hx
  | tail _ hlast ih => exact hstep _ _ hlast ih

/-- How a block fails at some point of its chain: for a reason of its own, which
    changes nothing, or with the host. -/
inductive FailsAt (ok : HostUse → Prop) (e : EvmError) : Exec η → Exec η → Prop where
  | own {x : Exec η} : e.IsOwn → FailsAt ok e x x
  | host {x : Exec η} {use : HostUse} {host : η} :
    ok use → use.perform x.host = .error e host → FailsAt ok e x { x with host }

/-- The block is a chain of small steps, which a failure breaks off. What it
    returns has the property `post`. -/
structure MadeOf (ok : HostUse → Prop) (post : α → Prop) (op : StepM η α) : Prop where
  success : ∀ {x a x'}, op x = .ok a x' → SmallSteps ok x x' ∧ post a
  failure : ∀ {x e x'}, op x = .error e x' → ∃ y, SmallSteps ok x y ∧ FailsAt ok e y x'

/-! ## Blocks -/

namespace MadeOf

protected theorem pure {post : α → Prop} {a : α} (h : post a) :
    MadeOf ok post (pure a : StepM η α) := by
  constructor
  · rintro x a' x' ⟨⟩
    exact ⟨.refl, h⟩
  · rintro x e x' ⟨⟩

protected theorem throw {post : α → Prop} {e : EvmError} (he : e.IsOwn) :
    MadeOf ok post (throw e : StepM η α) := by
  constructor
  · rintro x a x' ⟨⟩
  · rintro x e' x' ⟨⟩
    exact ⟨_, .refl, .own he⟩

theorem bind {post : α → Prop} {post' : γ → Prop} {op : StepM η α} {next : α → StepM η γ}
    (hop : MadeOf ok post op) (hnext : ∀ a, MadeOf ok post' (next a)) :
    MadeOf ok post' (op >>= next) := by
  constructor
  · intro x c x'' h
    obtain ⟨a, x', hfirst, hsecond⟩ := bind_ok h
    obtain ⟨hsteps, hpost⟩ := (hnext a).success hsecond
    exact ⟨(hop.success hfirst).1.trans hsteps, hpost⟩
  · intro x e x'' h
    rw [bind_apply] at h
    cases hfirst : op x with
    | error e' x' =>
      rw [hfirst] at h
      cases h
      exact hop.failure hfirst
    | ok a x' =>
      -- the first block is done, and the second breaks off
      rw [hfirst] at h
      obtain ⟨y, hy, hfails⟩ := (hnext a).failure h
      exact ⟨y, (hop.success hfirst).1.trans hy, hfails⟩

theorem mono {post post' : α → Prop} {op : StepM η α} (hop : MadeOf ok post op)
    (h : ∀ a, post a → post' a) : MadeOf ok post' op where
  success hx := ⟨(hop.success hx).1, h _ (hop.success hx).2⟩
  failure hx := hop.failure hx

theorem ite {p : Prop} [Decidable p] {post : α → Prop} {op op' : StepM η α}
    (hthen : p → MadeOf ok post op) (helse : ¬p → MadeOf ok post op') :
    MadeOf ok post (if p then op else op') := by
  by_cases h : p
  · rw [if_pos h]
    exact hthen h
  · rw [if_neg h]
    exact helse h

/-- A block that is one small step, or fails on its own. -/
theorem of_single {op : StepM η α}
    (hok : ∀ x a x', op x = .ok a x' → SmallStep ok x x')
    (herror : ∀ x e x', op x = .error e x' → e.IsOwn ∧ x' = x) :
    MadeOf ok (fun _ => True) op := by
  refine ⟨fun h => ⟨.single (hok _ _ _ h), trivial⟩, fun h => ?_⟩
  obtain ⟨hown, rfl⟩ := herror _ _ _ h
  exact ⟨_, .refl, .own hown⟩

/-- A block that only looks. -/
theorem of_look {op : StepM η α} (f : Exec η → α) (h : ∀ x, op x = .ok (f x) x) :
    MadeOf ok (fun _ => True) op := by
  constructor
  · intro x a x' hx
    rw [h] at hx
    cases hx
    exact ⟨.refl, trivial⟩
  · intro x e x' hx
    rw [h] at hx
    cases hx

/-! ## The parts of instructions -/

theorem pop : MadeOf ok (fun _ => True) (pop : StepM η Word) := by
  apply of_single
  · intro x a x' h
    unfold Exec.pop at h
    split at h <;> cases h
    exact .stack _ _
  · intro x e x' h
    unfold Exec.pop at h
    cases hstack : x.frame.stack with
    | nil => simp [hstack, Stack.pop] at h; simp [← h.1, ← h.2, EvmError.IsOwn]
    | cons w stack => simp [hstack, Stack.pop] at h

theorem push (w : Word) : MadeOf ok (fun _ => True) (push w : StepM η Unit) := by
  apply of_single
  · intro x a x' h
    unfold Exec.push at h
    split at h <;> cases h
    exact .stack _ _
  · intro x e x' h
    unfold Exec.push Stack.push at h
    by_cases hfull : Stack.limit ≤ x.frame.stack.length
    · simp [hfull] at h; simp [← h.1, ← h.2, EvmError.IsOwn]
    · simp [hfull] at h

theorem dup (n : Nat) : MadeOf ok (fun _ => True) (dup n : StepM η Unit) := by
  have hown : ∀ {s : Stack} {e : EvmError}, s.dup n = .error e → e.IsOwn := by
    intro s e h
    unfold Stack.dup Stack.push at h
    split at h <;> (try split at h) <;> (try split at h) <;> cases h <;> simp [EvmError.IsOwn]
  apply of_single
  · intro x a x' h
    unfold Exec.dup at h
    split at h <;> cases h
    exact .stack _ _
  · intro x e x' h
    unfold Exec.dup at h
    split at h
    · cases h
    · next herror => cases h; exact ⟨hown herror, rfl⟩

theorem swap (n : Nat) : MadeOf ok (fun _ => True) (swap n : StepM η Unit) := by
  have hown : ∀ {s : Stack} {e : EvmError}, s.swap n = .error e → e.IsOwn := by
    intro s e h
    unfold Stack.swap at h
    split at h <;> (try split at h) <;> cases h <;> simp [EvmError.IsOwn]
  apply of_single
  · intro x a x' h
    unfold Exec.swap at h
    split at h <;> cases h
    exact .stack _ _
  · intro x e x' h
    unfold Exec.swap at h
    split at h
    · cases h
    · next herror => cases h; exact ⟨hown herror, rfl⟩

theorem popList (n : Nat) : MadeOf ok (fun _ => True) (popList n : StepM η (List Word)) := by
  induction n with
  | zero => exact .pure trivial
  | succ n ih => exact pop.bind fun _ => ih.bind fun _ => .pure trivial

theorem charge (n : Nat) : MadeOf ok (fun _ => True) (charge n : StepM η Unit) := by
  apply of_single
  · intro x a x' h
    unfold Exec.charge at h
    split at h
    · next hgas => cases h; exact .charge hgas
    · cases h
  · intro x e x' h
    unfold Exec.charge at h
    split at h <;> cases h
    simp [EvmError.IsOwn]

theorem chargeWhen (c : Bool) (n : Nat) :
    MadeOf ok (fun _ => True) (chargeWhen c n : StepM η Unit) :=
  .ite (fun _ => charge n) fun _ => .pure trivial

theorem chargeCold (isCold : Bool) : MadeOf ok (fun _ => True) (chargeCold isCold : StepM η Unit) :=
  chargeWhen isCold _

theorem refund (amount : Int) : MadeOf ok (fun _ => True) (refund amount : StepM η Unit) := by
  apply of_single
  · intro x a x' h
    cases h
    exact .refund x amount
  · intro x e x' h
    cases h

theorem setPosition (f : Frame → Nat) :
    MadeOf ok (fun _ => True) (modifyFrame fun frame => { frame with pc := f frame } :
      StepM η Unit) := by
  apply of_single
  · intro x a x' h
    cases h
    exact .position x _
  · intro x e x' h
    cases h

theorem setWaiting (pending : Pending) :
    MadeOf ok (fun _ => True) (modifyFrame fun frame => { frame with waiting := some pending } :
      StepM η Unit) := by
  apply of_single
  · intro x a x' h
    cases h
    exact .waiting x _
  · intro x e x' h
    cases h

theorem setReturnData (returnData : Bytes) :
    MadeOf ok (fun _ => True) (modifyFrame fun frame => { frame with returnData } :
      StepM η Unit) := by
  apply of_single
  · intro x a x' h
    cases h
    exact .returnData x _
  · intro x e x' h
    cases h

theorem modifyMemory (f : Memory → Memory) :
    MadeOf ok (fun _ => True) (modifyMemory f : StepM η Unit) := by
  apply of_single
  · intro x a x' h
    cases h
    exact .memory x _
  · intro x e x' h
    cases h

protected theorem get : MadeOf ok (fun _ => True) (get : StepM η (Exec η)) :=
  of_look id fun _ => rfl

theorem frameGet (f : Frame → α) : MadeOf ok (fun _ => True) (frameGet f : StepM η α) :=
  of_look (fun x => f x.frame) fun _ => rfl

theorem hostGet (f : η → α) : MadeOf ok (fun _ => True) (hostGet f : StepM η α) :=
  of_look (fun x => f x.host) fun _ => rfl

/-- A use of the host out of the set. -/
theorem onHost {op : HostM η α} (use : HostUse) (huse : use.perform = discard op)
    (hok : ok use) : MadeOf ok (fun _ => True) (onHost op : StepM η α) := by
  constructor
  · rintro ⟨frame, host⟩ a x' h
    unfold Exec.onHost at h
    simp only at h
    cases hop : op host with
    | ok a' host' =>
      simp only [hop] at h
      cases h
      have hperform : use.perform host = .ok ⟨⟩ host' := by rw [huse]; exact discard_ok hop
      exact ⟨.single (.host (x := ⟨frame, host⟩) hok hperform), trivial⟩
    | error e host' => simp only [hop] at h; cases h
  · rintro ⟨frame, host⟩ e x' h
    unfold Exec.onHost at h
    simp only at h
    cases hop : op host with
    | ok a host' => simp only [hop] at h; cases h
    | error e' host' =>
      simp only [hop] at h
      cases h
      have hperform : use.perform host = .error e host' := by rw [huse]; exact discard_error hop
      exact ⟨⟨frame, host⟩, .refl, .host (x := ⟨frame, host⟩) hok hperform⟩

theorem failWhen (c : Bool) {e : EvmError} (he : e.IsOwn) :
    MadeOf ok (fun _ => True) (failWhen c e : StepM η Unit) :=
  .ite (fun _ => .throw he) fun _ => .pure trivial

theorem requireWritable : MadeOf ok (fun _ => True) (requireWritable : StepM η Unit) :=
  (frameGet _).bind fun _ => failWhen _ (by nofun)

theorem toIndex (w : Word) : MadeOf ok (fun _ => True) (toIndex w : StepM η Nat) := by
  unfold Exec.toIndex
  split
  · exact .pure trivial
  · exact .throw nofun

theorem resizeMemory (offset len : Word) :
    MadeOf ok (fun _ => True) (resizeMemory offset len : StepM η (Nat × Nat)) := by
  unfold Exec.resizeMemory
  refine .ite (fun _ => .pure trivial) fun _ => ?_
  refine (toIndex _).bind fun _ => (toIndex _).bind fun _ => (frameGet _).bind fun _ => ?_
  refine .ite (fun _ => ?_) fun _ => .pure trivial
  exact (charge _).bind fun _ => (modifyMemory _).bind fun _ => .pure trivial

theorem readMemory (offset len : Nat) :
    MadeOf ok (fun _ => True) (readMemory offset len : StepM η Bytes) :=
  frameGet _

theorem setAside (requested : Nat) : MadeOf ok (fun _ => True) (setAside requested : StepM η Nat) :=
  (frameGet _).bind fun _ => (charge _).bind fun _ => .pure trivial

/-! ## Instructions -/

/-- The end of an instruction after which the frame goes on. -/
theorem next : MadeOf ok Step.IsPlain (pure .next : StepM η Step) := .pure trivial

theorem pushNext (w : Word) :
    MadeOf ok Step.IsPlain (do Exec.push w; return .next : StepM η Step) :=
  (push w).bind fun _ => next

theorem copyToMemory (source : Bytes) (memOffset dataOffset len : Word) :
    MadeOf ok Step.IsPlain (copyToMemory source memOffset dataOffset len : StepM η Step) :=
  (resizeMemory _ _).bind fun _ => (charge _).bind fun _ => (modifyMemory _).bind fun _ => next

theorem copyFrom (source : Frame → Bytes) :
    MadeOf ok Step.IsPlain (copyFrom source : StepM η Step) :=
  pop.bind fun _ => pop.bind fun _ => pop.bind fun _ => (frameGet _).bind fun _ =>
    copyToMemory _ _ _ _

theorem copyReturnData : MadeOf ok Step.IsPlain (copyReturnData : StepM η Step) :=
  pop.bind fun _ => pop.bind fun _ => pop.bind fun _ => (frameGet _).bind fun _ =>
    (failWhen _ (by nofun)).bind fun _ => copyToMemory _ _ _ _

theorem copyWithinMemory : MadeOf ok Step.IsPlain (copyWithinMemory : StepM η Step) :=
  pop.bind fun _ => pop.bind fun _ => pop.bind fun _ => .ite (fun _ => next) fun _ =>
    (resizeMemory _ _).bind fun _ => (resizeMemory _ _).bind fun _ => (charge _).bind fun _ =>
      (modifyMemory _).bind fun _ => next

/-- The one instruction that writes a slot. -/
theorem storeSlot (hok : ∀ s value, ok (.sstore s value)) :
    MadeOf ok Step.IsPlain (storeSlot : StepM η Step) := by
  unfold Exec.storeSlot
  refine requireWritable.bind fun _ => (frameGet _).bind fun _ => ?_
  refine (failWhen _ (by nofun)).bind fun _ => pop.bind fun key => pop.bind fun value => ?_
  refine (frameGet _).bind fun address => ?_
  refine (onHost (.sstore ⟨address, key⟩ value) rfl (hok _ _)).bind fun _ => ?_
  exact (charge _).bind fun _ => (frameGet _).bind fun _ => (refund _).bind fun _ => next

theorem jumpTo (dest : Word) : MadeOf ok Step.IsPlain (jumpTo dest : StepM η Step) :=
  (frameGet _).bind fun _ => .ite (fun _ => (setPosition _).bind fun _ => next) fun _ =>
    .throw nofun

theorem finish {reason : ExitReason} (h : ∀ output, (Step.exit reason output).IsPlain) :
    MadeOf ok Step.IsPlain (finish reason : StepM η Step) :=
  pop.bind fun _ => pop.bind fun _ => (resizeMemory _ _).bind fun _ =>
    (readMemory _ _).bind fun _ => .pure (h _)

theorem pushImmediate (size : Nat) : MadeOf ok Step.IsPlain (pushImmediate size : StepM η Step) :=
  (frameGet _).bind fun _ => (setPosition _).bind fun _ => pushNext _

theorem log (hok : ∀ entry, ok (.log entry)) (topicCount : Nat) :
    MadeOf ok Step.IsPlain (log topicCount : StepM η Step) := by
  unfold Exec.log
  refine requireWritable.bind fun _ => pop.bind fun _ => pop.bind fun _ => ?_
  refine (popList _).bind fun topics => (resizeMemory _ _).bind fun _ => (charge _).bind fun _ => ?_
  refine (readMemory _ _).bind fun data => (frameGet _).bind fun address => ?_
  have hlog : ok (.log ⟨address, topics.map Hash.ofWord, data⟩) := hok _
  exact (onHost _ rfl hlog).bind fun _ => next

theorem popValue (scheme : CallScheme) :
    MadeOf ok (fun _ => True) (popValue scheme : StepM η Word) :=
  .ite (fun _ => pop) fun _ => .pure trivial

theorem requireMovable (scheme : CallScheme) (value : Word) :
    MadeOf ok (fun _ => True) (requireMovable scheme value : StepM η Unit) :=
  .ite (fun _ => requireWritable) fun _ => .pure trivial

theorem chargeCall (scheme : CallScheme) (value : Word) (account : AccountLoad) :
    MadeOf ok (fun _ => True) (chargeCall scheme value account : StepM η Unit) :=
  (chargeCold _).bind fun _ => (chargeWhen _ _).bind fun _ => chargeWhen _ _

theorem popScheme (salted : Bool) :
    MadeOf ok (fun _ => True) (popScheme salted : StepM η CreateScheme) :=
  .ite (fun _ => pop.bind fun _ => .pure trivial) fun _ => .pure trivial

theorem call (hok : ∀ a, ok (.loadAccount a)) (scheme : CallScheme) :
    MadeOf ok (fun s => ∃ message, s = .call message ∧ message.scheme = scheme)
      (call scheme : StepM η Step) := by
  unfold Exec.call
  refine pop.bind fun requested => pop.bind fun callee => (popValue _).bind fun value => ?_
  refine pop.bind fun _ => pop.bind fun _ => pop.bind fun _ => pop.bind fun _ => ?_
  refine (requireMovable _ _).bind fun _ => ?_
  refine (resizeMemory _ _).bind fun _ => (resizeMemory _ _).bind fun _ => ?_
  refine (onHost (.loadAccount (.ofWord callee)) rfl (hok _)).bind fun account => ?_
  refine (chargeCall _ _ _).bind fun _ => (setAside _).bind fun forwarded => ?_
  refine (readMemory _ _).bind fun _ => (frameGet _).bind fun _ => (setWaiting _).bind fun _ => ?_
  refine .pure ⟨_, rfl, ?_⟩
  cases scheme <;> rfl

theorem create (salted : Bool) :
    MadeOf ok (fun s => ∃ message, s = .create message) (create salted : StepM η Step) := by
  unfold Exec.create
  refine requireWritable.bind fun _ => pop.bind fun _ => pop.bind fun _ => pop.bind fun _ => ?_
  refine (popScheme _).bind fun _ => (resizeMemory _ _).bind fun _ => (frameGet _).bind fun _ => ?_
  refine (hostGet _).bind fun _ => (failWhen _ (by nofun)).bind fun _ => (charge _).bind fun _ => ?_
  refine (readMemory _ _).bind fun _ => (frameGet _).bind fun _ => (setAside _).bind fun _ => ?_
  exact (frameGet _).bind fun _ => (setWaiting _).bind fun _ => .pure ⟨_, rfl⟩

/-- The one instruction that destroys an account. -/
theorem selfDestruct (hok : ∀ address target, ok (.selfDestruct address target)) :
    MadeOf ok Step.IsPlain (selfDestruct : StepM η Step) := by
  unfold Exec.selfDestruct
  refine requireWritable.bind fun _ => pop.bind fun target => (frameGet _).bind fun address => ?_
  refine (onHost (.selfDestruct address (.ofWord target)) rfl (hok _ _)).bind fun _ => ?_
  exact (chargeWhen _ _).bind fun _ => (chargeWhen _ _).bind fun _ => (frameGet _).bind fun _ =>
    (refund _).bind fun _ => .pure trivial

theorem execute_plain (op : Opcode) (pc : Nat)
    (hok : ∀ use : HostUse, use.Suits op → ok use) (hplain : ¬op.Requests) :
    MadeOf ok Step.IsPlain (execute op pc : StepM η Step) := by
  unfold Exec.execute
  cases op with
  | stop => exact .pure trivial
  | unary op => exact pop.bind fun _ => pushNext _
  | binary op => exact pop.bind fun _ => pop.bind fun _ => pushNext _
  | ternary op => exact pop.bind fun _ => pop.bind fun _ => pop.bind fun _ => pushNext _
  | exp => exact pop.bind fun _ => pop.bind fun _ => (charge _).bind fun _ => pushNext _
  | keccak256 =>
    exact pop.bind fun _ => pop.bind fun _ => (resizeMemory _ _).bind fun _ =>
      (charge _).bind fun _ => (readMemory _ _).bind fun _ => pushNext _
  | query q => exact MadeOf.get.bind fun _ => pushNext _
  -- the host is asked about an account
  | balance =>
    refine pop.bind fun a => (onHost (.balance (.ofWord a)) rfl (hok _ (.inl rfl))).bind fun _ => ?_
    exact (chargeCold _).bind fun _ => pushNext _
  | selfBalance =>
    refine (frameGet _).bind fun a => (onHost (.balance a) rfl (hok _ (.inr rfl))).bind fun _ => ?_
    exact pushNext _
  | extCodeSize =>
    refine pop.bind fun a => ?_
    refine (onHost (.code (.ofWord a)) rfl (hok _ (.inl rfl))).bind fun _ => ?_
    exact (chargeCold _).bind fun _ => pushNext _
  | extCodeCopy =>
    refine pop.bind fun a => pop.bind fun _ => pop.bind fun _ => pop.bind fun _ => ?_
    refine (onHost (.code (.ofWord a)) rfl (hok _ (.inr rfl))).bind fun _ => ?_
    exact (chargeCold _).bind fun _ => copyToMemory _ _ _ _
  | extCodeHash =>
    refine pop.bind fun a => (onHost (.codeHash (.ofWord a)) rfl (hok _ rfl)).bind fun _ => ?_
    exact (chargeCold _).bind fun _ => pushNext _
  | callDataLoad => exact pop.bind fun _ => (frameGet _).bind fun _ => pushNext _
  | callDataCopy => exact copyFrom _
  | codeCopy => exact copyFrom _
  | returnDataCopy => exact copyReturnData
  | blockHash =>
    refine pop.bind fun n => (onHost (.blockHash n) rfl (hok _ rfl)).bind fun _ => ?_
    exact pushNext _
  | blobHash => exact pop.bind fun _ => (hostGet _).bind fun _ => pushNext _
  | pop => exact pop.bind fun _ => next
  | mload =>
    exact pop.bind fun _ => (resizeMemory _ _).bind fun _ => (frameGet _).bind fun _ => pushNext _
  | mstore =>
    exact pop.bind fun _ => pop.bind fun _ => (resizeMemory _ _).bind fun _ =>
      (modifyMemory _).bind fun _ => next
  | mstore8 =>
    exact pop.bind fun _ => pop.bind fun _ => (resizeMemory _ _).bind fun _ =>
      (modifyMemory _).bind fun _ => next
  | mcopy => exact copyWithinMemory
  | push0 => exact pushNext _
  | push i => exact pushImmediate _
  | dup i => exact (dup _).bind fun _ => next
  | swap i => exact (swap _).bind fun _ => next
  -- the host is asked about storage
  | sload =>
    refine pop.bind fun key => (frameGet _).bind fun address => ?_
    refine (onHost (.sload ⟨address, key⟩) rfl (hok _ rfl)).bind fun _ => ?_
    exact (chargeWhen _ _).bind fun _ => pushNext _
  | sstore => exact storeSlot fun _ _ => hok _ rfl
  | tload =>
    refine pop.bind fun key => (frameGet _).bind fun address => ?_
    exact (onHost (.tload ⟨address, key⟩) rfl (hok _ rfl)).bind fun _ => pushNext _
  | tstore =>
    refine requireWritable.bind fun _ => pop.bind fun key => pop.bind fun value => ?_
    refine (frameGet _).bind fun address => ?_
    exact (onHost (.tstore ⟨address, key⟩ value) rfl (hok _ rfl)).bind fun _ => next
  | jump => exact pop.bind fun _ => jumpTo _
  | jumpi => exact pop.bind fun _ => pop.bind fun _ => .ite (fun _ => next) fun _ => jumpTo _
  | jumpDest => exact next
  | ret => exact finish fun _ => trivial
  | revert => exact finish fun _ => trivial
  | invalid => exact .throw nofun
  | log topics => exact log (fun _ => hok _ ⟨topics, rfl⟩) _
  | create => exact absurd trivial hplain
  | create2 => exact absurd trivial hplain
  | call scheme => exact absurd trivial hplain
  | selfDestruct => exact selfDestruct fun _ _ => hok _ rfl

/-- **Every instruction is made of small steps**, with the uses of the host that
    suit it. -/
theorem execute (op : Opcode) (pc : Nat) (hok : ∀ use : HostUse, use.Suits op → ok use) :
    MadeOf ok op.LeadsTo (execute op pc : StepM η Step) := by
  by_cases hrequests : op.Requests
  · cases op with
    | create =>
      refine MadeOf.mono (create false) ?_
      rintro _ ⟨message, rfl⟩
      exact .create (.inl rfl)
    | create2 =>
      refine MadeOf.mono (create true) ?_
      rintro _ ⟨message, rfl⟩
      exact .create (.inr rfl)
    | call scheme =>
      refine MadeOf.mono (call (fun _ => hok _ ⟨scheme, rfl⟩) scheme) ?_
      rintro _ ⟨message, rfl, rfl⟩
      exact .call rfl
    | _ => exact hrequests.elim
  · exact (execute_plain op pc hok hrequests).mono fun _ => .plain

/-! ## Outcomes -/

theorem deliverCall (outOffset outLen : Nat) (result : FrameResult) :
    MadeOf ok (fun _ => True) (deliverCall outOffset outLen result : StepM η Unit) :=
  (refund _).bind fun _ => (modifyMemory _).bind fun _ => (setReturnData _).bind fun _ => push _

theorem deliverCreate (result : FrameResult) :
    MadeOf ok (fun _ => True) (deliverCreate result : StepM η Unit) := by
  unfold Exec.deliverCreate
  split
  · exact (refund _).bind fun _ => (setReturnData _).bind fun _ => push _
  · exact (setReturnData _).bind fun _ => push _

end MadeOf

/-! ## Steps -/

/-- What a step does before it comes to its instruction: it fails, or it pays
    the static cost and moves on. -/
theorem step_fetch {x : Exec η} {op : Opcode} (hop : x.frame.opcode? = some op) :
    (∃ e : EvmError, e.IsOwn ∧ step x = .error e x) ∨
      ∃ gas : Gas, x.frame.gas.charge? (Gas.static op) = some gas ∧
        step x = execute op x.frame.pc
          { x with frame := { x.frame with gas, pc := x.frame.pc + 1 } } := by
  unfold Frame.opcode? at hop
  split at hop
  case isFalse => cases hop
  case isTrue hpc =>
  obtain ⟨instruction, hi, rfl⟩ := Option.map_eq_some_iff.mp hop
  rw [← Pays.instruction?_staticGas hi]
  unfold step
  simp only [bind_apply, frameGet, id_eq, dif_pos hpc, hi, failWhen]
  by_cases hlow : x.frame.stack.length < instruction.inputs
  · left
    refine ⟨.stackUnderflow, nofun, ?_⟩
    simp [hlow]
    rfl
  by_cases hhigh :
      Stack.limit < x.frame.stack.length - instruction.inputs + instruction.outputs
  · left
    refine ⟨.stackOverflow, nofun, ?_⟩
    simp [hlow, hhigh]
    rfl
  cases hcharge : x.frame.gas.charge? instruction.staticGas with
  | none =>
    left
    refine ⟨.outOfGas, nofun, ?_⟩
    simp [hlow, hhigh, charge, hcharge]
  | some gas =>
    right
    refine ⟨gas, rfl, ?_⟩
    simp [hlow, hhigh, charge, hcharge, modifyFrame]

/-- **A step is made of small steps**: of those of its instruction, after the
    checks and the static cost. -/
theorem step_madeOf {x : Exec η} (hok : ∀ (use : HostUse) (op : Opcode),
    x.frame.opcode? = some op → use.Suits op → ok use) :
    ∃ op : StepM η Step, step x = op x ∧ MadeOf ok x.frame.LeadsTo op := by
  unfold step
  rw [bind_apply]
  simp only [frameGet, id_eq]
  by_cases hpc : x.frame.pc < x.frame.code.size
  · rw [dif_pos hpc]
    cases hi : x.frame.hardfork.instruction? x.frame.code[x.frame.pc] with
    | none => exact ⟨throw (.invalidOpcode _), rfl, .throw nofun⟩
    | some instruction =>
      have hop : x.frame.opcode? = some instruction.opcode := by
        simp only [Frame.opcode?, dif_pos hpc, hi, Option.map_some]
      refine ⟨_, rfl, ?_⟩
      refine (MadeOf.failWhen _ (by nofun)).bind fun _ => ?_
      refine (MadeOf.failWhen _ (by nofun)).bind fun _ => ?_
      refine (MadeOf.charge _).bind fun _ => (MadeOf.setPosition _).bind fun _ => ?_
      exact (MadeOf.execute _ _ fun use => hok use _ hop).mono fun _ hleads => .inr ⟨_, hop, hleads⟩
  · -- the end of the code is a stop
    rw [dif_neg hpc]
    exact ⟨_, rfl, .pure (.inl trivial)⟩

end Exec

end Evm
