import Evm.Proofs.Frame.Composition
import Evm.Proofs.Frame.Cost

/-! # One instruction at a time

    A frame runs until it waits or ends. What it does on the way is a chain
    of ticks of one instruction each. The bound of `run` is never what ends
    this chain (`run_stops`): a tick after which the frame goes on takes gas,
    so that there is no endless chain of them either (`step_wellFounded`).

    What a tick does to the frame and to the host is the relation `Ticked`:
    small steps, and a forfeit if the frame halts. Taking the outcome of a
    request is told by the same relation, once the unused gas is back.
-/

namespace Evm

/-! ## Requests -/

/-- What is asked for from outside the frame. -/
inductive Request where
  | call (message : CallMessage)
  | create (message : CreateMessage)

namespace Request

/-- Gas that is sent along. -/
def gasLimit : Request → Nat
  | .call message => message.gasLimit
  | .create message => message.gasLimit

/-- The request as what a step leads to. -/
def step : Request → Step
  | .call message => .call message
  | .create message => .create message

/-- The request as what a frame stops for. -/
def action : Request → Action
  | .call message => .call message
  | .create message => .create message

theorem price_action (request : Request) : request.action.price = request.gasLimit + 1 := by
  cases request <;> rfl

end Request

/-- What stops a frame is a request or its end. -/
theorem Action.request_or_finished (action : Action) :
    (∃ request : Request, action = request.action) ∨ ∃ ending, action = .finished ending := by
  cases action with
  | call message => exact .inl ⟨.call message, rfl⟩
  | create message => exact .inl ⟨.create message, rfl⟩
  | finished ending => exact .inr ⟨ending, rfl⟩

/-- Whether a frame stopped for a call. -/
def Action.isCall : Action → Bool
  | .call _ => true
  | _ => false

/-- The least that a frame has paid by the end of a tick. -/
def tickPrice : Option Action → Nat
  | none => 1
  | some action => action.price

namespace Exec

variable {η : Type}

/-! ## Ticks -/

/-- What a step leads to: the frame goes on, or it stops. -/
def settle : EStateM.Result EvmError (Exec η) Step → Option Action × Exec η
  | .ok .next x => (none, x)
  | .ok (.call message) x => (some (.call message), x)
  | .ok (.create message) x => (some (.create message), x)
  | .ok (.exit exit output) x => (some (.finished ⟨exit, output, x.frame.gas⟩), x)
  | .error e x => (some (halt e x).1, (halt e x).2)

/-- Take an outcome, and run no instruction. -/
def take (result : FrameResult) (x : Exec η) : Option Action × Exec η :=
  match deliver result x with
  | .ok _ x => (none, x)
  | .error e x => (some (halt e x).1, (halt e x).2)

/-- A frame that has the unused gas back and waits no longer. -/
def refilled (result : FrameResult) (x : Exec η) : Exec η :=
  { x with frame := { x.frame with
    waiting := none, gas := x.frame.gas.giveBack result.gas.remaining } }

/-- Taking an outcome gives back no more than what is left of its gas, and
    makes a frame stop only by ending it. -/
theorem take_pays {result : FrameResult} {x x' : Exec η} {action : Option Action}
    (h : take result x = (action, x')) :
    x'.frame.gas.remaining ≤ x.frame.gas.remaining + result.gas.remaining ∧
      ∀ stop, action = some stop → ∃ ending, stop = .finished ending ∧
        ending.gas = x'.frame.gas := by
  unfold take at h
  cases hd : deliver result x with
  | error e y =>
    rw [hd] at h
    cases h
    refine ⟨Nat.zero_le _, ?_⟩
    rintro stop ⟨⟩
    exact ⟨_, rfl, rfl⟩
  | ok u y =>
    rw [hd] at h
    cases h
    exact ⟨deliver_remaining hd, nofun⟩

variable [Host η] {x x' y : Exec η} {action : Option Action} {ok : HostUse → Prop}

/-- Carry out one instruction. -/
def tick (x : Exec η) : Option Action × Exec η := settle (step x)

theorem tick_next : tick x = (none, y) ↔ step x = .ok .next y := by
  unfold tick
  constructor
  · intro h
    cases hs : step x with
    | error e z => rw [hs] at h; cases h
    | ok s z =>
      rw [hs] at h
      cases s <;> cases h
      rfl
  · intro h
    rw [h]
    rfl

theorem tick_request {request : Request} (h : tick x = (some request.action, x')) :
    step x = .ok request.step x' := by
  unfold tick at h
  cases hs : step x with
  | error e y => rw [hs] at h; cases request <;> cases h
  | ok s y => rw [hs] at h; cases request <;> cases s <;> cases h <;> rfl

/-- **What a tick takes from its frame.** -/
theorem tick_pays (h : tick x = (action, x')) :
    x'.frame.gas.remaining + tickPrice action ≤ x.frame.gas.remaining := by
  unfold tick at h
  cases hs : step x with
  | error e y =>
    -- a halt forfeits all that is left
    rw [hs] at h
    cases h
    exact Nat.zero_le _
  | ok s y =>
    have hpays := Pays.step x s y hs
    rw [hs] at h
    cases s <;> cases h <;> exact hpays

/-- The meter that a frame ends with is the one it is told to have. -/
theorem tick_finished {ending : Ending} (h : tick x = (some (.finished ending), x')) :
    ending.gas = x'.frame.gas := by
  unfold tick at h
  cases hs : step x with
  | error e y => rw [hs] at h; cases h; rfl
  | ok s y => rw [hs] at h; cases s <;> cases h; rfl

/-! ## Runs -/

/-- A frame goes on from one state to another, instruction by instruction. -/
def RunsOn : Exec η → Exec η → Prop :=
  Relation.ReflTransGen fun x y => step x = .ok .next y

/-- There is no endless chain of instructions after which the frame goes on. -/
theorem step_wellFounded : WellFounded fun y x : Exec η => step x = .ok .next y := by
  have hless : ∀ {y x : Exec η}, step x = .ok .next y →
      y.frame.gas.remaining < x.frame.gas.remaining := fun h => Pays.step _ _ _ h
  exact Subrelation.wf hless (measure fun x : Exec η => x.frame.gas.remaining).wf

theorem runFor_succ (bound : Nat) (x : Exec η) :
    runFor (bound + 1) x =
      match tick x with
      | (none, y) => runFor bound y
      | (some action, y) => (action, y) := by
  rw [runFor]
  unfold tick
  cases step x with
  | error e y => rfl
  | ok s y => cases s <;> rfl

/-- With more steps than gas a frame stops at an instruction of its own. -/
theorem runFor_stops (bound : Nat) (x : Exec η) (hbound : x.frame.gas.remaining < bound) :
    ∃ y, RunsOn x y ∧ tick y = (some (runFor bound x).1, (runFor bound x).2) := by
  induction bound generalizing x with
  | zero => omega
  | succ bound ih =>
    rw [runFor_succ]
    rcases htick : tick x with ⟨_ | action, y⟩
    · have hpays : y.frame.gas.remaining + 1 ≤ x.frame.gas.remaining := tick_pays htick
      obtain ⟨last, hruns, hlast⟩ := ih y (by omega)
      exact ⟨last, .head (tick_next.mp htick) hruns, hlast⟩
    · exact ⟨x, .refl, htick⟩

/-- **A run stops at an instruction of its own**, not at its bound. -/
theorem run_stops (x : Exec η) : ∃ y, RunsOn x y ∧ tick y = (some (run x).1, (run x).2) :=
  runFor_stops _ x (Nat.lt_succ_self _)

/-- An outcome is taken before the next instruction. -/
theorem resume_take (result : FrameResult) (x : Exec η) :
    resume result x =
      match take result x with
      | (none, y) => run y
      | (some action, y) => (action, y) := by
  unfold resume take
  cases deliver result x <;> rfl

/-! ## What a tick does -/

/-- What a tick has done to the frame and the host. -/
inductive Ticked (ok : HostUse → Prop) (x : Exec η) : Option Action × Exec η → Prop where
  | done {s : Step} {y : Exec η} :
    SmallSteps ok x y → x.frame.LeadsTo s → Ticked ok x (settle (.ok s y))
  | halted {e : EvmError} {y z : Exec η} :
    SmallSteps ok x y → FailsAt ok e y z → Ticked ok x (settle (.error e z))

theorem tick_ticked (hok : ∀ (use : HostUse) (op : Opcode),
    x.frame.opcode? = some op → use.Suits op → ok use) :
    Ticked ok x (tick x) := by
  obtain ⟨op, hop, hmade⟩ := step_madeOf hok
  unfold tick
  rw [hop]
  cases hx : op x with
  | ok s y =>
    obtain ⟨hsteps, hleads⟩ := hmade.success hx
    exact .done hsteps hleads
  | error e z =>
    obtain ⟨y, hsteps, hfails⟩ := hmade.failure hx
    exact .halted hsteps hfails

theorem tick_any (x : Exec η) : Ticked (fun _ => True) x (tick x) :=
  tick_ticked fun _ _ _ _ => trivial

/-- An outcome is taken without the host. A frame that does not wait leaves it
    alone. -/
theorem take_ticked (result : FrameResult) (x : Exec η) :
    take result x = (none, x) ∨
      Ticked (fun _ => False) (x.refilled result) (take result x) := by
  have htaken : ∀ op : StepM η Unit, MadeOf (fun _ => False) (fun _ => True) op →
      deliver result x = op (x.refilled result) →
      Ticked (fun _ => False) (x.refilled result) (take result x) := by
    intro op hmade hdeliver
    unfold take
    rw [hdeliver]
    cases hop : op (x.refilled result) with
    | ok u y => exact .done (s := .next) (hmade.success hop).1 (.inl trivial)
    | error e z =>
      obtain ⟨y, hsteps, hfails⟩ := hmade.failure hop
      exact .halted hsteps hfails
  cases hw : x.frame.waiting with
  | none =>
    left
    have hdeliver : deliver result x = .ok ⟨⟩ x := by
      simp only [deliver, bind_apply, frameGet, hw, pure_apply]
    simp only [take, hdeliver]
  | some pending =>
    right
    cases pending with
    | call outOffset outLen =>
      refine htaken _ (.deliverCall outOffset outLen result) ?_
      simp only [deliver, bind_apply, frameGet, hw, takeBack_apply]
      rfl
    | create =>
      refine htaken _ (.deliverCreate result) ?_
      simp only [deliver, bind_apply, frameGet, hw, takeBack_apply]
      rfl

omit [Host η] in
@[simp] theorem settle_ok (s : Step) (y : Exec η) : (settle (.ok s y)).2 = y := by
  cases s <;> rfl

/-- A frame ends with a limit that it always had. -/
theorem Ticked.limit {out : Option Action × Exec η} (h : Ticked ok x out) :
    out.2.frame.gas.limit = x.frame.gas.limit := by
  have hsmall : ∀ y z : Exec η, SmallStep ok y z →
      y.frame.gas.limit = x.frame.gas.limit → z.frame.gas.limit = x.frame.gas.limit := by
    rintro y z hstep hy
    cases hstep with
    | charge hcharge =>
      obtain ⟨_, rfl⟩ := Gas.charge?_ok hcharge
      exact hy
    | _ => exact hy
  cases h with
  | done hsteps _ =>
    rw [settle_ok]
    exact hsteps.keeps hsmall rfl
  | halted hsteps hfails =>
    have hlimit := hsteps.keeps hsmall rfl
    cases hfails <;> exact hlimit

/-- What every allowed use of the host keeps, failing or not, is kept. -/
theorem Ticked.keeps_host {P : η → Prop} {out : Option Action × Exec η} (h : Ticked ok x out)
    (hkeeps : ∀ (use : HostUse) (host : η), ok use → P host →
      P (endState (use.perform host))) (hx : P x.host) : P out.2.host := by
  have hsmall : ∀ y z : Exec η, SmallStep ok y z → P y.host → P z.host := by
    rintro y z hstep hy
    cases hstep with
    | host huse hperform =>
      have hz := hkeeps _ _ huse hy
      rwa [hperform] at hz
    | _ => exact hy
  cases h with
  | done hsteps _ =>
    rw [settle_ok]
    exact hsteps.keeps hsmall hx
  | halted hsteps hfails =>
    have hhost := hsteps.keeps hsmall hx
    cases hfails with
    | own _ => exact hhost
    | host huse hperform =>
      have hz := hkeeps _ _ huse hhost
      rwa [hperform] at hz

/-- A frame that ends for a failure of the state ends with a use of the host
    that failed so. -/
theorem Ticked.halt_cause {ending : Ending} {cause : StateError}
    (h : Ticked ok x (some (.finished ending), x')) (hexit : ending.exit = .halt (.state cause)) :
    ∃ y use, SmallSteps ok x y ∧ ok use ∧
      use.perform y.host = .error (.state cause) x'.host := by
  generalize hout : (some (Action.finished ending), x') = out at h
  cases h with
  | @done s y _ hleads =>
    cases s <;> cases hout
    cases hexit
    exact hleads.not_halt.elim
  | halted hsteps hfails =>
    cases hout
    cases hexit
    cases hfails with
    | own hown => exact absurd rfl (hown cause)
    | host huse hperform => exact ⟨_, _, hsteps, huse, hperform⟩

/-- A frame that halts has no gas left. -/
theorem Ticked.halt_forfeits {ending : Ending} {err : EvmError}
    (h : Ticked ok x (some (.finished ending), x')) (hexit : ending.exit = .halt err) :
    ending.gas.remaining = 0 := by
  generalize hout : (some (Action.finished ending), x') = out at h
  cases h with
  | @done s y _ hleads =>
    cases s <;> cases hout
    cases hexit
    exact hleads.not_halt.elim
  | halted _ _ =>
    cases hout
    rfl

end Exec

end Evm
