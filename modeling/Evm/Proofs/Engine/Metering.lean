import Evm.Proofs.Engine.Tick
import Evm.Proofs.Frame.Metering
import Evm.State.Database

/-! # Gas over a whole run

    Every frame started with gas that the frame below it had set aside, and
    a frame that waits has room for all of it to come back (`Backed`). So no
    meter ever holds more than its limit, no limit is above the gas that the
    run was given, and nothing wraps around in 64 bits.
-/

namespace Evm

open Journal

namespace Request

variable {β : Type} [Backend β] {request : Request} {e e' : Engine β}

/-- A request that is settled at once tells of a meter that is not overfull and
    with nothing refunded. -/
theorem start_meter {result : FrameResult} (h : request.start e = (.done result, e')) :
    result.gas.remaining ≤ result.gas.limit ∧ result.gas.refunded = 0 :=
  ⟨(start_immediate h).meter, (start_immediate h).refunded⟩

end Request

namespace Engine

variable {β : Type} [Backend β]

/-- What a frame that ended is told as: as it ended, or as a new contract whose
    code is paid for, or as a halt because its code was not deployed. -/
inductive ToldAs (ending : Ending) : FrameResult → Prop where
  | ended : ToldAs ending (.ended ending.exit ending.gas ending.output)
  | deployed {left : Gas} {address : Address} : ending.exit.isSuccess = true →
    ending.gas.charge? (Gas.codeDeposit ending.output.size) = some left →
    ToldAs ending ⟨ending.exit, left, ending.output, some address⟩
  | refused {err : EvmError} : ToldAs ending (.halted err ending.gas.limit)

theorem endFrame_told (kind : FrameKind) (ending : Ending) (e : Engine β) :
    ToldAs ending (endFrame kind ending e).1 := by
  cases kind with
  | call checkpoint =>
    simp only [endFrame, endCall_result]
    exact .ended
  | create checkpoint address =>
    simp only [endFrame, endCreate]
    rw [state_ite_apply]
    cases hexit : ending.exit.isSuccess with
    | false => exact .ended
    | true =>
      rw [if_neg nofun, state_bind_apply]
      have hdeployed := deploy_spec address ending.output ending.gas e
      generalize deploy address ending.output ending.gas e = attempt at hdeployed
      cases hdeployed with
      | failed _ _ => exact .refused
      | deployed hcharge _ => exact .deployed hexit hcharge

/-- What closing a frame does to its meter: nothing, or the code that it
    deploys is paid for, or it fails and all is lost. -/
theorem endFrame_gas (kind : FrameKind) (ending : Ending) (e : Engine β) :
    (endFrame kind ending e).1.gas = ending.gas ∨
      ((endFrame kind ending e).1.isSuccess = false ∧
        (endFrame kind ending e).1.gas = .empty ending.gas.limit) ∨
      ending.gas.charge? (Gas.codeDeposit ending.output.size) =
        some (endFrame kind ending e).1.gas := by
  have htold := endFrame_told kind ending e
  generalize (endFrame kind ending e).1 = result at htold
  cases htold with
  | ended => exact .inl rfl
  | refused => exact .inr (.inl ⟨rfl, rfl⟩)
  | deployed _ hcharge => exact .inr (.inr hcharge)

/-- Closing a frame does not overfill its meter. -/
theorem endFrame_meter (kind : FrameKind) (ending : Ending) (e : Engine β)
    (h : ending.gas.remaining ≤ ending.gas.limit) :
    (endFrame kind ending e).1.gas.remaining ≤ (endFrame kind ending e).1.gas.limit := by
  rcases endFrame_gas kind ending e with hsame | ⟨_, hempty⟩ | hcharge
  · rwa [hsame]
  · rw [hempty]
    exact Nat.zero_le _
  · rw [(Gas.charge?_ok hcharge).2]
    exact Nat.le_trans (Nat.sub_le _ _) h

end Engine

namespace Machine

variable {β : Type} [Backend β] {m m' : Machine β} {bound : Nat}

/-! ## Room for what comes back -/

/-- Each frame that waits has room for the gas that the frame above it, of the
    given limit, started with. The first frame started with no more than the
    bound. -/
def Backed (bound : Nat) : Nat → List Activation → Prop
  | limit, [] => limit ≤ bound
  | limit, parent :: parents =>
    parent.frame.gas.remaining + limit ≤ parent.frame.gas.limit ∧
      Backed bound parent.frame.gas.limit parents

/-- Limits fall from frame to frame. -/
theorem Backed.limits {limit : Nat} {parents : List Activation}
    (h : Backed bound limit parents) :
    limit ≤ bound ∧ ∀ act ∈ parents,
      act.frame.gas.remaining ≤ act.frame.gas.limit ∧ act.frame.gas.limit ≤ bound := by
  induction parents generalizing limit with
  | nil => exact ⟨h, nofun⟩
  | cons parent parents ih =>
    obtain ⟨hroom, hrest⟩ := h
    obtain ⟨hlimit, hacts⟩ := ih hrest
    refine ⟨by omega, ?_⟩
    intro act hact
    rcases List.mem_cons.mp hact with rfl | hact
    · exact ⟨by omega, hlimit⟩
    · exact hacts act hact

/-- The invariant of meters: there is room for everything that can come back. -/
structure Metered (bound : Nat) (m : Machine β) : Prop where
  current : m.current.frame.gas.remaining + answerGas m.answer ≤ m.current.frame.gas.limit
  parents : Backed bound m.current.frame.gas.limit m.parents

/-- The limit of a frame never changes. -/
theorem stepCurrent_limit {action : Option Action} {x : Exec (Engine β)}
    (h : m.stepCurrent = (action, x)) : x.frame.gas.limit = m.current.frame.gas.limit := by
  rcases stepCurrent_ticked m with hsame | ⟨ok, y, _, hy, hticked⟩
  · rw [h] at hsame
    cases hsame
    rfl
  · rw [h] at hticked
    exact hticked.limit.trans hy

/-- What the current frame has after a tick. -/
theorem stepCurrent_remaining {action : Option Action} {x : Exec (Engine β)}
    (h : m.stepCurrent = (action, x)) :
    x.frame.gas.remaining ≤ m.current.frame.gas.remaining + answerGas m.answer := by
  cases hanswer : m.answer with
  | none =>
    have hpays := stepCurrent_pays hanswer h
    omega
  | some result => exact stepCurrent_takes hanswer h

/-- **A tick keeps the invariant.** -/
theorem Metered.tick (hm : Metered bound m) (h : m.tick = .running m') : Metered bound m' := by
  have hcurrent := hm.current
  have hparents := hm.parents
  have hmoved := tick_moved m
  rw [h] at hmoved
  cases hmoved with
  | @wentOn x hstep =>
    have hlimit := stepCurrent_limit hstep
    have hremaining := stepCurrent_remaining hstep
    refine ⟨?_, ?_⟩
    · simp only [goOn, answerGas]
      omega
    · simp only [goOn]
      rwa [hlimit]
  | @requested request x start engine hstep hstart =>
    have hanswer := stepCurrent_requests hstep
    have hlimit := stepCurrent_limit hstep
    have hpays := stepCurrent_pays hanswer hstep
    simp only [hanswer, answerGas] at hcurrent
    rw [tickPrice, Request.price_action] at hpays
    cases start with
    | done result =>
      have hback := Request.start_done hstart
      refine ⟨?_, ?_⟩
      · simp only [afterStart, answerGas]
        omega
      · simp only [afterStart]
        rwa [hlimit]
    | run child =>
      have hfull := Request.start_run hstart
      refine ⟨?_, ?_⟩
      · simp only [afterStart, hfull, Gas.full, answerGas]
        omega
      · -- what was set aside has left room for itself
        simp only [afterStart, hfull, Gas.full, Backed]
        refine ⟨by omega, ?_⟩
        rwa [hlimit]
  | @returned ending x result engine parent parents hstep hparent hend =>
    have hgas := stepCurrent_finished hstep
    have hlimit := stepCurrent_limit hstep
    have hremaining := stepCurrent_remaining hstep
    have hback : result.gas.remaining ≤ ending.gas.remaining := by
      have hless := endFrame_remaining m.current.kind ending x.host
      rwa [hend] at hless
    rw [hparent] at hparents
    obtain ⟨hroom, hrest⟩ := hparents
    refine ⟨?_, hrest⟩
    rw [hgas] at hback
    simp only [answerGas]
    omega

theorem Metered.ticks (hm : Metered bound m) (h : Ticks m m') : Metered bound m' := by
  induction h with
  | refl => exact hm
  | tail _ hstep ih => exact ih.tick hstep

/-! ## What that means -/

/-- Gas that is left to the frames under way: to the current one and to those
    that wait. -/
def liveGas (m : Machine β) : Nat :=
  m.current.frame.gas.remaining + waitingGas m.parents

omit [Backend β] in
theorem gas_eq (m : Machine β) : m.gas = m.liveGas + answerGas m.answer := by
  simp only [gas, liveGas]
  omega

theorem ticks_gas (h : Ticks m m') : m'.gas ≤ m.gas := by
  induction h with
  | refl => exact Nat.le_refl _
  | tail _ hstep ih => exact Nat.le_trans (tick_gas hstep).1 ih

/-- All is well with the gas at a machine. -/
structure GasSound (m : Machine β) : Prop where
  /-- No frame under way has more gas than its limit, and 64 bits hold the
      limit. So what was spent is never negative. -/
  meters : ∀ act ∈ m.current :: m.parents,
    act.frame.gas.remaining ≤ act.frame.gas.limit ∧ act.frame.gas.limit ≤ Word.maxUInt64
  /-- The frame that is told an answer has room for the gas that it brings. -/
  room : m.current.frame.gas.remaining + answerGas m.answer ≤ m.current.frame.gas.limit
  /-- The next tick adds to the meter what the answer brings, at most, and leaves the
      limit alone. -/
  tick : m.stepCurrent.2.frame.gas.limit = m.current.frame.gas.limit ∧
    m.stepCurrent.2.frame.gas.remaining ≤ m.current.frame.gas.remaining + answerGas m.answer
  /-- Closing the frame leaves its meter as it is, takes all gas away, or pays for the
      code that is deployed with gas that there is. -/
  closing : ∀ ending x, m.stepCurrent = (some (.finished ending), x) →
    ending.gas = x.frame.gas ∧
      ((Engine.endFrame m.current.kind ending x.host).1.gas = ending.gas ∨
        (Engine.endFrame m.current.kind ending x.host).1.gas = .empty ending.gas.limit ∨
        Gas.codeDeposit ending.output.size ≤ ending.gas.remaining ∧
          (Engine.endFrame m.current.kind ending x.host).1.gas =
            { ending.gas with
              remaining := ending.gas.remaining - Gas.codeDeposit ending.output.size })
  /-- Gas is never added to the frames under way. That of an answer belongs to
      the frame that takes it in the next tick. -/
  sum : ∀ m', Ticks m m' →
    m'.liveGas + answerGas m'.answer ≤ m.liveGas + answerGas m.answer
  /-- What a call is given, and that its frame starts with just that. -/
  call : ∀ message x, m.stepCurrent = (some (.call message), x) →
    message.ForwardedFrom m.current.frame x.frame.gas ∧ message.gasLimit ≤ Word.maxUInt64 ∧
      ∀ child e', Engine.startCall message x.host = (.run child, e') →
        child.frame.gas = .full message.gasLimit
  /-- What a creation is given. -/
  create : ∀ message x, m.stepCurrent = (some (.create message), x) →
    message.ForwardedFrom x.frame.gas ∧ message.gasLimit ≤ Word.maxUInt64 ∧
      ∀ child e', Engine.startCreate message x.host = (.run child, e') →
        child.frame.gas = .full message.gasLimit

theorem Metered.gasSound (hm : Metered bound m) (hbound : bound ≤ Word.maxUInt64) :
    GasSound m := by
  have hcurrent := hm.current
  obtain ⟨hlimit, hparents⟩ := hm.parents.limits
  have hpoor : m.current.frame.gas.remaining ≤ Word.maxUInt64 := by omega
  -- a request sends less than there was
  have hsent : ∀ (request : Request) (x : Exec (Engine β)),
      m.stepCurrent = (some request.action, x) →
      Exec.tick ⟨m.current.frame, m.engine⟩ = (some request.action, x) ∧
        request.gasLimit ≤ Word.maxUInt64 := by
    intro request x h
    have hanswer := stepCurrent_requests h
    have hpays := stepCurrent_pays hanswer h
    rw [tickPrice, Request.price_action] at hpays
    simp only [stepCurrent, hanswer] at h
    exact ⟨h, by omega⟩
  refine ⟨?_, hcurrent, ⟨stepCurrent_limit rfl, stepCurrent_remaining rfl⟩, ?_, ?_, ?_, ?_⟩
  · intro act hact
    rcases List.mem_cons.mp hact with rfl | hact
    · omega
    · have hbounds := hparents act hact
      omega
  · intro ending x h
    refine ⟨stepCurrent_finished h, ?_⟩
    rcases Engine.endFrame_gas m.current.kind ending x.host with
      hsame | ⟨_, hempty⟩ | hcharge
    · exact .inl hsame
    · exact .inr (.inl hempty)
    · exact .inr (.inr (Gas.charge?_ok hcharge))
  · intro m' h
    have hless := ticks_gas h
    rwa [gas_eq, gas_eq] at hless
  · intro message x h
    obtain ⟨htick, hfits⟩ := hsent (.call message) x h
    refine ⟨Exec.tick_call hpoor htick, hfits, fun child e' hstart => ?_⟩
    have hstarted : (Request.call message).start x.host = (.run child, e') := hstart
    exact Request.start_run hstarted
  · intro message x h
    obtain ⟨htick, hfits⟩ := hsent (.create message) x h
    refine ⟨Exec.tick_create htick, hfits, fun child e' hstart => ?_⟩
    have hstarted : (Request.create message).start x.host = (.run child, e') := hstart
    exact Request.start_run hstarted

/-- The last tick. -/
theorem Metered.finish (hm : Metered bound m) {result : FrameResult} {engine : Engine β}
    (h : m.tick = .finished result engine) :
    result.gas.remaining ≤ bound ∧ result.gas.remaining ≤ result.gas.limit := by
  have hcurrent := hm.current
  have hlimits := hm.parents.limits
  have hmoved := tick_moved m
  rw [h] at hmoved
  cases hmoved with
  | @finished ending x _ _ hstep hparents hend =>
    have hgas := stepCurrent_finished hstep
    have hlimit := stepCurrent_limit hstep
    have hremaining := stepCurrent_remaining hstep
    have hback := endFrame_remaining m.current.kind ending x.host
    have hmeter := Engine.endFrame_meter m.current.kind ending x.host
    rw [hend, hgas] at hback hmeter
    simp only at hback hmeter
    exact ⟨by omega, hmeter (by omega)⟩

end Machine

/-- The first frame has all the gas, and nothing waits. -/
theorem Request.start_metered {β : Type} [Backend β] {request : Request} {e e' : Engine β}
    {act : Activation} (h : request.start e = (.run act, e')) :
    Machine.Metered request.gasLimit (⟨e', act, [], none⟩ : Machine β) := by
  have hfull := Request.start_run h
  refine ⟨?_, ?_⟩
  · simp only [hfull, Gas.full, Machine.answerGas]
    omega
  · simp only [hfull, Gas.full, Machine.Backed]
    omega

namespace Engine

variable {β : Type} [Backend β]

/-- **Gas is metered throughout.** A call or creation with as much gas as 64
    bits hold is sound in its gas at every point, instruction by instruction,
    and its result returns no more gas than was given. -/
theorem gas_metered (request : Request) (e : Engine β)
    (hlimit : request.gasLimit ≤ Word.maxUInt64) :
    (∀ m, request.Ticks e m → m.GasSound) ∧
      (request.perform e).1.gas.remaining ≤ request.gasLimit ∧
      (request.perform e).1.gas.remaining ≤ (request.perform e).1.gas.limit := by
  constructor
  · rintro m ⟨act, e', hstart, hticks⟩
    exact ((Request.start_metered hstart).ticks hticks).gasSound hlimit
  · rw [Request.perform_eq]
    rcases hstart : request.start e with ⟨result | act, e'⟩
    · exact ⟨Request.start_done hstart, (Request.start_meter hstart).1⟩
    · obtain ⟨last, hticks, hlast⟩ := Machine.drive_ticks e' act
      exact ((Request.start_metered hstart).ticks hticks).finish hlast

/-- A call of a contract that calls itself with a value. -/
theorem gas_metered_nested :
    let code : Bytes := ⟨#[0x60, 0, 0x60, 0, 0x60, 0, 0x60, 0, 0x60, 1, 0x30, 0x5a, 0xf1]⟩
    let store : Database :=
      { Database.empty with
        accounts := Std.ExtTreeMap.empty.insert (.ofNat 77) ⟨1, 5, ⟨1⟩⟩
        code := Std.ExtTreeMap.empty.insert ⟨1⟩ code }
    let engine := new store .default (.ofHardfork .cancun)
    let request : Request := .call
      ⟨.call, .ofNat 3, .ofNat 77, .ofNat 77, .transfer 0, ByteArray.empty, 50000, false, 0⟩
    request.gasLimit ≤ Word.maxUInt64 ∧ (∃ m, request.Ticks engine m ∧ m.GasSound) ∧
      (request.perform engine).1.gas.remaining ≤ request.gasLimit := by
  intro code store engine request
  have hlimit : request.gasLimit ≤ Word.maxUInt64 := by decide
  obtain ⟨hsound, hback, _⟩ := gas_metered request engine hlimit
  have hruns : (match request.start engine with
      | (.run _, _) => true
      | (.done _, _) => false) = true := by decide +kernel
  rcases hstart : request.start engine with ⟨result | act, e'⟩
  · rw [hstart] at hruns
    cases hruns
  · have hticks : request.Ticks engine ⟨e', act, [], none⟩ := ⟨act, e', hstart, .refl⟩
    exact ⟨hlimit, ⟨_, hticks, hsound _ hticks⟩, hback⟩

end Engine

end Evm
