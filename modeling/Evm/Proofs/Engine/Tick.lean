import Evm.Proofs.Engine.Driver
import Evm.Proofs.Frame.Tick

/-! # The engine, one instruction at a time

    A turn of the driver runs a frame until it waits or ends. Here the same
    run is taken apart into ticks: the frame whose turn it is takes the answer
    that it waits for, or carries out one instruction, and what that leads to
    is done at once. A turn is a chain of ticks (`ticks_to_advance`), so every
    machine that the driver comes to is also come to tick by tick.

    Calls and creations are treated alike, as requests: those of frames and
    those that the engine is given from outside.
-/

namespace Evm

open Journal

/-! ## Requests -/

namespace Request

variable {β : Type} [Backend β]

/-- Open what is asked for. -/
def start : Request → StateM (Engine β) FrameStart
  | .call message => Engine.startCall message
  | .create message => Engine.startCreate message

/-- Carry out what is asked for, with every frame that it leads to. -/
def perform : Request → StateM (Engine β) FrameResult
  | .call message => Engine.call message
  | .create message => Engine.create message

theorem perform_eq (request : Request) (e : Engine β) :
    request.perform e = Engine.complete (request.start e).1 (request.start e).2 := by
  cases request <;> rfl

variable {request : Request} {e e' : Engine β}

/-- A request that is settled at once has run no code. -/
theorem start_immediate {result : FrameResult} (h : request.start e = (.done result, e')) :
    Engine.Immediate request.gasLimit result := by
  cases request with
  | call message =>
    have houtcome := Engine.startCall_outcome message e
    rw [show Engine.startCall message e = (.done result, e') from h] at houtcome
    cases houtcome with
    | tooDeep => exact .notEntered _ _
    | unpaid _ => exact .notEntered _ _
    | settled _ _ hfair =>
      rw [Engine.endCall_result]
      exact hfair.toImmediate
  | create message =>
    have houtcome := Engine.startCreate_outcome message e
    rw [show Engine.startCreate message e = (.done result, e') from h] at houtcome
    cases houtcome with
    | refused _ hfair _ => exact hfair.toImmediate
    | unclaimed _ hfair _ => exact hfair.toImmediate
    | unpaid _ _ => exact .halted _ _

/-- A request that is settled at once returns no more gas than was sent. -/
theorem start_done {result : FrameResult} (h : request.start e = (.done result, e')) :
    result.gas.remaining ≤ request.gasLimit :=
  (start_immediate h).back

/-- A new frame has the gas that was sent. -/
theorem start_run {child : Activation} (h : request.start e = (.run child, e')) :
    child.frame.gas = .full request.gasLimit := by
  cases request with
  | call message =>
    have hstart := Engine.startCall_spec message e
    rw [show Engine.startCall message e = (.run child, e') from h] at hstart
    cases hstart
    rfl
  | create message =>
    have hstart := Engine.startCreate_spec message e
    rw [show Engine.startCreate message e = (.run child, e') from h] at hstart
    cases hstart
    rfl

end Request

namespace Machine

variable {β : Type} [Backend β] {m m' : Machine β}

/-! ## Ticks -/

/-- Do what a frame has stopped for. -/
def follow (kind : FrameKind) (parents : List Activation) :
    Action × Exec (Engine β) → Progress β
  | (.call message, ⟨frame, engine⟩) =>
    let (start, engine) := Engine.startCall message engine
    .running (afterStart start engine ⟨frame, kind⟩ parents)
  | (.create message, ⟨frame, engine⟩) =>
    let (start, engine) := Engine.startCreate message engine
    .running (afterStart start engine ⟨frame, kind⟩ parents)
  | (.finished ending, ⟨_, engine⟩) =>
    let (result, engine) := Engine.endFrame kind ending engine
    match parents with
    | [] => .finished result engine
    | parent :: parents => .running ⟨engine, parent, parents, some result⟩

theorem advance_follow (m : Machine β) :
    m.advance = follow m.current.kind m.parents m.runCurrent := by
  unfold advance follow
  rcases m.runCurrent with ⟨_ | _ | _, frame, engine⟩ <;> rfl

theorem follow_request (kind : FrameKind) (parents : List Activation) (request : Request)
    (x : Exec (Engine β)) :
    follow kind parents (request.action, x) =
      .running (afterStart (request.start x.host).1 (request.start x.host).2 ⟨x.frame, kind⟩
        parents) := by
  cases request <;> rfl

/-- The machine in which a frame goes on. -/
def goOn (kind : FrameKind) (parents : List Activation) (x : Exec (Engine β)) : Machine β :=
  ⟨x.host, ⟨x.frame, kind⟩, parents, none⟩

/-- What the frame whose turn it is does in a tick. -/
def stepCurrent (m : Machine β) : Option Action × Exec (Engine β) :=
  match m.answer with
  | some result => Exec.take result ⟨m.current.frame, m.engine⟩
  | none => Exec.tick ⟨m.current.frame, m.engine⟩

/-- One tick: an answer taken or an instruction carried out, with what it
    leads to. -/
def tick (m : Machine β) : Progress β :=
  match m.stepCurrent with
  | (none, x) => .running (goOn m.current.kind m.parents x)
  | (some action, x) => follow m.current.kind m.parents (action, x)

/-- The machines that are come to from a machine, tick by tick. -/
def Ticks : Machine β → Machine β → Prop :=
  Relation.ReflTransGen fun m m' => m.tick = .running m'

/-- What one tick can do. -/
inductive Moved (m : Machine β) : Progress β → Prop where
  | wentOn {x : Exec (Engine β)} :
    m.stepCurrent = (none, x) →
    Moved m (.running (goOn m.current.kind m.parents x))
  | requested {request : Request} {x : Exec (Engine β)} {start : FrameStart}
      {engine : Engine β} :
    m.stepCurrent = (some request.action, x) →
    request.start x.host = (start, engine) →
    Moved m (.running (afterStart start engine ⟨x.frame, m.current.kind⟩ m.parents))
  | returned {ending : Ending} {x : Exec (Engine β)} {result : FrameResult}
      {engine : Engine β} {parent : Activation} {parents : List Activation} :
    m.stepCurrent = (some (.finished ending), x) →
    m.parents = parent :: parents →
    Engine.endFrame m.current.kind ending x.host = (result, engine) →
    Moved m (.running ⟨engine, parent, parents, some result⟩)
  | finished {ending : Ending} {x : Exec (Engine β)} {result : FrameResult}
      {engine : Engine β} :
    m.stepCurrent = (some (.finished ending), x) →
    m.parents = [] →
    Engine.endFrame m.current.kind ending x.host = (result, engine) →
    Moved m (.finished result engine)

theorem tick_moved (m : Machine β) : Moved m m.tick := by
  have hrequest : ∀ (request : Request) (x : Exec (Engine β)),
      m.stepCurrent = (some request.action, x) →
      Moved m (follow m.current.kind m.parents (request.action, x)) := by
    intro request x h
    rw [follow_request]
    exact .requested h rfl
  unfold tick
  split
  · next x h => exact .wentOn h
  · next action x h =>
    cases action with
    | call message => exact hrequest (.call message) x h
    | create message => exact hrequest (.create message) x h
    | finished ending =>
      unfold follow
      cases hparents : m.parents with
      | nil => exact .finished h hparents rfl
      | cons parent parents => exact .returned h hparents rfl

/-- The current frame carries out an instruction or takes an answer. One that
    takes it for nothing stays as it is. -/
theorem stepCurrent_ticked (m : Machine β) :
    m.stepCurrent = (none, ⟨m.current.frame, m.engine⟩) ∨
      ∃ (ok : HostUse → Prop) (x : Exec (Engine β)), x.host = m.engine ∧
        x.frame.gas.limit = m.current.frame.gas.limit ∧ Exec.Ticked ok x m.stepCurrent := by
  cases hanswer : m.answer with
  | none =>
    simp only [stepCurrent, hanswer]
    exact .inr ⟨_, ⟨m.current.frame, m.engine⟩, rfl, rfl, Exec.tick_any _⟩
  | some result =>
    simp only [stepCurrent, hanswer]
    rcases Exec.take_ticked result ⟨m.current.frame, m.engine⟩ with hsame | hticked
    · exact .inl hsame
    · exact .inr ⟨_, _, rfl, rfl, hticked⟩

/-! ## Turns as ticks -/

/-- A frame that goes on is one tick after another. -/
theorem ticks_of_runsOn {x y : Exec (Engine β)} (kind : FrameKind) (parents : List Activation)
    (h : Exec.RunsOn x y) : Ticks (goOn kind parents x) (goOn kind parents y) := by
  induction h with
  | refl => exact .refl
  | @tail y z _ hstep ih =>
    refine ih.tail ?_
    have htick : Exec.tick ⟨y.frame, y.host⟩ = (none, z) := Exec.tick_next.mpr hstep
    simp only [tick, stepCurrent, goOn, htick]

/-- A frame that stops is followed by what it has stopped for. -/
theorem tick_goOn {kind : FrameKind} {parents : List Activation} {x y : Exec (Engine β)}
    {action : Action} (h : Exec.tick x = (some action, y)) :
    (goOn kind parents x).tick = follow kind parents (action, y) := by
  have htick : Exec.tick ⟨x.frame, x.host⟩ = (some action, y) := h
  simp only [tick, stepCurrent, goOn, htick]

/-- A frame run until it stops. -/
theorem ticks_to_follow (kind : FrameKind) (parents : List Activation)
    (x : Exec (Engine β)) :
    ∃ last, Ticks (goOn kind parents x) last ∧ last.tick = follow kind parents x.run := by
  obtain ⟨y, hruns, hlast⟩ := Exec.run_stops x
  exact ⟨_, ticks_of_runsOn kind parents hruns, tick_goOn hlast⟩

/-- **A turn is a chain of ticks.** -/
theorem ticks_to_advance (m : Machine β) : ∃ last, Ticks m last ∧ last.tick = m.advance := by
  rw [advance_follow]
  obtain ⟨engine, ⟨frame, kind⟩, parents, _ | result⟩ := m
  · exact ticks_to_follow kind parents ⟨frame, engine⟩
  · have hrun : (⟨engine, ⟨frame, kind⟩, parents, some result⟩ : Machine β).runCurrent =
        Exec.resume result ⟨frame, engine⟩ := rfl
    rw [hrun, Exec.resume_take]
    rcases htake : Exec.take result ⟨frame, engine⟩ with ⟨_ | action, y⟩
    · -- the answer is taken in a tick of its own
      obtain ⟨last, hticks, hlast⟩ := ticks_to_follow kind parents y
      refine ⟨last, .head ?_ hticks, hlast⟩
      simp only [tick, stepCurrent, htake]
    · refine ⟨_, .refl, ?_⟩
      simp only [tick, stepCurrent, htake]

theorem ticks_of_visits (h : Visits m m') : Ticks m m' := by
  induction h with
  | refl => exact .refl
  | @tail m1 m2 _ hstep ih =>
    obtain ⟨last, hticks, hlast⟩ := ticks_to_advance m1
    exact (ih.trans hticks).tail (hlast.trans hstep)

/-- The driver comes to its end tick by tick. -/
theorem drive_ticks (engine : Engine β) (act : Activation) :
    ∃ last, Ticks ⟨engine, act, [], none⟩ last ∧
      last.tick = .finished (drive ⟨engine, act, [], none⟩).1
        (drive ⟨engine, act, [], none⟩).2 := by
  obtain ⟨turn, hvisits, hturn⟩ := drive_finishes ⟨engine, act, [], none⟩ rfl rfl
  obtain ⟨last, hticks, hlast⟩ := ticks_to_advance turn
  exact ⟨last, (ticks_of_visits hvisits).trans hticks, hlast.trans hturn⟩

/-! ## Gas -/

/-- Whether the next tick carries out an instruction that does not end its
    frame. Taking an answer is not an instruction. -/
def KeepsFrame (m : Machine β) : Prop :=
  m.answer = none ∧ ∀ ending, m.stepCurrent.1 ≠ some (.finished ending)

/-- What the current frame has paid by the end of an instruction. -/
theorem stepCurrent_pays {action : Option Action} {x : Exec (Engine β)}
    (hanswer : m.answer = none) (h : m.stepCurrent = (action, x)) :
    x.frame.gas.remaining + tickPrice action ≤ m.current.frame.gas.remaining := by
  simp only [stepCurrent, hanswer] at h
  exact Exec.tick_pays h

/-- What the current frame has after taking an answer. -/
theorem stepCurrent_takes {action : Option Action} {x : Exec (Engine β)} {result : FrameResult}
    (hanswer : m.answer = some result) (h : m.stepCurrent = (action, x)) :
    x.frame.gas.remaining ≤ m.current.frame.gas.remaining + result.gas.remaining := by
  simp only [stepCurrent, hanswer] at h
  exact (Exec.take_pays h).1

/-- Only an instruction makes a request. -/
theorem stepCurrent_requests {request : Request} {x : Exec (Engine β)}
    (h : m.stepCurrent = (some request.action, x)) : m.answer = none := by
  cases hanswer : m.answer with
  | none => rfl
  | some result =>
    simp only [stepCurrent, hanswer] at h
    obtain ⟨ending, hending, _⟩ := (Exec.take_pays h).2 _ rfl
    cases request <;> cases hending

/-- The meter that a frame ends with is the one it is told to have. -/
theorem stepCurrent_finished {ending : Ending} {x : Exec (Engine β)}
    (h : m.stepCurrent = (some (.finished ending), x)) : ending.gas = x.frame.gas := by
  cases hanswer : m.answer with
  | none =>
    simp only [stepCurrent, hanswer] at h
    exact Exec.tick_finished h
  | some result =>
    simp only [stepCurrent, hanswer] at h
    obtain ⟨_, ⟨⟩, hgas⟩ := (Exec.take_pays h).2 _ rfl
    exact hgas

/-- A frame that halts ends with no gas. -/
theorem stepCurrent_halts {ending : Ending} {x : Exec (Engine β)} {err : EvmError}
    (h : m.stepCurrent = (some (.finished ending), x)) (hexit : ending.exit = .halt err) :
    ending.gas.remaining = 0 := by
  rcases stepCurrent_ticked m with hsame | ⟨ok, y, _, _, hticked⟩
  · rw [h] at hsame
    cases hsame
  · rw [h] at hticked
    exact hticked.halt_forfeits hexit

/-- Closing a frame does not put gas back. -/
theorem endFrame_remaining (kind : FrameKind) (ending : Ending) (e : Engine β) :
    (Engine.endFrame kind ending e).1.gas.remaining ≤ ending.gas.remaining := by
  have hclosed := Engine.endFrame_spec kind ending e
  generalize Engine.endFrame kind ending e = closed at hclosed
  cases hclosed <;> assumption

/-- **No tick adds gas to the frames under way**, and an instruction that does
    not end its frame takes some. -/
theorem tick_gas (h : m.tick = .running m') :
    m'.gas ≤ m.gas ∧ (m.KeepsFrame → m'.gas + 1 ≤ m.gas) := by
  have hmoved := tick_moved m
  rw [h] at hmoved
  cases hmoved with
  | @wentOn x hstep =>
    simp only [goOn, gas]
    cases hanswer : m.answer with
    | none =>
      have hpays := stepCurrent_pays hanswer hstep
      simp only [tickPrice, answerGas] at hpays ⊢
      omega
    | some result =>
      have htakes := stepCurrent_takes hanswer hstep
      refine ⟨by simp only [answerGas]; omega, fun hkeeps => ?_⟩
      rw [hkeeps.1] at hanswer
      cases hanswer
  | @requested request x start engine hstep hstart =>
    have hanswer := stepCurrent_requests hstep
    have hpays := stepCurrent_pays hanswer hstep
    rw [tickPrice, Request.price_action] at hpays
    -- what the new frame gets was taken from the one that waits
    cases start with
    | done result =>
      have hback := Request.start_done hstart
      simp only [afterStart, gas, answerGas, hanswer]
      omega
    | run child =>
      have hfull : child.frame.gas.remaining = request.gasLimit := by
        rw [Request.start_run hstart]
        rfl
      simp only [afterStart, gas, answerGas, waitingGas, hanswer]
      omega
  | @returned ending x result engine parent parents hstep hparents hend =>
    have hending : ending.gas.remaining = x.frame.gas.remaining := by
      rw [stepCurrent_finished hstep]
    have hback : result.gas.remaining ≤ ending.gas.remaining := by
      have hless := endFrame_remaining m.current.kind ending x.host
      rwa [hend] at hless
    have hless : x.frame.gas.remaining ≤ m.current.frame.gas.remaining + answerGas m.answer := by
      cases hanswer : m.answer with
      | none =>
        have hpays := stepCurrent_pays hanswer hstep
        simp only [answerGas]
        omega
      | some answer => exact stepCurrent_takes hanswer hstep
    refine ⟨?_, fun hkeeps => ?_⟩
    · simp only [gas, answerGas, waitingGas, hparents] at hless ⊢
      omega
    · have hends := hkeeps.2 ending
      rw [hstep] at hends
      exact absurd rfl hends

end Machine

/-! ## Runs of requests -/

namespace Request

variable {β : Type} [Backend β]

/-- The machines that a request leads to, tick by tick. -/
def Ticks (request : Request) (e : Engine β) (m : Machine β) : Prop :=
  ∃ act e', request.start e = (.run act, e') ∧ Machine.Ticks ⟨e', act, [], none⟩ m

end Request

end Evm
