import Evm.Proofs.Engine.Frames
import Evm.Proofs.Frame.Cost

/-! # The driver

    What one turn of the driver can do is said once, as the relation `Turn`;
    everything else about whole calls and creations is derived from it. The
    first thing is that they end: every turn uses up some of
    `Machine.potential`, so the bound of the driver is never what ends it
    (`drive_finishes`).
-/

namespace Evm

open Journal

namespace Machine

variable {β : Type} [Backend β] {m m' : Machine β}

/-! ## One turn -/

/-- The machines that the driver comes to from a machine. -/
def Visits : Machine β → Machine β → Prop :=
  Relation.ReflTransGen fun m m' => m.advance = .running m'

/-- Gas that an answer brings. -/
def answerGas (answer : Option FrameResult) : Nat :=
  match answer with
  | some result => result.gas.remaining
  | none => 0

/-- What a run of the current frame has done when it stops. -/
structure Ran (m : Machine β) (action : Action) (frame : Frame) (engine : Engine β) : Prop where
  context : frame.context = m.current.frame.context
  edited : Engine.Edited
    (Edit.By m.current.frame.context.address m.current.frame.context.isStatic) m.engine engine
  price : frame.gas.remaining + action.price ≤
    m.current.frame.gas.remaining + answerGas m.answer
  allowed : action.AllowedIn m.current.frame.context
  ending : ∀ ending, action = .finished ending → ending.gas = frame.gas

theorem runCurrent_ran (m : Machine β) {action : Action} {frame : Frame} {engine : Engine β}
    (h : m.runCurrent = (action, ⟨frame, engine⟩)) : Ran m action frame engine := by
  unfold runCurrent at h
  -- the frame runs on, with or without an answer taken first
  cases hanswer : m.answer with
  | none =>
    simp only [hanswer] at h
    obtain ⟨hcontext, huses, hallowed⟩ := Exec.run_confined rfl h
    refine ⟨hcontext, Engine.uses_edited huses, ?_, hallowed, ?_⟩
    · rw [hanswer]
      exact Exec.run_price h
    · rintro ending rfl
      exact Exec.runFor_finished _ h
  | some result =>
    simp only [hanswer] at h
    obtain ⟨hcontext, huses, hallowed⟩ := Exec.resume_confined rfl h
    refine ⟨hcontext, Engine.uses_edited huses, ?_, hallowed, ?_⟩
    · rw [hanswer]
      exact Exec.resume_price h
    · rintro ending rfl
      exact Exec.resume_finished h

/-- What one turn can do. -/
inductive Turn (m : Machine β) : Progress β → Prop where
  | called {message : CallMessage} {frame : Frame} {engine engine' : Engine β}
      {start : FrameStart} :
    Ran m (.call message) frame engine →
    Engine.CallStart message engine (start, engine') →
    Turn m (.running (afterStart start engine' ⟨frame, m.current.kind⟩ m.parents))
  | created {message : CreateMessage} {frame : Frame} {engine engine' : Engine β}
      {start : FrameStart} :
    Ran m (.create message) frame engine →
    Engine.CreateStart message engine (start, engine') →
    Turn m (.running (afterStart start engine' ⟨frame, m.current.kind⟩ m.parents))
  | returned {ending : Ending} {frame : Frame} {engine engine' : Engine β}
      {result : FrameResult} {parent : Activation} {parents : List Activation} :
    m.parents = parent :: parents →
    Ran m (.finished ending) frame engine →
    Engine.Closed m.current.kind ending engine (result, engine') →
    Turn m (.running ⟨engine', parent, parents, some result⟩)
  | finished {ending : Ending} {frame : Frame} {engine engine' : Engine β}
      {result : FrameResult} :
    m.parents = [] →
    Ran m (.finished ending) frame engine →
    Engine.Closed m.current.kind ending engine (result, engine') →
    Turn m (.finished result engine')

theorem advance_turn (m : Machine β) : Turn m m.advance := by
  unfold advance
  simp only
  split
  · next message frame engine h => exact .called (runCurrent_ran m h) (Engine.startCall_spec _ _)
  · next message frame engine h => exact .created (runCurrent_ran m h) (Engine.startCreate_spec _ _)
  · next ending frame engine h =>
    have hran := runCurrent_ran m h
    have hclosed := Engine.endFrame_spec m.current.kind ending engine
    generalize Engine.endFrame m.current.kind ending engine = closed at hclosed ⊢
    obtain ⟨result, engine'⟩ := closed
    cases hparents : m.parents with
    | nil => exact .finished hparents hran hclosed
    | cons parent parents => exact .returned hparents hran hclosed

/-! ## Termination -/

/-- Gas in the frames that wait. -/
def waitingGas : List Activation → Nat
  | [] => 0
  | parent :: parents => parent.frame.gas.remaining + waitingGas parents

/-- Gas in all frames under way. -/
def gas (m : Machine β) : Nat :=
  m.current.frame.gas.remaining + answerGas m.answer + waitingGas m.parents

/-- What the turns of the driver use up. A request costs gas, which counts
    twice, so that it also makes up for the frame that it may open. -/
def potential (m : Machine β) : Nat := 2 * m.gas + m.parents.length

omit [Backend β] in
/-- An answered request leaves the driver with less gas. -/
theorem potential_answered {frame : Frame} {engine : Engine β} {result : FrameResult}
    {sent : Nat} (hgas : result.gas.remaining ≤ sent)
    (hprice : frame.gas.remaining + (sent + 1) ≤
      m.current.frame.gas.remaining + answerGas m.answer) :
    (afterStart (.done result) engine ⟨frame, m.current.kind⟩ m.parents).potential <
      m.potential := by
  simp only [afterStart, potential, gas, answerGas]
  unfold answerGas at hprice
  omega

omit [Backend β] in
/-- A request that opens a frame leaves the driver with less gas and one frame
    more. -/
theorem potential_opened {frame : Frame} {engine : Engine β} {child : Activation}
    {sent : Nat} (hgas : child.frame.gas.remaining = sent)
    (hprice : frame.gas.remaining + (sent + 1) ≤
      m.current.frame.gas.remaining + answerGas m.answer) :
    (afterStart (.run child) engine ⟨frame, m.current.kind⟩ m.parents).potential <
      m.potential := by
  simp only [afterStart, potential, gas, answerGas, waitingGas, List.length_cons]
  unfold answerGas at hprice
  omega

/-- **Every turn uses up some of the potential.** -/
theorem advance_potential (h : m.advance = .running m') : m'.potential < m.potential := by
  have hturn := advance_turn m
  rw [h] at hturn
  cases hturn with
  | called hran hstart =>
    have hprice := hran.price
    cases hstart with
    | failed _ hgas _ => exact potential_answered hgas hprice
    | settled _ hgas _ => exact potential_answered hgas hprice
    | opened _ => exact potential_opened rfl hprice
  | created hran hstart =>
    have hprice := hran.price
    cases hstart with
    | refused _ hgas _ => exact potential_answered hgas hprice
    | failed _ hgas _ _ => exact potential_answered hgas hprice
    | opened _ _ => exact potential_opened rfl hprice
  | returned hparents hran hclosed =>
    have hprice := hran.price
    have hending := hran.ending _ rfl
    -- closing a frame does not put gas back, and there is one frame less
    have hback : ∀ {ending : Ending} {engine : Engine β} {outcome : FrameResult × Engine β},
        Engine.Closed m.current.kind ending engine outcome →
        outcome.1.gas.remaining ≤ ending.gas.remaining := by
      intro ending engine outcome hclosed
      cases hclosed <;> assumption
    have hgas := hback hclosed
    rw [hending] at hgas
    simp only [potential, gas, answerGas, waitingGas, hparents, List.length_cons, Action.price]
      at hprice hgas ⊢
    omega

/-- With more turns than potential the driver comes to an end of its own. -/
theorem driveFor_finishes (bound : Nat) (m : Machine β) (hbound : m.potential < bound) :
    ∃ last, Visits m last ∧
      last.advance = .finished (driveFor bound m).1 (driveFor bound m).2 := by
  induction bound generalizing m with
  | zero => exact absurd hbound (Nat.not_lt_zero _)
  | succ bound ih =>
    unfold driveFor
    cases h : m.advance with
    | finished result engine => exact ⟨m, .refl, h⟩
    | running next =>
      have hless := advance_potential h
      obtain ⟨last, hvisits, hlast⟩ := ih next (by omega)
      exact ⟨last, .head h hvisits, hlast⟩

/-- **The driver comes to an end of its own** on a first frame. -/
theorem drive_finishes (m : Machine β) (hparents : m.parents = []) (hanswer : m.answer = none) :
    ∃ last, Visits m last ∧ last.advance = .finished m.drive.1 m.drive.2 := by
  apply driveFor_finishes
  simp only [potential, gas, answerGas, waitingGas, hparents, hanswer, List.length_nil]
  omega

/-! ## Contexts -/

/-- A property of contexts that a frame passes on to every frame that it asks
    for. -/
structure Inherited (F : FrameContext → Prop) : Prop where
  call : ∀ {ctx : FrameContext} {message : CallMessage}, F ctx → message.RequestedBy ctx →
    ∀ code jumpDests hardfork, F (Engine.callFrame message code jumpDests hardfork).context
  create : ∀ {ctx : FrameContext} {message : CreateMessage}, F ctx → message.RequestedBy ctx →
    ∀ address hardfork, F (Engine.createFrame message address hardfork).context

/-- The context of every frame under way has a property. -/
def Contexts (F : FrameContext → Prop) (m : Machine β) : Prop :=
  ∀ act ∈ m.current :: m.parents, F act.frame.context

theorem Contexts.advance {F : FrameContext → Prop} (hF : Inherited F) (hm : Contexts F m)
    (h : m.advance = .running m') : Contexts F m' := by
  have hparents : ∀ act ∈ m.parents, F act.frame.context :=
    fun act hact => hm act (List.mem_cons_of_mem _ hact)
  -- the frame that waits now has the context that it had
  have hwaiting : ∀ {action : Action} {frame : Frame} {engine : Engine β},
      Ran m action frame engine →
      ∀ act ∈ (⟨frame, m.current.kind⟩ :: m.parents : List Activation), F act.frame.context := by
    intro action frame engine hran act hact
    rcases List.mem_cons.mp hact with rfl | hact
    · rw [hran.context]
      exact hm _ List.mem_cons_self
    · exact hparents act hact
  have hcurrent : F m.current.frame.context := hm _ List.mem_cons_self
  have hturn := advance_turn m
  rw [h] at hturn
  cases hturn with
  | called hran hstart =>
    cases hstart with
    | failed _ _ _ => exact hwaiting hran
    | settled _ _ _ => exact hwaiting hran
    | opened _ =>
      intro act hact
      rcases List.mem_cons.mp hact with rfl | hact
      · exact hF.call hcurrent hran.allowed _ _ _
      · exact hwaiting hran act hact
  | created hran hstart =>
    cases hstart with
    | refused _ _ _ => exact hwaiting hran
    | failed _ _ _ _ => exact hwaiting hran
    | opened _ _ =>
      intro act hact
      rcases List.mem_cons.mp hact with rfl | hact
      · exact hF.create hcurrent hran.allowed _ _
      · exact hwaiting hran act hact
  | returned hparent _ _ =>
    rw [hparent] at hparents
    exact hparents

theorem Contexts.visits {F : FrameContext → Prop} (hF : Inherited F) (hm : Contexts F m)
    (h : Visits m m') : Contexts F m' := by
  induction h with
  | refl => exact hm
  | tail _ hstep ih => exact ih.advance hF hstep

end Machine

/-! ## What a run does not change -/

namespace Engine

variable {β : Type} [Backend β]

/-- Two engines have the same environment, the same rules and limits, and the
    same precompiled contracts. -/
structure SameSetup (e e' : Engine β) : Prop where
  env : e'.env = e.env
  config : e'.config = e.config
  precompiles : e'.precompiles = e.precompiles

variable {e e' e'' : Engine β}

omit [Backend β] in
theorem SameSetup.trans (h : SameSetup e e') (h' : SameSetup e' e'') : SameSetup e e'' :=
  ⟨h'.env.trans h.env, h'.config.trans h.config, h'.precompiles.trans h.precompiles⟩

theorem Edited.setup {ok : Edit → Prop} (h : Edited ok e e') : SameSetup e e' := by
  rw [h.2]
  exact ⟨rfl, rfl, rfl⟩

theorem CallStart.setup {message : CallMessage} {outcome : FrameStart × Engine β}
    (h : CallStart message e outcome) : SameSetup e outcome.2 := by
  cases h <;> exact ⟨rfl, rfl, rfl⟩

theorem CreateStart.setup {message : CreateMessage} {outcome : FrameStart × Engine β}
    (h : CreateStart message e outcome) : SameSetup e outcome.2 := by
  cases h <;> exact ⟨rfl, rfl, rfl⟩

theorem Closed.setup {kind : FrameKind} {ending : Ending} {outcome : FrameResult × Engine β}
    (h : Closed kind ending e outcome) : SameSetup e outcome.2 := by
  cases h <;> exact ⟨rfl, rfl, rfl⟩

end Engine

namespace Machine

variable {β : Type} [Backend β] {m m' : Machine β}

theorem visits_setup (h : Visits m m') : Engine.SameSetup m.engine m'.engine := by
  induction h with
  | refl => exact ⟨rfl, rfl, rfl⟩
  | @tail m1 m2 _ hstep ih =>
    refine ih.trans ?_
    have hturn := advance_turn m1
    rw [hstep] at hturn
    cases hturn with
    | @called _ _ _ _ start hran hstart =>
      cases start <;> exact hran.edited.setup.trans hstart.setup
    | @created _ _ _ _ start hran hstart =>
      cases start <;> exact hran.edited.setup.trans hstart.setup
    | returned _ hran hclosed => exact hran.edited.setup.trans hclosed.setup

/-- A run changes the state and the code cache of the engine, and nothing
    else. -/
theorem drive_setup (m : Machine β) (hparents : m.parents = []) (hanswer : m.answer = none) :
    Engine.SameSetup m.engine m.drive.2 := by
  obtain ⟨last, hvisits, hlast⟩ := drive_finishes m hparents hanswer
  refine (visits_setup hvisits).trans ?_
  have hturn := advance_turn last
  rw [hlast] at hturn
  cases hturn with
  | finished _ hran hclosed => exact hran.edited.setup.trans hclosed.setup

end Machine

end Evm
