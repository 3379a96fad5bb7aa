import Evm.Proofs.Engine.Driver
import Evm.Proofs.Frame.MemoryBounds
import Evm.State.Database

/-! # Memory of the frames of a machine

    The driver opens new frames, runs them until they ask for something, and
    runs them on when they have an answer. So whatever it does, each frame under
    way is one that a new frame has come to (`Machine.UnderWay`), and what is
    known of the memory of such frames holds of all of them.
-/

namespace Evm

/-! ## Frames under way -/

/-- A frame about to run its first instruction. -/
def Frame.IsNew (frame : Frame) : Prop :=
  ∃ code jumpDests context gasLimit fork,
    frame = Frame.start code jumpDests context gasLimit fork

/-- Memory that has not been touched is within the bounds. -/
theorem Frame.IsNew.covers {frame : Frame} (h : frame.IsNew) : frame.Covers 0 := by
  obtain ⟨code, jumpDests, context, gasLimit, fork, rfl⟩ := h
  exact ⟨rfl, Nat.le_refl _, nofun⟩

theorem Frame.IsNew.unpaid {frame : Frame} (h : frame.IsNew) :
    Gas.memory frame.memory.words = 0 := by
  obtain ⟨code, jumpDests, context, gasLimit, fork, rfl⟩ := h
  have hnone : Gas.memory Memory.empty.words = 0 := by decide
  exact hnone

namespace Engine

variable {β : Type} [Backend β] {e : Engine β} {outcome : FrameStart × Engine β}

/-- The frame that a call opens is new. -/
theorem CallStart.isNew {message : CallMessage} (h : CallStart message e outcome)
    {act : Activation} (hopened : outcome.1 = .run act) : act.frame.IsNew := by
  cases h with
  | failed _ _ _ => cases hopened
  | settled _ _ _ => cases hopened
  | opened _ =>
    cases hopened
    exact ⟨_, _, _, _, _, rfl⟩

/-- The frame that a creation opens is new. -/
theorem CreateStart.isNew {message : CreateMessage} (h : CreateStart message e outcome)
    {act : Activation} (hopened : outcome.1 = .run act) : act.frame.IsNew := by
  cases h with
  | refused _ _ _ => cases hopened
  | failed _ _ _ _ => cases hopened
  | opened _ _ =>
    cases hopened
    exact ⟨_, _, _, _, _, rfl⟩

end Engine

namespace Machine

variable {β : Type} [Backend β] {m m' : Machine β}

/-- Each frame of the machine is one that a new frame has come to. Those that
    wait have asked for something, and so has the current one if there is an
    answer for it. -/
structure UnderWay (m : Machine β) : Prop where
  current : ∃ start : Frame, start.IsNew ∧ Frame.ComesTo (Engine β) start m.current.frame ∧
    (m.answer ≠ none → Frame.HasAsked (Engine β) start m.current.frame)
  parents : ∀ act ∈ m.parents, ∃ start : Frame, start.IsNew ∧
    Frame.HasAsked (Engine β) start act.frame

/-- A machine about to drive a new frame. -/
structure Begins (m : Machine β) : Prop where
  isNew : m.current.frame.IsNew
  parents : m.parents = []
  answer : m.answer = none

theorem Begins.underWay (h : m.Begins) : m.UnderWay := by
  refine ⟨⟨m.current.frame, h.isNew, .start, fun hanswer => absurd h.answer hanswer⟩, ?_⟩
  rw [h.parents]
  exact nofun

/-- What the current frame comes to when it is run. -/
theorem UnderWay.ran (hm : m.UnderWay) {action : Action} {x : Exec (Engine β)}
    (h : m.runCurrent = (action, x)) : ∃ start : Frame, start.IsNew ∧
      Frame.ComesTo (Engine β) start x.frame ∧
      ∀ request : Request, action = request.action →
        Frame.HasAsked (Engine β) start x.frame := by
  obtain ⟨start, hnew, hcomes, hasked⟩ := hm.current
  unfold runCurrent at h
  cases hanswer : m.answer with
  | none =>
    rw [hanswer] at h
    exact ⟨start, hnew, Frame.ComesTo.run hcomes h⟩
  | some result =>
    rw [hanswer] at h hasked
    exact ⟨start, hnew, Frame.HasAsked.resume (hasked (Option.some_ne_none _)) h⟩

omit [Backend β] in
theorem mem_afterStart (outcome : FrameStart) (engine : Engine β) (asked : Activation)
    (parents : List Activation) :
    asked ∈ (Machine.afterStart outcome engine asked parents).current ::
      (Machine.afterStart outcome engine asked parents).parents := by
  cases outcome with
  | done result => exact List.mem_cons_self
  | run child => exact List.mem_cons_of_mem _ List.mem_cons_self

/-- A frame that has asked for something gets its answer at once, or it waits
    for the frame that is opened. -/
theorem UnderWay.afterStart {outcome : FrameStart} {engine : Engine β} {asked : Activation}
    {parents : List Activation} (hopened : ∀ act, outcome = .run act → act.frame.IsNew)
    (hasked : ∃ start : Frame, start.IsNew ∧ Frame.HasAsked (Engine β) start asked.frame)
    (hparents : ∀ act ∈ parents, ∃ start : Frame, start.IsNew ∧
      Frame.HasAsked (Engine β) start act.frame) :
    (Machine.afterStart outcome engine asked parents).UnderWay := by
  cases outcome with
  | done result =>
    obtain ⟨start, hnew, hstart⟩ := hasked
    exact ⟨⟨start, hnew, hstart.comesTo, fun _ => hstart⟩, hparents⟩
  | run child =>
    refine ⟨⟨child.frame, hopened child rfl, .start, fun hanswer => absurd rfl hanswer⟩, ?_⟩
    exact List.forall_mem_cons.mpr ⟨hasked, hparents⟩

/-- **One turn of the driver.** -/
theorem UnderWay.advance (hm : m.UnderWay) (h : m.advance = .running m') : m'.UnderWay := by
  unfold Machine.advance at h
  simp only at h
  split at h
  · next message frame engine hrun =>
    obtain ⟨start, hnew, _, hasked⟩ := hm.ran hrun
    cases h
    exact .afterStart (fun _ => (Engine.startCall_spec message engine).isNew)
      ⟨start, hnew, hasked (.call message) rfl⟩ hm.parents
  · next message frame engine hrun =>
    obtain ⟨start, hnew, _, hasked⟩ := hm.ran hrun
    cases h
    exact .afterStart (fun _ => (Engine.startCreate_spec message engine).isNew)
      ⟨start, hnew, hasked (.create message) rfl⟩ hm.parents
  · -- the frame has ended, and the one that waits for it has its answer
    have hparents := hm.parents
    cases hwaiting : m.parents with
    | nil =>
      rw [hwaiting] at h
      cases h
    | cons parent rest =>
      rw [hwaiting] at h hparents
      cases h
      obtain ⟨⟨start, hnew, hasked⟩, hrest⟩ := List.forall_mem_cons.mp hparents
      exact ⟨⟨start, hnew, hasked.comesTo, fun _ => hasked⟩, hrest⟩

/-- A frame that has asked for a call is under way after the turn. -/
theorem advance_of_call {message : CallMessage} {x : Exec (Engine β)}
    (h : m.runCurrent = (.call message, x)) :
    ∃ m' act, m.advance = .running m' ∧ act ∈ m'.current :: m'.parents ∧ act.frame = x.frame := by
  have hadvance : m.advance = .running (Machine.afterStart (Engine.startCall message x.host).1
      (Engine.startCall message x.host).2 ⟨x.frame, m.current.kind⟩ m.parents) := by
    unfold Machine.advance
    simp only [h]
    rfl
  exact ⟨_, ⟨x.frame, m.current.kind⟩, hadvance, mem_afterStart _ _ _ _, rfl⟩

/-- **All turns of the driver.** -/
theorem UnderWay.visits (hm : m.UnderWay) (h : Visits m m') : m'.UnderWay := by
  induction h with
  | refl => exact hm
  | tail _ hstep ih => exact ih.advance hstep

theorem UnderWay.comesTo (hm : m.UnderWay) {act : Activation}
    (hact : act ∈ m.current :: m.parents) :
    ∃ start : Frame, start.IsNew ∧ Frame.ComesTo (Engine β) start act.frame := by
  rcases List.mem_cons.mp hact with rfl | hparent
  · obtain ⟨start, hnew, hcomes, _⟩ := hm.current
    exact ⟨start, hnew, hcomes⟩
  · obtain ⟨start, hnew, hasked⟩ := hm.parents act hparent
    exact ⟨start, hnew, hasked.comesTo⟩

end Machine

/-! ## All frames -/

/-- **Memory is paid for and stays in bounds.** Take any frame that a new frame
    comes to, on any host and with any answers; all frames that the driver has
    under way are of this kind. Its memory has whole words and is never smaller
    later on. There is a record of all that was done with the memory until then:
    it grew in the calls for growth alone, each of which was paid, so that all
    of them cost what the memory costs; and each range that was read or
    written, be it for an answer, was inside memory at that time, which did not
    grow for it. The range that an answer goes to is inside. Nothing is left out
    of a record: what is recorded without any use takes no notice of memory. -/
theorem memory_paid_and_in_bounds :
    (∀ (η : Type) [Host η] (start frame : Frame), start.IsNew → Frame.ComesTo η start frame →
      frame.memory.size % 32 = 0 ∧
      (∀ later, Frame.ComesTo η frame later → frame.memory.size ≤ later.memory.size) ∧
      (∃ record, Frame.ComesUsing η start record frame ∧ (∀ use ∈ record, use.Proper) ∧
        MemoryUse.paidIn record = Gas.memory frame.memory.words) ∧
      ∀ offset len, frame.waiting = some (.call offset len) →
        offset + len ≤ frame.memory.size) ∧
    (∀ (β : Type) [Backend β] (m m' : Machine β), m.Begins → Machine.Visits m m' →
      ∀ act ∈ m'.current :: m'.parents,
        ∃ start : Frame, start.IsNew ∧ Frame.ComesTo (Engine β) start act.frame) ∧
    ∀ (η α : Type) (op : StepM η α) (x : Exec η), Exec.Uses op x [] →
      ∀ memory : Memory, memory.size = x.frame.memory.size →
        op (x.withMemory memory) = mapState (Exec.withMemory memory) (op x) := by
  refine ⟨?_, ?_, fun η α op x => Exec.Uses.nothing⟩
  · intro η _ start frame hnew hcomes
    have hin := hcomes.inBounds hnew.covers
    obtain ⟨_, record, husing, hproper, hpaid⟩ := hin.balance
    rw [hnew.unpaid, Nat.add_zero] at hpaid
    exact ⟨hin.covers.whole, fun later hlater => (hlater.inBounds hin.covers).balance.1,
      ⟨record, husing, hproper, hpaid⟩, hin.covers.pending⟩
  · intro β _ m m' hbegins hvisits act hact
    exact (hbegins.underWay.visits hvisits).comesTo hact

open Exec in
/-- Code that calls with the bytes from 33 to 66 for input and output. The frame
    waits with three words of memory, which cost nine, and an answer of five
    bytes goes into that memory. A machine that drives the frame has it under
    way after the first turn, and the range is inside its memory. -/
theorem memory_paid_and_in_bounds_answered :
    let code : Bytes := ⟨#[0x60, 33, 0x80, 0x80, 0x80, 0x80, 0x80, 0xfa]⟩
    let context : FrameContext := ⟨.zero, .zero, 0, ByteArray.empty, false, 0⟩
    let host : Engine Database := .new .empty .default (.ofHardfork .cancun)
    let start : Frame := .start code (.analyze code) context 10000 .cancun
    let machine : Machine Database := ⟨host, ⟨start, .call host.journal.checkpoint⟩, [], none⟩
    let result : FrameResult := .ended .ret (.empty 33) ⟨#[1, 2, 3, 4, 5]⟩
    ∃ (message : CallMessage) (asked : Exec (Engine Database)),
      Exec.run ⟨start, host⟩ = (.call message, asked) ∧
      asked.frame.waiting = some (.call 33 33) ∧
      (resume result asked).2.frame.memory.slice 33 6 = ⟨#[1, 2, 3, 4, 5, 0]⟩ ∧
      (∃ record, Frame.ComesUsing (Engine Database) start record (resume result asked).2.frame ∧
        (∀ use ∈ record, use.Proper) ∧ MemoryUse.paidIn record = 9) ∧
      ∃ m' act, machine.advance = .running m' ∧ act ∈ m'.current :: m'.parents ∧
        act.frame = asked.frame ∧ 33 + 33 ≤ act.frame.memory.size := by
  intro code context host start machine result
  have hruns :
      (Exec.run ⟨start, host⟩).1.isCall = true ∧
      (Exec.run ⟨start, host⟩).2.frame.waiting = some (.call 33 33) ∧
      (resume result (Exec.run ⟨start, host⟩).2).2.frame.memory.slice 33 6 =
        ⟨#[1, 2, 3, 4, 5, 0]⟩ ∧
      (resume result (Exec.run ⟨start, host⟩).2).2.frame.memory.words = 3 := by decide +kernel
  obtain ⟨⟨action, asked⟩, hrun⟩ : ∃ stopped, Exec.run ⟨start, host⟩ = stopped := ⟨_, rfl⟩
  rw [hrun] at hruns
  obtain ⟨hcalls, hwaits, hslice, hwords⟩ := hruns
  have hnew : start.IsNew := ⟨_, _, _, _, _, rfl⟩
  obtain ⟨hframes, hmachines, _⟩ := memory_paid_and_in_bounds
  cases action with
  | create message => cases hcalls
  | finished ending => cases hcalls
  | call message =>
    refine ⟨message, asked, hrun, hwaits, hslice, ?_, ?_⟩
    · have hasked := (Frame.ComesTo.run .start hrun).2 (.call message) rfl
      obtain ⟨⟨action, ended⟩, hended⟩ : ∃ stopped, resume result asked = stopped := ⟨_, rfl⟩
      have hcomes := (hasked.resume hended).1
      rw [hended] at hwords ⊢
      obtain ⟨_, _, ⟨record, husing, hproper, hpaid⟩, _⟩ := hframes _ _ _ hnew hcomes
      have hprice : Gas.memory 3 = 9 := by decide
      rw [hwords, hprice] at hpaid
      exact ⟨record, husing, hproper, hpaid⟩
    · obtain ⟨m', act, hadvance, hact, hframe⟩ := Machine.advance_of_call (m := machine) hrun
      obtain ⟨first, hfirst, hcomes⟩ :=
        hmachines Database machine m' ⟨hnew, rfl, rfl⟩ (.single hadvance) act hact
      obtain ⟨_, _, _, hpending⟩ := hframes _ _ _ hfirst hcomes
      refine ⟨m', act, hadvance, hact, hframe, hpending 33 33 ?_⟩
      rw [hframe]
      exact hwaits

end Evm
