import Evm.Proofs.Frame.Operands

/-! # How high a stack is

    A frame is checked against the table before its instruction is carried
    out, and that is all the checking that a stack needs (`step_fits`): the
    instruction does not find it too low or too full, and leaves it as high as
    the table says. A frame that asks for a call or creation has room for the
    word that the answer brings.

    So no stack grows above its limit (`Frame.ComesTo.limited`), and no answer
    makes its frame fail (`tick_takesAnswers`).
-/

namespace Evm

/-- The frame is at an instruction and its stack passes the check of the table:
    there are as many words as the instruction takes, and room for those that
    it leaves. -/
structure Frame.Admits (frame : Frame) (instruction : Instruction) : Prop where
  inCode : frame.pc < frame.code.size
  fetched : frame.hardfork.instruction? frame.code[frame.pc] = some instruction
  operands : instruction.inputs ≤ frame.stack.length
  room : frame.stack.length - instruction.inputs + instruction.outputs ≤ Stack.limit

/-- An answer of any kind puts one word on the stack of the frame that asked,
    and the frame does not fail over it. -/
def Frame.TakesAnswers (η : Type) (frame : Frame) : Prop :=
  ∀ (result : FrameResult) (host : η), ∃ (w : Word) (y : Exec η),
    Exec.deliver result ⟨frame, host⟩ = .ok ⟨⟩ y ∧ y.frame.stack = w :: frame.stack

namespace Exec

variable {η : Type} [Host η]

/-! ## Steps -/

/-- What the table promises of a step. -/
structure Fits (instruction : Instruction) (x : Exec η) : Prop where
  /-- The step does not fail for the stack, unless the host tells it to. -/
  faultless : ∀ {e : EvmError} {y : Exec η}, step x = .error e y → e.IsStackFault →
    HostAnswers e y.host
  /-- A frame that goes on has its operands replaced by the results. -/
  goesOn : ∀ {y : Exec η}, step x = .ok .next y →
    y.frame.stack.length =
        x.frame.stack.length - instruction.inputs + instruction.outputs ∧
      y.frame.stack.drop instruction.outputs = x.frame.stack.drop instruction.inputs
  /-- A frame that asks for something has its operands taken, and there is room
      for the answer. -/
  asks : ∀ {request : Request} {y : Exec η}, step x = .ok request.step y →
    y.frame.stack = x.frame.stack.drop instruction.inputs ∧ y.frame.TakesAnswers η

/-- A frame that passes the check pays and carries out the instruction. -/
theorem step_of_admits {x : Exec η} {instruction : Instruction}
    (h : x.frame.Admits instruction) :
    step x = (do
      charge instruction.staticGas
      modifyFrame fun frame => { frame with pc := frame.pc + 1 }
      execute instruction.opcode x.frame.pc : StepM η Step) x := by
  have hlow : decide (x.frame.stack.length < instruction.inputs) = false :=
    decide_eq_false (Nat.not_lt.mpr h.operands)
  have hhigh : decide
      (Stack.limit < x.frame.stack.length - instruction.inputs + instruction.outputs) = false :=
    decide_eq_false (Nat.not_lt.mpr h.room)
  unfold step
  rw [bind_apply]
  simp only [frameGet, id_eq]
  rw [dif_pos h.inCode]
  simp only [h.fetched, hlow, hhigh]
  rfl

omit [Host η] in
theorem passes_of_failWhen {c : Bool} {e : EvmError} {x y : Exec η} {u : Unit}
    (h : failWhen c e x = .ok u y) : c = false := by
  cases c with
  | true => nomatch h
  | false => rfl

/-- A step that does not fail has passed the check, or stands at the end of the
    code and stops. -/
theorem admits_of_step {x y : Exec η} {s : Step} (h : step x = .ok s y) :
    (∃ instruction, x.frame.Admits instruction) ∨ s = .exit .stop ByteArray.empty := by
  unfold step at h
  obtain ⟨frame, x1, hframe, h⟩ := bind_ok h
  cases hframe
  simp only [id_eq] at h
  by_cases hpc : x.frame.pc < x.frame.code.size
  · left
    rw [dif_pos hpc] at h
    cases hi : x.frame.hardfork.instruction? x.frame.code[x.frame.pc] with
    | none =>
      rw [hi] at h
      nomatch h
    | some instruction =>
      rw [hi] at h
      obtain ⟨_, x2, hlow, h⟩ := bind_ok h
      have hoperands := passes_of_failWhen hlow
      rw [failWhen_ok hlow] at h
      obtain ⟨_, x3, hhigh, _⟩ := bind_ok h
      have hroom := passes_of_failWhen hhigh
      refine ⟨instruction, hpc, hi, ?_, ?_⟩
      · exact Nat.not_lt.mp (of_decide_eq_false hoperands)
      · exact Nat.not_lt.mp (of_decide_eq_false hroom)
  · right
    rw [dif_neg hpc] at h
    cases h
    rfl

/-- What an instruction leads to if it does not fail: only a request makes its
    frame wait. -/
theorem execute_asks {op : Opcode} {pc : Nat} {x y : Exec η} {s : Step}
    (h : execute op pc x = .ok s y) :
    (op.Requests → s ≠ .next) ∧ ∀ request : Request, s = request.step → op.Requests := by
  have hany : ∀ use : HostUse, use.Suits op → (fun _ : HostUse => True) use :=
    fun _ _ => trivial
  constructor
  · rintro hrequests rfl
    cases op with
    | create =>
      have hmade : MadeOf (fun _ => True) _ (create false : StepM η Step) := MadeOf.create false
      obtain ⟨_, ⟨⟩⟩ := (hmade.success h).2
    | create2 =>
      have hmade : MadeOf (fun _ => True) _ (create true : StepM η Step) := MadeOf.create true
      obtain ⟨_, ⟨⟩⟩ := (hmade.success h).2
    | call scheme =>
      have hmade : MadeOf (fun _ => True) _ (call scheme : StepM η Step) :=
        MadeOf.call (fun _ => trivial) scheme
      obtain ⟨_, ⟨⟩, _⟩ := (hmade.success h).2
    | _ => exact hrequests
  · rintro request rfl
    refine Classical.byContradiction fun hplain => ?_
    have hleads : request.step.IsPlain := ((MadeOf.execute_plain op pc hany hplain).success h).2
    cases request <;> exact hleads

omit [Host η] in
/-- **An answer is taken** if there is room for one word. -/
theorem takesAnswers {frame : Frame} (hwaits : frame.waiting ≠ none)
    (hroom : frame.stack.length < Stack.limit) : frame.TakesAnswers η := by
  intro result host
  have hpush : ∀ w, frame.stack.push w = .ok (w :: frame.stack) := fun w =>
    if_neg (Nat.not_le.mpr hroom)
  cases hw : frame.waiting with
  | none => exact absurd hw hwaits
  | some pending =>
    cases pending with
    | call outOffset outLen =>
      refine ⟨Word.ofBool result.isSuccess, ?_⟩
      simp only [deliver, bind_apply, frameGet, hw, takeBack_apply, deliverCall, refund,
        modify_apply, modifyMemory, modifyFrame, push, hpush]
      exact ⟨_, rfl, rfl⟩
    | create =>
      simp only [deliver, bind_apply, frameGet, hw, takeBack_apply, deliverCreate]
      cases result.createdAddress <;> cases result.isSuccess <;>
        simp only [bind_apply, refund, modify_apply, modifyFrame, push, hpush] <;>
        exact ⟨_, _, rfl, rfl⟩

/-- A frame that passes the check has its operands taken off what lies below
    them. -/
theorem step_leaves {x : Exec η} {instruction : Instruction} (h : x.frame.Admits instruction) :
    Leaves (x.frame.stack.drop instruction.inputs) instruction.opcode.leaves (step x) := by
  have hentry : instruction = .ofOpcode instruction.opcode :=
    Hardfork.instruction?_ofOpcode h.fetched
  have hinputs : instruction.inputs = instruction.opcode.inputs := congrArg (·.inputs) hentry
  have houtputs : instruction.outputs = instruction.opcode.outputs := congrArg (·.outputs) hentry
  have hoperands := h.operands
  have hroom := h.room
  have habove : x.frame.Above (x.frame.stack.drop instruction.inputs)
      instruction.opcode.inputs := by
    refine ⟨x.frame.stack.take instruction.inputs, ?_, (List.take_append_drop _ _).symm⟩
    rw [List.length_take, Nat.min_eq_left hoperands, hinputs]
  have hexecute : Handles (x.frame.stack.drop instruction.inputs) instruction.opcode.inputs
      instruction.opcode.leaves (execute instruction.opcode x.frame.pc : StepM η Step) := by
    apply execute_handles
    rw [List.length_drop]
    omega
  rw [step_of_admits h]
  refine Handles.bind (Handles.charge instruction.staticGas) (fun _ => ?_) x habove
  exact (Handles.modifyFrame (by intro _; rfl)).bind fun _ => hexecute

theorem step_executes {x y : Exec η} {instruction : Instruction} {s : Step}
    (h : x.frame.Admits instruction) (hstep : step x = .ok s y) :
    ∃ z, execute instruction.opcode x.frame.pc z = .ok s y := by
  rw [step_of_admits h] at hstep
  obtain ⟨_, y1, _, hstep⟩ := bind_ok hstep
  obtain ⟨_, y2, _, hstep⟩ := bind_ok hstep
  exact ⟨y2, hstep⟩

/-- A frame that has asked for something waits. -/
theorem waits_of_asked {x y : Exec η} {request : Request} (h : step x = .ok request.step y) :
    y.frame.waiting ≠ none := by
  have htick : tick x = (some request.action, y) := by
    unfold tick
    rw [h]
    cases request <;> rfl
  have hawaits := (tick_requests htick).2
  cases request with
  | call message =>
    obtain ⟨_, _, hwaiting⟩ := hawaits
    rw [hwaiting]
    exact Option.some_ne_none _
  | create message =>
    have hwaiting : y.frame.waiting = some .create := hawaits
    rw [hwaiting]
    exact Option.some_ne_none _

/-- **The check of the table is all that a stack needs.** -/
theorem step_fits {x : Exec η} {instruction : Instruction} (h : x.frame.Admits instruction) :
    Fits instruction x := by
  have hleaves := step_leaves h
  have hroom := h.room
  have hentry : instruction = .ofOpcode instruction.opcode :=
    Hardfork.instruction?_ofOpcode h.fetched
  have houtputs : instruction.outputs = instruction.opcode.outputs := congrArg (·.outputs) hentry
  constructor
  case faultless =>
    intro e y hstep hfault
    rw [hstep] at hleaves
    exact hleaves hfault
  case goesOn =>
    intro y hstep
    obtain ⟨z, hz⟩ := step_executes h hstep
    have hplain : ¬instruction.opcode.Requests := fun hrequests => (execute_asks hz).1 hrequests rfl
    rw [hstep] at hleaves
    obtain ⟨top, hheight, hstack⟩ := hleaves
    rw [Opcode.leaves_of_plain hplain, ← houtputs] at hheight
    constructor
    · rw [hstack, List.length_append, hheight, List.length_drop, Nat.add_comm]
    · rw [hstack, ← hheight]
      exact List.drop_left
  case asks =>
    intro request y hstep
    obtain ⟨z, hz⟩ := step_executes h hstep
    obtain ⟨hnothing, hone⟩ := Opcode.leaves_of_requests ((execute_asks hz).2 request rfl)
    rw [hstep] at hleaves
    obtain ⟨top, hheight, hstack⟩ := hleaves
    rw [hnothing] at hheight
    have hbelow : y.frame.stack = x.frame.stack.drop instruction.inputs := by
      rw [hstack, List.length_eq_zero_iff.mp hheight, List.nil_append]
    refine ⟨hbelow, takesAnswers (waits_of_asked hstep) ?_⟩
    rw [hbelow, List.length_drop]
    omega

/-! ## Frames -/

/-- The stack does not grow above its limit. -/
theorem limited_steady : Frame.Steady fun frame => frame.stack.length ≤ Stack.limit where
  stack hheight h := hheight.elim (fun hlower => Nat.le_trans hlower h) id
  memory _ h := h
  returnData _ h := h
  remaining _ h := h

/-- A frame that has asked for something has room for the answer. -/
theorem tick_takesAnswers {x y : Exec η} {request : Request}
    (h : tick x = (some request.action, y)) : y.frame.TakesAnswers η := by
  have hstep : step x = .ok request.step y := tick_request h
  rcases admits_of_step hstep with ⟨instruction, hadmits⟩ | hstop
  · exact ((step_fits hadmits).asks hstep).2
  · cases request <;> cases hstop

end Exec

/-- What a frame comes to: instruction by instruction, whatever the host is by
    then, and by taking the answer to what it has asked for. -/
inductive Frame.ComesTo (η : Type) [Host η] (start : Frame) : Frame → Prop where
  | start : ComesTo η start start
  | tick (x : Exec η) : ComesTo η start x.frame → ComesTo η start (Exec.tick x).2.frame
  | answer {x y : Exec η} {request : Request} (result : FrameResult) (later : η) :
    ComesTo η start x.frame → Exec.tick x = (some request.action, y) →
    ComesTo η start (Exec.take result ⟨y.frame, later⟩).2.frame

/-- A frame that was come to by asking for something, and that has no answer
    yet. -/
def Frame.HasAsked (η : Type) [Host η] (start frame : Frame) : Prop :=
  ∃ (x y : Exec η) (request : Request),
    ComesTo η start x.frame ∧ Exec.tick x = (some request.action, y) ∧ y.frame = frame

namespace Frame

open Exec

variable {η : Type} [Host η] {start frame : Frame} {x y : Exec η} {action : Action}

theorem HasAsked.comesTo (h : HasAsked η start frame) : ComesTo η start frame := by
  obtain ⟨x, y, request, hcomes, hasks, rfl⟩ := h
  have hasked := ComesTo.tick x hcomes
  rwa [hasks] at hasked

theorem ComesTo.runsOn (hx : ComesTo η start x.frame) (h : RunsOn x y) :
    ComesTo η start y.frame := by
  induction h with
  | refl => exact hx
  | @tail y z _ hstep ih =>
    have htick : Exec.tick y = (none, z) := tick_next.mpr hstep
    have hcomes := ComesTo.tick y ih
    rwa [htick] at hcomes

/-- A frame that was run until it waits or ends. -/
theorem ComesTo.run (hx : ComesTo η start x.frame) (h : Exec.run x = (action, y)) :
    ComesTo η start y.frame ∧
      ∀ request : Request, action = request.action → HasAsked η start y.frame := by
  obtain ⟨last, hruns, hlast⟩ := run_stops x
  rw [h] at hlast
  have hcomes := hx.runsOn hruns
  have hstopped := ComesTo.tick last hcomes
  rw [hlast] at hstopped
  refine ⟨hstopped, ?_⟩
  rintro request rfl
  exact ⟨last, y, request, hcomes, hlast, rfl⟩

/-- A frame that has asked for something, took the answer and was run on. -/
theorem HasAsked.resume {result : FrameResult} (hx : HasAsked η start x.frame)
    (h : Exec.resume result x = (action, y)) : ComesTo η start y.frame ∧
      ∀ request : Request, action = request.action → HasAsked η start y.frame := by
  obtain ⟨z, asked, request, hcomes, hasks, hframe⟩ := hx
  have htaken := ComesTo.answer result x.host hcomes hasks
  rw [hframe] at htaken
  rw [resume_take] at h
  rcases htake : take result x with ⟨_ | stop, w⟩
  · rw [htake] at h htaken
    exact ComesTo.run htaken h
  · -- an answer that makes the frame stop ends it
    obtain ⟨ending, rfl, _⟩ := (take_pays htake).2 stop rfl
    rw [htake] at h htaken
    cases h
    exact ⟨htaken, fun request hrequest => by cases request <;> cases hrequest⟩

end Frame

/-- **No stack grows above the limit**, whatever the frame runs, asks for and is
    answered. -/
theorem Frame.ComesTo.limited {η : Type} [Host η] {start frame : Frame}
    (hstart : start.stack.length ≤ Stack.limit) (h : ComesTo η start frame) :
    frame.stack.length ≤ Stack.limit := by
  have htick : ∀ x : Exec η, x.frame.stack.length ≤ Stack.limit →
      (Exec.tick x).2.frame.stack.length ≤ Stack.limit := fun x hx =>
    Exec.tick_keeps Exec.limited_steady (fun _ h => h) (fun _ _ _ _ _ h => h)
      (fun _ _ _ _ _ h => h) hx
  induction h with
  | start => exact hstart
  | tick x _ ih => exact htick x ih
  | @answer x y request result later _ hasks ih =>
    have hasked := htick x ih
    rw [hasks] at hasked
    exact Exec.take_keeps Exec.limited_steady result (fun _ h => h) (fun _ h => h) hasked

end Evm
