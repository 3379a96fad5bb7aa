import Evm.Proofs.Frame.Registers
import Evm.Proofs.JumpDests
import Evm.Engine
import Evm.State.Database

/-! # Where a frame stands in its code

    A frame stands at an instruction start, before every instruction and after
    it, however often it jumps and whatever happens around it. The analysis of
    the code and the frame find the instructions each on its own; that they
    find the same ones is what the invariant `OnCourse` carries.

    A jump goes to a word of 256 bits. It succeeds if and only if the word is
    the position of a `JUMPDEST` that is an instruction (`jump_outcome`).
-/

namespace Evm

open JumpDests (IsStart IsTarget IsPushData)

namespace Frame

/-- A frame in the middle of some code, with the jump destinations of that
    code. -/
structure OnCourse (code : Bytes) (frame : Frame) : Prop where
  sameCode : frame.code = code
  analyzed : frame.jumpDests = .analyze code
  /-- The position is an instruction start. -/
  start : IsStart code frame.pc
  height : frame.stack.length ≤ Stack.limit

/-- The frame stands at an instruction start, or where the code has ended, and
    not in push data. -/
def AtInstruction (code : Bytes) (frame : Frame) : Prop :=
  IsStart code frame.pc ∧ ¬IsPushData code frame.pc

theorem OnCourse.atInstruction {code : Bytes} {frame : Frame} (h : frame.OnCourse code) :
    frame.AtInstruction code :=
  ⟨h.start, h.start.not_pushData⟩

/-- The frame is at a jump that goes to a word. -/
inductive JumpsTo (frame : Frame) (dest : Word) : Opcode → Prop where
  | always {rest : Stack} : frame.opcode? = some .jump → frame.stack = dest :: rest →
    JumpsTo frame dest .jump
  | condition {condition : Word} {rest : Stack} : frame.opcode? = some .jumpi →
    frame.stack = dest :: condition :: rest → condition ≠ 0 → JumpsTo frame dest .jumpi

/-- The machine passes over the immediate bytes of the instruction it finds. -/
theorem immediates_of_opcode? {frame : Frame} {op : Opcode} (h : frame.opcode? = some op) :
    ∃ hpc : frame.pc < frame.code.size,
      JumpDests.immediates frame.code[frame.pc] = op.immediateSize ∧
        frame.hardfork.instruction? frame.code[frame.pc] = some (.ofOpcode op) := by
  unfold opcode? at h
  split at h
  case isFalse => cases h
  case isTrue hpc =>
  obtain ⟨instruction, hi, rfl⟩ := Option.map_eq_some_iff.mp h
  have hdecode := hi
  rw [Hardfork.instruction?_eq_decode?] at hdecode
  unfold Hardfork.decode? at hdecode
  cases hbyte : Opcode.ofByte? frame.code[frame.pc] with
  | none => simp [hbyte] at hdecode
  | some op =>
    simp only [hbyte] at hdecode
    split at hdecode <;> cases hdecode
    exact ⟨hpc, by simp only [JumpDests.immediates, hbyte, Instruction.ofOpcode], hi⟩

end Frame

namespace Exec

variable {η : Type} {code : Bytes} {x : Exec η}

/-! ## Where an instruction leads -/

theorem jumpTo_apply (dest : Word) (x : Exec η) :
    jumpTo dest x =
      if x.frame.jumpDests.isValid dest.toNatCapped then
        .ok .next { x with frame := { x.frame with pc := dest.toNatCapped } }
      else .error (.invalidJump dest.toNatCapped) x := by
  unfold jumpTo
  simp only [bind_apply, frameGet]
  by_cases h : x.frame.jumpDests.isValid dest.toNatCapped
  · rw [if_pos h, if_pos h]
    rfl
  · rw [if_neg h, if_neg h]
    rfl

/-- The frame stands at a position, or at a jump destination. -/
def StandsAt (dests : JumpDests) (pc : Nat) (frame : Frame) : Prop :=
  frame.jumpDests = dests ∧ (frame.pc = pc ∨ dests.isValid frame.pc = true)

theorem standsAt_steady (dests : JumpDests) (pc : Nat) : Frame.Steady (StandsAt dests pc) where
  stack _ h := h
  memory _ h := h
  returnData _ h := h
  remaining _ h := h

theorem jumpTo_keeps (dests : JumpDests) (pc : Nat) (dest : Word) :
    Keeps (StandsAt dests pc) (jumpTo dest : StepM η Step) := by
  rintro x ⟨rfl, hpc⟩
  rw [jumpTo_apply]
  by_cases h : x.frame.jumpDests.isValid dest.toNatCapped
  · rw [if_pos h]
    exact ⟨rfl, .inr h⟩
  · rw [if_neg h]
    exact ⟨rfl, hpc⟩

theorem pushImmediate_position (size : Nat) (x : Exec η) :
    StandsAt x.frame.jumpDests (x.frame.pc + size)
      (endState (pushImmediate size x)).frame := by
  have hpush (w : Word) : Keeps (StandsAt x.frame.jumpDests (x.frame.pc + size))
      (do push w; return .next : StepM η Step) :=
    .pushNext (standsAt_steady _ _) w
  exact hpush _ { x with frame := { x.frame with pc := x.frame.pc + size } } ⟨rfl, .inl rfl⟩

variable [Host η]

/-- An instruction begins behind its own byte and ends behind its immediate
    bytes, or at a jump destination. -/
theorem execute_position (op : Opcode) (pc : Nat) (x : Exec η) :
    StandsAt x.frame.jumpDests (x.frame.pc + op.immediateSize)
      (endState (execute op pc x)).frame := by
  have hsteady := standsAt_steady x.frame.jumpDests x.frame.pc
  have hx : StandsAt x.frame.jumpDests x.frame.pc x.frame := ⟨rfl, .inl rfl⟩
  cases op with
  | push i => exact pushImmediate_position _ x
  | jump => exact (Keeps.pop hsteady).bind (fun _ => jumpTo_keeps _ _ _) x hx
  | jumpi =>
    refine (Keeps.pop hsteady).bind (fun _ => (Keeps.pop hsteady).bind fun _ => ?_) x hx
    exact .ite (.pure _) (jumpTo_keeps _ _ _)
  | _ =>
    refine execute_keeps hsteady _ pc ?_ (fun _ _ _ h => h) (fun _ _ _ h => h) x hx
    exact fun hmoves => False.elim hmoves

/-- **Where a frame stands after a tick**: where it was, if it did not come to
    an instruction; behind the instruction and its immediate bytes; or at a
    jump destination. -/
theorem tick_position (x : Exec η) :
    (tick x).2.frame.pc = x.frame.pc ∨
      (∃ op, x.frame.opcode? = some op ∧
        (tick x).2.frame.pc = x.frame.pc + 1 + op.immediateSize) ∨
      x.frame.jumpDests.isValid (tick x).2.frame.pc = true := by
  have hsettle : ∀ {pc}, StandsAt x.frame.jumpDests pc (endState (step x)).frame →
      StandsAt x.frame.jumpDests pc (tick x).2.frame :=
    settle_keeps (standsAt_steady _ _)
  cases hop : x.frame.opcode? with
  | none =>
    left
    unfold tick
    rw [step_of_none hop]
    split <;> rfl
  | some op =>
    rcases step_fetch hop with ⟨e, _, herror⟩ | ⟨gas, _, hexecute⟩
    · left
      unfold tick
      rw [herror]
      rfl
    · right
      have hstands := execute_position op x.frame.pc
        { x with frame := { x.frame with gas, pc := x.frame.pc + 1 } }
      rw [← hexecute] at hstands
      rcases (hsettle hstands).2 with hpc | hvalid
      · exact .inl ⟨op, rfl, hpc⟩
      · exact .inr hvalid

/-! ## The invariant -/

omit [Host η] in
theorem onCourse_start (code : Bytes) (context : FrameContext) (gasLimit : Nat)
    (fork : Hardfork) :
    (Frame.start code (.analyze code) context gasLimit fork).OnCourse code :=
  ⟨rfl, rfl, .first, Nat.zero_le _⟩

/-- All of the invariant but the position. -/
def Framed (code : Bytes) (frame : Frame) : Prop :=
  frame.code = code ∧ frame.jumpDests = .analyze code ∧ frame.stack.length ≤ Stack.limit

omit [Host η] in
theorem framed_steady (code : Bytes) : Frame.Steady (Framed code) where
  stack hlength h := ⟨h.1, h.2.1, by
    have := h.2.2
    simp only
    omega⟩
  memory _ h := h
  returnData _ h := h
  remaining _ h := h

/-- **A frame stays on course**, whatever its instruction and however it ends. -/
theorem onCourse_tick (h : x.frame.OnCourse code) : (tick x).2.frame.OnCourse code := by
  have hframed : Framed code (tick x).2.frame :=
    tick_keeps (framed_steady code) (fun _ h => h) (fun _ _ _ _ _ h => h) (fun _ _ _ _ _ h => h)
      ⟨h.sameCode, h.analyzed, h.height⟩
  refine ⟨hframed.1, hframed.2.1, ?_, hframed.2.2⟩
  rcases tick_position x with hpc | ⟨op, hop, hpc⟩ | hvalid
  · rw [hpc]
    exact h.start
  · obtain ⟨hlt, himmediates, _⟩ := Frame.immediates_of_opcode? hop
    have hcode := h.sameCode
    have hstart := h.start
    subst hcode
    rw [hpc, ← himmediates]
    exact .next hlt hstart
  · rw [h.analyzed, JumpDests.isValid_analyze] at hvalid
    exact hvalid.2.2

omit [Host η] in
theorem onCourse_take (result : FrameResult) (h : x.frame.OnCourse code) :
    (take result x).2.frame.OnCourse code := by
  -- taking an outcome moves no frame
  have hsteady : Frame.Steady (Frame.OnCourse code) :=
    { stack := fun hlength h => ⟨h.sameCode, h.analyzed, h.start, by
        have := h.height
        simp only
        omega⟩
      memory := fun _ h => ⟨h.sameCode, h.analyzed, h.start, h.height⟩
      returnData := fun _ h => ⟨h.sameCode, h.analyzed, h.start, h.height⟩
      remaining := fun _ h => ⟨h.sameCode, h.analyzed, h.start, h.height⟩ }
  exact take_keeps hsteady result (fun _ h => ⟨h.sameCode, h.analyzed, h.start, h.height⟩)
    (fun _ h => ⟨h.sameCode, h.analyzed, h.start, h.height⟩) h

/-! ## Runs -/

/-- What can happen to a frame and its host next: the frame carries out an
    instruction, it is told an outcome, or the host becomes another one while
    the frame waits. -/
inductive Passes : Exec η → Exec η → Prop where
  | tick (x : Exec η) : Passes x (tick x).2
  | take (result : FrameResult) (x : Exec η) : Passes x (take result x).2
  | host (x : Exec η) (host : η) : Passes x { x with host }

/-- What can become of a frame and its host, in any surroundings. -/
def ComesTo : Exec η → Exec η → Prop := Relation.ReflTransGen Passes

theorem onCourse_comesTo {y : Exec η} (h : ComesTo x y) (hx : x.frame.OnCourse code) :
    y.frame.OnCourse code := by
  induction h with
  | refl => exact hx
  | tail _ hlast ih =>
    cases hlast with
    | tick => exact onCourse_tick ih
    | take result => exact onCourse_take result ih
    | host => exact ih

theorem RunsOn.comesTo {y : Exec η} (h : RunsOn x y) : ComesTo x y := by
  induction h with
  | refl => exact .refl
  | @tail y z _ hlast ih =>
    have hpasses := Passes.tick y
    rw [tick_next.mpr hlast] at hpasses
    exact ih.tail hpasses

/-- A run is such a course of events. -/
theorem comesTo_run (x : Exec η) : ComesTo x (run x).2 := by
  obtain ⟨y, hruns, htick⟩ := run_stops x
  have hpasses := Passes.tick y
  rw [htick] at hpasses
  exact hruns.comesTo.tail hpasses

/-- So is a run after an outcome. -/
theorem comesTo_resume (result : FrameResult) (x : Exec η) : ComesTo x (resume result x).2 := by
  have hpasses := Passes.take result x
  rw [resume_take]
  rcases h : take result x with ⟨_ | action, y⟩
  · rw [h] at hpasses
    exact .head hpasses (comesTo_run y)
  · rw [h] at hpasses
    exact .single hpasses

/-! ## Jumps -/

/-- The last position that 64 bits hold is past the end of any code. -/
theorem isTarget_capped (hsize : code.size ≤ Word.maxUInt64) (dest : Word) :
    IsTarget code dest.toNatCapped ↔ IsTarget code dest.toNat := by
  by_cases hfits : dest.toNat ≤ Word.maxUInt64
  · rw [Word.toNatCapped, Nat.min_eq_left hfits]
  · rw [Word.toNatCapped, Nat.min_eq_right (by omega)]
    constructor
    · rintro ⟨hlt, _⟩
      omega
    · rintro ⟨hlt, _⟩
      omega

/-- A step that passes all checks carries out its instruction. -/
theorem step_paid {op : Opcode} (hop : x.frame.opcode? = some op)
    (hlow : op.inputs ≤ x.frame.stack.length)
    (hhigh : x.frame.stack.length - op.inputs + op.outputs ≤ Stack.limit)
    (hgas : Gas.static op ≤ x.frame.gas.remaining) :
    step x = execute op x.frame.pc { x with frame := { x.frame with
      gas := { x.frame.gas with remaining := x.frame.gas.remaining - Gas.static op }
      pc := x.frame.pc + 1 } } := by
  obtain ⟨hpc, _, hi⟩ := Frame.immediates_of_opcode? hop
  have hcharge : x.frame.gas.charge? (Gas.static op) =
      some { x.frame.gas with remaining := x.frame.gas.remaining - Gas.static op } :=
    if_neg (Nat.not_lt.mpr hgas)
  unfold step
  simp only [bind_apply, frameGet, id_eq, dif_pos hpc, hi, Instruction.ofOpcode, failWhen,
    decide_eq_true_eq, if_neg (Nat.not_lt.mpr hlow), if_neg (Nat.not_lt.mpr hhigh), pure_apply,
    charge, hcharge]
  rfl

/-- A jump has its operands, and leaves the stack with fewer words. -/
theorem step_jumpsTo {dest : Word} {op : Opcode} (h : x.frame.JumpsTo dest op)
    (hheight : x.frame.stack.length ≤ Stack.limit)
    (hgas : Gas.static op ≤ x.frame.gas.remaining) :
    ∃ y : Exec η, y.frame.jumpDests = x.frame.jumpDests ∧ step x = jumpTo dest y := by
  cases h with
  | @always rest hop hstack =>
    rw [hstack, List.length_cons] at hheight
    rw [step_paid hop (by simp [hstack, Opcode.inputs])
      (by simp [hstack, Opcode.inputs, Opcode.outputs]; omega) hgas]
    refine ⟨{ x with frame := { x.frame with
      gas := { x.frame.gas with remaining := x.frame.gas.remaining - Gas.static .jump }
      pc := x.frame.pc + 1, stack := rest } }, rfl, ?_⟩
    simp only [execute, bind_apply, pop, hstack, Stack.pop]
  | @condition cond rest hop hstack hcond =>
    rw [hstack, List.length_cons, List.length_cons] at hheight
    rw [step_paid hop (by simp [hstack, Opcode.inputs])
      (by simp [hstack, Opcode.inputs, Opcode.outputs]; omega) hgas]
    refine ⟨{ x with frame := { x.frame with
      gas := { x.frame.gas with remaining := x.frame.gas.remaining - Gas.static .jumpi }
      pc := x.frame.pc + 1, stack := rest } }, rfl, ?_⟩
    simp only [execute, bind_apply, pop, hstack, Stack.pop, if_neg hcond]

/-- **What becomes of a jump**: it goes on at its word if that is the position
    of a `JUMPDEST` that is an instruction, and halts if it is not. -/
theorem jump_outcome {dest : Word} {op : Opcode} (hsize : code.size ≤ Word.maxUInt64)
    (hx : x.frame.OnCourse code) (h : x.frame.JumpsTo dest op)
    (hgas : Gas.static op ≤ x.frame.gas.remaining) :
    (IsTarget code dest.toNat ∧ ∃ y, step x = .ok .next y ∧ y.frame.pc = dest.toNat) ∨
      (¬IsTarget code dest.toNat ∧
        ∃ y, step x = .error (.invalidJump dest.toNatCapped) y) := by
  obtain ⟨y, hdests, hstep⟩ := step_jumpsTo h hx.height hgas
  have hvalid : y.frame.jumpDests.isValid dest.toNatCapped = true ↔ IsTarget code dest.toNat := by
    rw [hdests, hx.analyzed, JumpDests.isValid_analyze, isTarget_capped hsize]
  rw [hstep, jumpTo_apply]
  by_cases htarget : IsTarget code dest.toNat
  · rw [if_pos (hvalid.mpr htarget)]
    refine .inl ⟨htarget, _, rfl, ?_⟩
    -- a position in the code is one that 64 bits hold
    have hlt := htarget.1
    simp only [Word.toNatCapped]
    omega
  · rw [if_neg fun h => htarget (hvalid.mp h)]
    exact .inr ⟨htarget, _, rfl⟩

/-- **A frame executes instructions only, and jumps to `JUMPDEST`s only.** In
    all that can become of a frame that starts with the jump destinations of
    its code, it stands at an instruction start, which is never push data; so
    it does when it is run from there, and when it is told an outcome and runs
    on. A jump that is paid for succeeds if and only if it goes to the
    position of a `JUMPDEST` that is an instruction start. -/
theorem stands_at_instruction_start {context : FrameContext} {gasLimit : Nat} {fork : Hardfork}
    {host : η} (hsize : code.size ≤ Word.maxUInt64)
    (hx : ComesTo ⟨Frame.start code (.analyze code) context gasLimit fork, host⟩ x) :
    x.frame.AtInstruction code ∧ (run x).2.frame.AtInstruction code ∧
      (∀ result, (resume result x).2.frame.AtInstruction code) ∧
      ∀ dest op, x.frame.JumpsTo dest op → Gas.static op ≤ x.frame.gas.remaining →
        (IsTarget code dest.toNat ∧ ∃ y, step x = .ok .next y ∧ y.frame.pc = dest.toNat) ∨
          (¬IsTarget code dest.toNat ∧
            ∃ y, step x = .error (.invalidJump dest.toNatCapped) y) := by
  have hcourse {y : Exec η} (hy : ComesTo x y) : y.frame.OnCourse code :=
    onCourse_comesTo (hx.trans hy) (onCourse_start code context gasLimit fork)
  refine ⟨(hcourse .refl).atInstruction, (hcourse (comesTo_run x)).atInstruction,
    fun result => (hcourse (comesTo_resume result x)).atInstruction, ?_⟩
  exact fun dest op hjumps hgas => jump_outcome hsize (hcourse .refl) hjumps hgas

/-- Code that pushes 4, jumps, and would push `0x5b`: position 4 holds the byte of
    a `JUMPDEST`, but as push data, so that the jump halts, and the run of the
    frame ends behind the jump. -/
theorem stands_at_instruction_start_misled :
    let code : Bytes := ⟨#[0x60, 4, 0x56, 0x60, 0x5b]⟩
    let host : Engine Database := .new .empty .default (.ofHardfork .cancun)
    let start : Exec (Engine Database) :=
      ⟨.start code (.analyze code) ⟨.zero, .zero, 0, ByteArray.empty, false, 0⟩ 100 .cancun, host⟩
    ∃ x, ComesTo start x ∧ x.frame.pc = 2 ∧ x.frame.JumpsTo 4 .jump ∧
      Bytes.byteAt code 4 = 0x5b ∧ ¬IsPushData code 2 ∧
      (∃ y, step x = .error (.invalidJump 4) y) ∧
      (run x).2.frame.pc = 3 ∧ ¬IsPushData code 3 := by
  intro code host start
  have hpushed : ComesTo start (tick start).2 := .single (.tick start)
  have hpc : (tick start).2.frame.pc = 2 := by decide +kernel
  have hop : (tick start).2.frame.opcode? = some .jump := by decide +kernel
  have hstack : (tick start).2.frame.stack = [4] := by decide +kernel
  have hgas : Gas.static .jump ≤ (tick start).2.frame.gas.remaining := by decide +kernel
  have hend : (run (tick start).2).2.frame.pc = 3 := by decide +kernel
  obtain ⟨⟨_, hdata⟩, ⟨_, hdata'⟩, _, houtcome⟩ := stands_at_instruction_start (by decide) hpushed
  rw [hpc] at hdata
  rw [hend] at hdata'
  refine ⟨_, hpushed, hpc, .always hop hstack, by decide, hdata, ?_, hend, hdata'⟩
  rcases houtcome 4 .jump (.always hop hstack) hgas with ⟨htarget, _⟩ | ⟨_, hhalts⟩
  · rw [← JumpDests.isValid_analyze] at htarget
    exact absurd htarget (by decide +kernel)
  · exact hhalts

end Exec

end Evm
