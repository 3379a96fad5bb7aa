import Evm.Proofs.Engine.Tick
import Evm.Proofs.Frame.Heights
import Evm.State.Database

/-! # Operands of the frames of a machine

    A host may answer whatever it likes. The engine fails only over the state,
    and a failure of the state is no fault of a stack. So in the frames of a
    machine the table decides alone: a stack that passes its check never is
    too low or too full for the instruction (`operands_always_fit`).
-/

namespace Evm

/-- No failure of the state is a fault of a stack. -/
theorem EvmError.not_isStackFault_ofStateError (cause : StateError) :
    ¬(ofStateError cause).IsStackFault := by
  cases cause <;> exact not_false

namespace Engine

variable {β α γ : Type}

/-! ## What the engine answers -/

/-- The engine does not fail so with a fault of a stack. -/
def Faultless (op : HostM (Engine β) α) : Prop :=
  ∀ e err e', op e = .error err e' → ¬err.IsStackFault

namespace Faultless

/-- An operation that does not fail. -/
theorem of_total {op : HostM (Engine β) α} (h : ∀ e, ∃ a e', op e = .ok a e') : Faultless op := by
  intro e err e' herror
  obtain ⟨a, later, hok⟩ := h e
  rw [hok] at herror
  cases herror

protected theorem pure (a : α) : Faultless (pure a : HostM (Engine β) α) :=
  of_total fun e => ⟨a, e, rfl⟩

protected theorem get : Faultless (get : HostM (Engine β) (Engine β)) :=
  of_total fun e => ⟨e, e, rfl⟩

theorem modify (f : Engine β → Engine β) : Faultless (modify f : HostM (Engine β) PUnit) :=
  of_total fun e => ⟨⟨⟩, f e, rfl⟩

theorem touch (a : Address) : Faultless (touch a : HostM (Engine β) Bool) :=
  of_total fun _ => ⟨_, _, rfl⟩

theorem touchSlot (s : Slot) : Faultless (touchSlot s : HostM (Engine β) Bool) :=
  of_total fun _ => ⟨_, _, rfl⟩

theorem bind {op : HostM (Engine β) α} {next : α → HostM (Engine β) γ} (hop : Faultless op)
    (hnext : ∀ a, Faultless (next a)) : Faultless (op >>= next) := by
  intro e err e' h
  rw [bind_apply] at h
  cases hfirst : op e with
  | error err' later =>
    rw [hfirst] at h
    cases h
    exact hop _ _ _ hfirst
  | ok a later =>
    rw [hfirst] at h
    exact hnext a _ _ _ h

theorem ite {p : Prop} [Decidable p] {op op' : HostM (Engine β) α} (hthen : Faultless op)
    (helse : Faultless op') : Faultless (if p then op else op') := by
  by_cases h : p
  · rw [if_pos h]
    exact hthen
  · rw [if_neg h]
    exact helse

theorem onState (op : JournalM β α) : Faultless (onState op) := by
  intro e err e' h
  unfold Engine.onState at h
  split at h <;> cases h
  exact EvmError.not_isStackFault_ofStateError _

theorem forget {op : HostM (Engine β) α} (hop : Faultless op) : Faultless (Functor.discard op) := by
  intro e err e' h
  cases hfirst : op e with
  | ok a later =>
    rw [discard_ok hfirst] at h
    cases h
  | error err' later =>
    rw [discard_error hfirst] at h
    cases h
    exact hop _ _ _ hfirst

variable [Backend β]

theorem recentBlockHash (number : Word) :
    Faultless (recentBlockHash number : HostM (Engine β) Hash) :=
  Faultless.get.bind fun _ => .ite (.pure _) (onState _)

theorem destroy (address target : Address) :
    Faultless (destroy address target : HostM (Engine β) DestructOutcome) := by
  refine (touch _).bind fun _ => (onState _).bind fun _ => (onState _).bind fun _ => ?_
  refine Faultless.get.bind fun _ => (ite (onState _) (.pure _)).bind fun _ => ?_
  refine Faultless.bind (Faultless.get.bind fun _ => .ite ?_ (.pure _)) fun _ => .pure _
  exact (onState _).bind fun _ => modify _

end Faultless

/-- No use of the engine is answered with a fault of a stack. -/
theorem use_faultless [Backend β] (use : HostUse) :
    Faultless (use.perform : HostM (Engine β) PUnit) := by
  cases use with
  | loadAccount a => exact .forget ((Faultless.touch _).bind fun _ =>
      (Faultless.onState _).bind fun _ => .pure _)
  | balance a => exact .forget ((Faultless.touch _).bind fun _ =>
      (Faultless.onState _).bind fun _ => .pure _)
  | code a => exact .forget ((Faultless.touch _).bind fun _ =>
      (Faultless.onState _).bind fun _ => .pure _)
  | codeHash a => exact .forget ((Faultless.touch _).bind fun _ =>
      (Faultless.onState _).bind fun _ => .ite (.pure _)
        ((Faultless.onState _).bind fun _ => .pure _))
  | blockHash number => exact .forget (.recentBlockHash number)
  | sload s => exact .forget ((Faultless.touchSlot _).bind fun _ =>
      (Faultless.onState _).bind fun _ => .pure _)
  | sstore s value => exact .forget ((Faultless.touchSlot _).bind fun _ =>
      (Faultless.onState _).bind fun _ => (Faultless.onState _).bind fun _ => .pure _)
  | tload s => exact .forget (Faultless.get.bind fun _ => .pure _)
  | tstore s value => exact .forget (.modify _)
  | log entry => exact .forget (.modify _)
  | selfDestruct address target => exact .forget (.destroy address target)

end Engine

/-! ## All frames -/

open Exec in
/-- **Operands always fit.** In a frame whose stack passes the check of the
    table, on any host and under any rules, the instruction does not fail for
    the stack of its own accord, and on the engine it does not at all. If the
    frame goes on, its operands are replaced by the results and nothing below
    them is touched; if it asks for something, the operands are taken and any
    answer puts one word, without failing. So no stack grows above its limit,
    and a frame that was run until it asked for something takes the answer and
    is run on. -/
theorem operands_always_fit :
    (∀ (η : Type) [Host η] (x : Exec η) (instruction : Instruction),
      x.frame.Admits instruction → Fits instruction x) ∧
    (∀ (β : Type) [Backend β] (x y : Exec (Engine β)) (instruction : Instruction) (e : EvmError),
      x.frame.Admits instruction → step x = .error e y → ¬e.IsStackFault) ∧
    (∀ (η : Type) [Host η] (start frame : Frame), start.stack.length ≤ Stack.limit →
      Frame.ComesTo η start frame → frame.stack.length ≤ Stack.limit) ∧
    (∀ (η : Type) [Host η] (x y : Exec η) (request : Request), run x = (request.action, y) →
      ∀ (result : FrameResult) (host : η), ∃ (w : Word) (z : Exec η),
        deliver result ⟨y.frame, host⟩ = .ok ⟨⟩ z ∧ z.frame.stack = w :: y.frame.stack ∧
          resume result ⟨y.frame, host⟩ = run z) := by
  refine ⟨fun η _ x instruction => step_fits, ?_,
    fun η _ start frame hstart h => h.limited hstart, ?_⟩
  · intro β _ x y instruction e hadmits hstep hfault
    obtain ⟨use, host, hanswer⟩ := (step_fits hadmits).faultless hstep hfault
    exact Engine.use_faultless use _ _ _ hanswer hfault
  · intro η _ x y request hrun result host
    obtain ⟨z, _, htick⟩ := run_stops x
    rw [hrun] at htick
    obtain ⟨w, later, hdeliver, hstack⟩ := tick_takesAnswers htick result host
    refine ⟨w, later, hdeliver, hstack, ?_⟩
    unfold resume
    rw [hdeliver]

/-- Whether an operation has failed. -/
def hasFailed {ε σ α : Type} : EStateM.Result ε σ α → Bool
  | .error _ _ => true
  | .ok _ _ => false

open Exec in
/-- An addition and a call on a stack of eight words: the addition leaves seven,
    the call takes all of them, and any answer is the only word. With too little
    gas the addition fails, but not for the stack. -/
theorem operands_fit_before_call :
    let code : Bytes := ⟨#[0x01, 0xf1]⟩
    let host : Engine Database := .new .empty .default (.ofHardfork .cancun)
    let context : FrameContext := ⟨.zero, .zero, 0, ByteArray.empty, false, 0⟩
    let start (gas : Nat) : Exec (Engine Database) :=
      ⟨{ Frame.start code (.analyze code) context gas .cancun with stack := List.replicate 8 0 },
        host⟩
    Fits (.ofOpcode (.binary .add)) (start 5000) ∧
      (∃ e y, step (start 2) = .error e y ∧ ¬e.IsStackFault) ∧
      (tick (start 5000)).2.frame.stack.length ≤ Stack.limit ∧
      ∃ (request : Request) (y : Exec (Engine Database)),
        run (start 5000) = (request.action, y) ∧
          ∀ result, ∃ w z, deliver result y = .ok ⟨⟩ z ∧ z.frame.stack = [w] := by
  intro code host context start
  have hadmits (gas : Nat) : (start gas).frame.Admits (.ofOpcode (.binary .add)) := by
    refine ⟨Nat.zero_lt_two, ?_, by simp [start, Instruction.ofOpcode, Opcode.inputs], ?_⟩
    · rw [Hardfork.instruction?_eq_decode?]
      rfl
    · simp [start, Instruction.ofOpcode, Opcode.inputs, Opcode.outputs, Stack.limit]
  have hpoor : hasFailed (step (start 2)) = true := by decide +kernel
  have hcalls : (run (start 5000)).1.isCall = true := by decide +kernel
  have hempty : (run (start 5000)).2.frame.stack = [] := by decide +kernel
  refine ⟨operands_always_fit.1 _ _ _ (hadmits 5000), ?_, ?_, ?_⟩
  · cases hstep : step (start 2) with
    | ok s y =>
      rw [hstep] at hpoor
      cases hpoor
    | error e y => exact ⟨e, y, rfl, operands_always_fit.2.1 _ _ y _ e (hadmits 2) hstep⟩
  · have hstart : (start 5000).frame.stack.length ≤ Stack.limit := by decide +kernel
    have hcomes : Frame.ComesTo (Engine Database) (start 5000).frame
        (tick (start 5000)).2.frame :=
      .tick (start 5000) .start
    exact operands_always_fit.2.2.1 (Engine Database) _ _ hstart hcomes
  · obtain ⟨⟨action, y⟩, hrun⟩ : ∃ stopped, run (start 5000) = stopped := ⟨_, rfl⟩
    rw [hrun] at hcalls hempty
    rcases action.request_or_finished with ⟨request, rfl⟩ | ⟨ending, rfl⟩
    · refine ⟨request, y, hrun, fun result => ?_⟩
      obtain ⟨w, z, hdeliver, hstack, _⟩ :=
        operands_always_fit.2.2.2 _ _ _ _ hrun result y.host
      exact ⟨w, z, hdeliver, by rw [hstack, hempty]⟩
    · cases hcalls

end Evm
