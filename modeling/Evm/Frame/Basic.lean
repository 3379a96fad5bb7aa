import Evm.Host
import Evm.JumpDests
import Evm.Memory
import Evm.Outcome
import Evm.Stack

/-!
# Frames

    One frame runs one piece of code. Its state is what the code can see and
    change by itself: a position, a stack, a memory, a gas meter, and the
    data that its last call returned. A frame that asks for a call or a
    creation waits until it is told the outcome.

    The small steps that all instructions are made of are here: taking and
    putting words, paying gas, growing memory, asking the host. Each of them
    either succeeds or fails with the frame as it is at that point, so words
    that were taken before a failure stay taken.
-/

namespace Evm

/-! ## State -/

/-- What a waiting frame does with the outcome. -/
inductive Pending where
  /-- Copy the output of a call to this range of memory. -/
  | call (outOffset outLen : Nat)
  /-- Take the address of a new contract. -/
  | create
  deriving DecidableEq

/-- The state of a frame. -/
structure Frame where
  code : Bytes
  jumpDests : JumpDests
  /-- The position of the next instruction. -/
  pc : Nat
  stack : Stack
  memory : Memory
  gas : Gas
  /-- The data that the last call or creation returned. -/
  returnData : Bytes
  context : FrameContext
  /-- What the frame waits for, if it does. -/
  waiting : Option Pending
  hardfork : Hardfork

/-- A frame about to run its first instruction. -/
def Frame.start (code : Bytes) (jumpDests : JumpDests) (context : FrameContext) (gasLimit : Nat)
    (hardfork : Hardfork) : Frame where
  code
  jumpDests
  pc := 0
  stack := []
  memory := .empty
  gas := .full gasLimit
  returnData := ByteArray.empty
  context
  waiting := none
  hardfork

/-- A running frame together with its host. -/
structure Exec (η : Type) where
  frame : Frame
  host : η

/-- Steps of a running frame. -/
abbrev StepM (η : Type) := EStateM EvmError (Exec η)

namespace Exec

variable {η : Type}

/-! ## Stack -/

/-- Take the top word. -/
def pop : StepM η Word := fun x =>
  match x.frame.stack.pop with
  | .ok (w, stack) => .ok w { x with frame := { x.frame with stack } }
  | .error e => .error e x

/-- Put a word on top. -/
def push (w : Word) : StepM η Unit := fun x =>
  match x.frame.stack.push w with
  | .ok stack => .ok () { x with frame := { x.frame with stack } }
  | .error e => .error e x

/-- Put a copy of the `n`-th word from the top on top. -/
def dup (n : Nat) : StepM η Unit := fun x =>
  match x.frame.stack.dup n with
  | .ok stack => .ok () { x with frame := { x.frame with stack } }
  | .error e => .error e x

/-- Exchange the top word with the one at depth `n`. -/
def swap (n : Nat) : StepM η Unit := fun x =>
  match x.frame.stack.swap n with
  | .ok stack => .ok () { x with frame := { x.frame with stack } }
  | .error e => .error e x

/-- Take `n` words, top word first. -/
def popList : Nat → StepM η (List Word)
  | 0 => return []
  | n + 1 => do
    let w ← pop
    let rest ← popList n
    return w :: rest

/-! ## Gas -/

/-- Pay an amount of gas. -/
def charge (amount : Nat) : StepM η Unit := fun x =>
  match x.frame.gas.charge? amount with
  | some gas => .ok () { x with frame := { x.frame with gas } }
  | none => .error .outOfGas x

/-- Move the refund counter. -/
def refund (amount : Int) : StepM η Unit :=
  modify fun x => { x with frame := { x.frame with gas := x.frame.gas.refund amount } }

/-- Pay an amount of gas under a condition. -/
def chargeWhen (condition : Bool) (amount : Nat) : StepM η Unit :=
  if condition then charge amount else return

/-- Pay for the first access to an account; the rest was paid already. -/
def chargeCold (isCold : Bool) : StepM η Unit :=
  chargeWhen isCold (Gas.coldAccountAccess - Gas.warmAccess)

/-! ## Frame and host -/

/-- Change the frame. -/
def modifyFrame (f : Frame → Frame) : StepM η Unit :=
  modify fun x => { x with frame := f x.frame }

/-- Change the memory. -/
def modifyMemory (f : Memory → Memory) : StepM η Unit := fun x =>
  let ⟨frame, host⟩ := x
  let memory := frame.memory
  let frame := { frame with memory := .empty }
  .ok () ⟨{ frame with memory := f memory }, host⟩

/-- A fact about the frame. -/
def frameGet {α : Type} (f : Frame → α) : StepM η α := fun x => .ok (f x.frame) x

/-- A fact about the host. -/
def hostGet {α : Type} (f : η → α) : StepM η α := fun x => .ok (f x.host) x

/-- Have the host do something. -/
def onHost {α : Type} (op : HostM η α) : StepM η α := fun x =>
  let ⟨frame, host⟩ := x
  match op host with
  | .ok a host => .ok a ⟨frame, host⟩
  | .error e host => .error e ⟨frame, host⟩

/-- Set gas aside for a child frame: what is requested, but no more than all
    but one 64th of what is left. -/
def setAside (requested : Nat) : StepM η Nat := do
  let available ← frameGet (·.gas.remaining)
  let forwarded := min requested (Gas.forwardable available)
  charge forwarded
  return forwarded

/-- Fail under a condition. -/
def failWhen (condition : Bool) (e : EvmError) : StepM η Unit :=
  if condition then throw e else return

/-- Fail in a frame that may not write. -/
def requireWritable : StepM η Unit := do
  failWhen (← frameGet (·.context.isStatic)) .staticCallViolation

/-! ## Memory -/

/-- A word as a memory index. -/
def toIndex (w : Word) : StepM η Nat :=
  match w.toIndex? with
  | some n => return n
  | none => throw .outOfGas

/-- **Memory for a range**: pay for the growth that it takes and grow. The
    range comes back in numbers. An empty range may lie anywhere, takes
    nothing, and comes back as the empty range at zero. -/
def resizeMemory (offset len : Word) : StepM η (Nat × Nat) := do
  if len = 0 then
    return (0, 0)
  let offset ← toIndex offset
  let len ← toIndex len
  let current ← frameGet (·.memory.words)
  let wanted := Gas.words (offset + len)
  if current < wanted then
    charge (Gas.memoryExpansion current wanted)
    modifyMemory (·.resize offset len)
  return (offset, len)

/-- The bytes of a range that memory covers. -/
def readMemory (offset len : Nat) : StepM η Bytes :=
  frameGet fun frame => frame.memory.slice offset len

end Exec

end Evm
