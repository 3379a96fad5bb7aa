import Evm.Proofs.EndState
import Evm.Frame.Basic

/-! # Small steps as equations

    What a small step comes to once it is known what it finds: a word on the
    stack or room for one, enough gas or too little. With these equations an
    instruction is carried out step by step on a frame whose operands are known.
-/

namespace Evm.Exec

variable {η : Type}

/-- With another stack. -/
def withStack (x : Exec η) (stack : Stack) : Exec η := { x with frame := { x.frame with stack } }

/-- The same frame over another memory. -/
def withMemory (memory : Memory) (x : Exec η) : Exec η :=
  { x with frame := { x.frame with memory } }

/-- At another position. -/
def withPosition (x : Exec η) (pc : Nat) : Exec η := { x with frame := { x.frame with pc } }

/-- With an amount of gas paid. -/
def spend (x : Exec η) (amount : Nat) : Exec η :=
  { x with frame := { x.frame with
    gas := { x.frame.gas with remaining := x.frame.gas.remaining - amount } } }

variable (x : Exec η) (stack : Stack) (amount : Nat)

@[simp] theorem withStack_stack : (x.withStack stack).frame.stack = stack := rfl

@[simp] theorem withStack_gas : (x.withStack stack).frame.gas = x.frame.gas := rfl

@[simp] theorem withStack_withStack (stack' : Stack) :
    (x.withStack stack).withStack stack' = x.withStack stack' := rfl

@[simp] theorem withStack_returnData :
    (x.withStack stack).frame.returnData = x.frame.returnData := rfl

@[simp] theorem withMemory_stack (memory : Memory) :
    (x.withMemory memory).frame.stack = x.frame.stack := rfl

@[simp] theorem withMemory_memory (memory : Memory) :
    (x.withMemory memory).frame.memory = memory := rfl

@[simp] theorem withMemory_gas (memory : Memory) :
    (x.withMemory memory).frame.gas = x.frame.gas := rfl

@[simp] theorem withMemory_context (memory : Memory) :
    (x.withMemory memory).frame.context = x.frame.context := rfl

@[simp] theorem withMemory_host (memory : Memory) : (x.withMemory memory).host = x.host := rfl

@[simp] theorem spend_context : (x.spend amount).frame.context = x.frame.context := rfl

@[simp] theorem spend_host : (x.spend amount).host = x.host := rfl

@[simp] theorem spend_remaining :
    (x.spend amount).frame.gas.remaining = x.frame.gas.remaining - amount := rfl

@[simp] theorem spend_stack : (x.spend amount).frame.stack = x.frame.stack := rfl

variable {x}

theorem modifyPosition_apply (f : Frame → Nat) :
    modifyFrame (fun frame => { frame with pc := f frame }) x =
      .ok ⟨⟩ (x.withPosition (f x.frame)) := rfl

theorem pop_cons {w : Word} {rest : Stack} (h : x.frame.stack = w :: rest) :
    pop x = .ok w (x.withStack rest) := by
  rw [pop, h]
  rfl

/-- Three operands at once. -/
theorem pop_three {α : Type} {next : Word → Word → Word → StepM η α} {a b c : Word}
    {rest : Stack} (h : x.frame.stack = a :: b :: c :: rest) :
    (do let a ← pop; let b ← pop; let c ← pop; next a b c : StepM η α) x =
      next a b c (x.withStack rest) := by
  rw [bind_apply, pop_cons h]
  simp only
  rw [bind_apply, pop_cons (withStack_stack _ _)]
  simp only
  rw [bind_apply, pop_cons (withStack_stack _ _)]
  rfl

theorem push_room (w : Word) (h : x.frame.stack.length < Stack.limit) :
    push w x = .ok ⟨⟩ (x.withStack (w :: x.frame.stack)) := by
  rw [push, Stack.push, if_neg (Nat.not_le.mpr h)]
  rfl

theorem charge_apply :
    charge amount x =
      if x.frame.gas.remaining < amount then .error .outOfGas x else .ok ⟨⟩ (x.spend amount) := by
  rw [charge, Gas.charge?]
  by_cases h : x.frame.gas.remaining < amount
  · rw [if_pos h, if_pos h]
  · rw [if_neg h, if_neg h]
    rfl

theorem chargeCold_apply (isCold : Bool) :
    chargeCold isCold x = charge (if isCold then 2500 else 0) x := by
  cases isCold
  · rw [charge_apply, if_neg Bool.false_ne_true, if_neg (Nat.not_lt_zero _)]
    rfl
  · rfl

theorem failWhen_apply (condition : Bool) (e : EvmError) :
    failWhen condition e x = if condition then .error e x else .ok ⟨⟩ x := by
  cases condition <;> rfl

theorem onHost_of_ok {α : Type} {op : HostM η α} {a : α} {host : η}
    (h : op x.host = .ok a host) : onHost op x = .ok a { x with host } := by
  simp only [onHost, h]

end Evm.Exec
