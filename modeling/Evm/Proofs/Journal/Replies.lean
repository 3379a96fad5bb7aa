import Evm.Proofs.Journal.Nesting
import Evm.State.Settlement

/-! # Programs on the state and their replies

    What is seen of a state from outside is what its operations give back. A
    program is a list of steps: operations, checkpoints that are taken and
    released, and transactions that are settled or discarded. Running it gives
    the replies to its steps, failures among them, and leaves a state.

    A session is a program with looks in between, which are reads whose replies
    nobody waits for.
-/

namespace Evm.Journal

variable {β : Type}

/-! ## Replies -/

/-- What comes back from a step that succeeds. -/
inductive Reply where
  | done
  | flag (value : Bool)
  | word (value : Word)
  | count (value : Nat)
  | account (value : Account)
  | slot (value : SlotValue)
  | code (value : Bytes) (hash : Hash)
  | hash (value : Hash)
  | logs (value : List Log)
  | checkpoint (value : Checkpoint)
  deriving DecidableEq

/-- A reply, or the reason for a failure. -/
abbrev Answer := Except StateError Reply

/-- What a result gives back, be it a success or a failure. -/
def answer {ε σ α : Type} : EStateM.Result ε σ α → Except ε α
  | .ok a _ => .ok a
  | .error e _ => .error e

/-! ## Operations -/

variable [Backend β]

/-- Carry out an operation and reply. -/
def Operation.perform : Operation → JournalM β Reply
  | .account a => do return .account (← Journal.account a)
  | .isPresent a => do return .flag (← Journal.isPresent a)
  | .isEmpty a => do return .flag (← Journal.isEmpty a)
  | .balance a => do return .word (← Journal.balance a)
  | .nonce a => do return .count (← Journal.nonce a)
  | .code a => do
    let found ← Journal.code a
    return .code found.1 found.2
  | .storage s => do return .word (← Journal.storage s)
  | .slot s => do return .slot (← Journal.slot s)
  | .blockHash number => do return .hash (← Journal.blockHash number)
  | .tload s => do return .word ((← get).tload s)
  | .isWarmAddress a => do return .flag ((← get).isWarmAddress a)
  | .isWarmSlot s => do return .flag ((← get).isWarmSlot s)
  | .isCreated a => do return .flag ((← get).isCreated a)
  | .isDestroyed a => do return .flag ((← get).isDestroyed a)
  | .emitted => do return .logs (← get).emitted
  | .setBalance a value => do
    Journal.setBalance a value
    return .done
  | .addBalance a amount => do
    Journal.addBalance a amount
    return .done
  | .subBalance a amount => do
    Journal.subBalance a amount
    return .done
  | .transfer source target amount => do
    Journal.transfer source target amount
    return .done
  | .setNonce a value => do
    Journal.setNonce a value
    return .done
  | .incrementNonce a => do return .count (← Journal.incrementNonce a)
  | .setCode a value => do return .hash (← Journal.setCode a value)
  | .setStorage s value => do return .word (← Journal.setStorage s value)
  | .tstore s value => do
    modify (·.tstore s value)
    return .done
  | .warmAddress a => do return .flag (← modifyGet (·.warmAddress a))
  | .warmSlot s => do return .flag (← modifyGet (·.warmSlot s))
  | .addLog log => do
    modify (·.addLog log)
    return .done
  | .markCreated a => do
    modify (·.markCreated a)
    return .done
  | .markDestroyed a => do
    modify (·.markDestroyed a)
    return .done

omit [Backend β] in
/-- What is made of a result does nothing to the state. -/
theorem endState_reply {α γ : Type} (op : JournalM β α) (f : α → γ) (j : Journal β) :
    endState ((op >>= fun a => pure (f a)) j) = endState (op j) := by
  rw [bind_apply]
  cases op j <;> rfl

/-- Replying does nothing to the state. -/
theorem Operation.endState_perform (op : Operation) (j : Journal β) :
    endState (op.perform j) = op.run j := by
  cases op with
  | account a => exact endState_reply (Journal.account a) _ j
  | isPresent a => exact endState_reply (Journal.isPresent a) _ j
  | isEmpty a => exact endState_reply (Journal.isEmpty a) _ j
  | balance a => exact endState_reply (Journal.balance a) _ j
  | nonce a => exact endState_reply (Journal.nonce a) _ j
  | code a => exact endState_reply (Journal.code a) _ j
  | storage s => exact endState_reply (Journal.storage s) _ j
  | slot s => exact endState_reply (Journal.slot s) _ j
  | blockHash number => exact endState_reply (Journal.blockHash number) _ j
  | setBalance a balance => exact endState_reply (Journal.setBalance a balance) _ j
  | addBalance a amount => exact endState_reply (Journal.addBalance a amount) _ j
  | subBalance a amount => exact endState_reply (Journal.subBalance a amount) _ j
  | transfer source target amount =>
    exact endState_reply (Journal.transfer source target amount) _ j
  | setNonce a nonce => exact endState_reply (Journal.setNonce a nonce) _ j
  | incrementNonce a => exact endState_reply (Journal.incrementNonce a) _ j
  | setCode a code => exact endState_reply (Journal.setCode a code) _ j
  | setStorage s value => exact endState_reply (Journal.setStorage s value) _ j
  | _ => rfl

/-! ## Programs -/

/-- One step of a program. -/
inductive Step where
  | operation (op : Operation)
  | snapshot
  | commit (c : Checkpoint)
  | revert (c : Checkpoint)
  /-- Write what the transaction changed and end it. -/
  | settle
  /-- Undo what the transaction changed and end it. -/
  | discard

/-- Carry out a step and reply. -/
def Step.perform : Step → JournalM β Reply
  | .operation op => op.perform
  | .snapshot => do return .checkpoint (← get).checkpoint
  -- what was done since the checkpoint is kept by keeping its entries
  | .commit _ => return .done
  | .revert c => do
    modify (·.revert c)
    return .done
  | .settle => do return .logs (← Journal.settle)
  | .discard => do return .logs (← modifyGet Journal.discard)

/-- Run a program: the answers to its steps, and the state in the end. A step
    that fails does not stop it. -/
def runSteps : List Step → Journal β → List Answer × Journal β
  | [], j => ([], j)
  | step :: steps, j =>
    let result := step.perform j
    let (answers, last) := runSteps steps (endState result)
    (answer result :: answers, last)

/-! ## Looks -/

/-- A read of an account or slot. -/
inductive Look where
  | account (a : Address)
  | isPresent (a : Address)
  | isEmpty (a : Address)
  | balance (a : Address)
  | nonce (a : Address)
  | storage (s : Slot)
  | slot (s : Slot)

/-- The operation by which one looks. -/
def Look.operation : Look → Operation
  | .account a => .account a
  | .isPresent a => .isPresent a
  | .isEmpty a => .isEmpty a
  | .balance a => .balance a
  | .nonce a => .nonce a
  | .storage s => .storage s
  | .slot s => .slot s

/-- What a look loads into the cache. -/
def Look.target : Look → Address ⊕ Slot
  | .account a | .isPresent a | .isEmpty a | .balance a | .nonce a => .inl a
  | .storage s | .slot s => .inr s

/-- Load an account or a slot. -/
def load : Address ⊕ Slot → Journal β → Journal β
  | .inl a, j => endState (loadAccount a j)
  | .inr s, j => endState (loadSlot s j)

/-- **Looking is loading**, whatever one looks for. -/
theorem Look.run_operation (look : Look) (j : Journal β) :
    look.operation.run j = load look.target j := by
  have haccount : ∀ a : Address,
      endState (Journal.account a j) = endState (loadAccount a j) :=
    fun a => endState_reply (loadAccount a) (fun cached => cached.present.getD .empty) j
  cases look with
  | account a => exact haccount a
  | isPresent a => exact endState_reply (loadAccount a) (fun cached => cached.present.isSome) j
  | isEmpty a => exact (endState_reply (Journal.account a) Account.isEmpty j).trans (haccount a)
  | balance a => exact (endState_reply (Journal.account a) Account.balance j).trans (haccount a)
  | nonce a => exact (endState_reply (Journal.account a) Account.nonce j).trans (haccount a)
  | storage s => exact endState_reply (loadSlot s) SlotValue.present j
  | slot s => rfl

/-! ## Sessions -/

/-- A step of a program, or a look in between. -/
inductive Turn where
  | step (step : Step)
  | look (look : Look)

/-- The step that a turn is. -/
def Turn.step? : Turn → Option Step
  | .step next => some next
  | .look _ => none

/-- Run a session: the answers to the steps of its program, and the state in the
    end. -/
def runTurns : List Turn → Journal β → List Answer × Journal β
  | [], j => ([], j)
  | .step next :: turns, j =>
    let result := next.perform j
    let (answers, last) := runTurns turns (endState result)
    (answer result :: answers, last)
  | .look read :: turns, j => runTurns turns (read.operation.run j)

end Evm.Journal
