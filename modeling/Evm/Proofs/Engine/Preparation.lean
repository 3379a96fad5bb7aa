import Evm.Engine.Transaction
import Evm.Proofs.Engine.Tick

/-! # Before the first frame

    What a transaction does before its first frame: it marks what it is known
    to access, and where the envelope is charged it counts up the nonce of a
    sender who calls. Then it is one request, whose outcome is settled.
-/

namespace Evm

/-- What a transaction asks for, with the gas that its envelope leaves. -/
def Transaction.request (tx : Transaction) (gasLimit : Nat) : Request :=
  match tx.kind with
  | .call callee => .call (Engine.messageOfCall tx .call callee gasLimit)
  | .staticCall callee => .call (Engine.messageOfCall tx .staticCall callee gasLimit)
  | .delegateCall callee => .call (Engine.messageOfCall tx .delegateCall callee gasLimit)
  | .create => .create (Engine.messageOfCreate tx .create gasLimit)
  | .create2 salt => .create (Engine.messageOfCreate tx (.create2 salt) gasLimit)

theorem Transaction.request_gasLimit (tx : Transaction) (gasLimit : Nat) :
    (tx.request gasLimit).gasLimit = gasLimit := by
  unfold Transaction.request
  cases tx.kind <;> rfl

namespace Engine

variable {β γ : Type}

/-! ## Accesses -/

/-- Two states stay related when a transaction marks what it is known to
    access, if every access of an address or slot leaves them related. -/
theorem warmTransaction_related {R : Journal β → Journal γ → Prop} {e : Engine β} {f : Engine γ}
    (haddress : ∀ a j k, R j k → R (j.warmAddress a).2 (k.warmAddress a).2)
    (hslot : ∀ s j k, R j k → R (j.warmSlot s).2 (k.warmSlot s).2) (henv : e.env = f.env)
    (hconfig : e.config = f.config) (hprecompiles : e.precompiles = f.precompiles)
    (h : R e.journal f.journal) (tx : Transaction) :
    R (warmTransaction tx e).journal (warmTransaction tx f).journal := by
  have haddresses : ∀ (addresses : List Address) (j : Journal β) (k : Journal γ), R j k →
      R (addresses.foldl (fun j a => (j.warmAddress a).2) j)
        (addresses.foldl (fun k a => (k.warmAddress a).2) k) := by
    intro addresses
    induction addresses with
    | nil => exact fun _ _ h => h
    | cons a addresses ih => exact fun j k h => ih _ _ (haddress a j k h)
  have hslots : ∀ (a : Address) (keys : List Word) (j : Journal β) (k : Journal γ), R j k →
      R (keys.foldl (fun j key => (j.warmSlot ⟨a, key⟩).2) j)
        (keys.foldl (fun k key => (k.warmSlot ⟨a, key⟩).2) k) := by
    intro a keys
    induction keys with
    | nil => exact fun _ _ h => h
    | cons key keys ih => exact fun j k h => ih _ _ (hslot ⟨a, key⟩ j k h)
  have hitems : ∀ (items : List AccessListItem) (j : Journal β) (k : Journal γ), R j k →
      R (items.foldl warmItem j) (items.foldl warmItem k) := by
    intro items
    induction items with
    | nil => exact fun _ _ h => h
    | cons item items ih =>
      exact fun j k h => ih _ _ (hslots item.address item.keys _ _ (haddress item.address j k h))
  have hknown := hitems tx.accessList _ _ (haddresses f.precompiles.keys _ _
    (haddresses tx.kind.target?.toList _ _ (haddress tx.caller _ _ h)))
  unfold warmTransaction
  simp only [henv, hconfig, hprecompiles]
  split
  · exact haddress f.env.block.coinbase _ _ hknown
  · exact hknown

variable [Backend β]

/-! ## The steps of a transaction -/

/-- Mark what is known to be accessed and count up the nonce of the sender. -/
def prepare (tx : Transaction) : StateM (Engine β) (Except StateError Unit) := do
  let config := (← get).config
  modify (warmTransaction tx)
  if config.intrinsicGas ∧ !tx.kind.isCreate then
    attempt (do let _ ← Journal.incrementNonce tx.caller)
  else return .ok ()

/-- What becomes of the preparation of a transaction: the nonce of the sender is
    counted up where the envelope is charged and the transaction is a call. -/
inductive Prepared (tx : Transaction) (e : Engine β) :
    Except StateError Unit × Engine β → Prop where
  | counted {nonce : Nat} {j : Journal β} :
    Journal.incrementNonce tx.caller (warmTransaction tx e).journal = .ok nonce j →
    Prepared tx e (.ok (), { warmTransaction tx e with journal := j })
  | failed {err : StateError} {j : Journal β} :
    Journal.incrementNonce tx.caller (warmTransaction tx e).journal = .error err j →
    Prepared tx e (.error err, { warmTransaction tx e with journal := j })
  | uncounted :
    (e.config.intrinsicGas = true → tx.kind.isCreate = true) →
    Prepared tx e (.ok (), warmTransaction tx e)

theorem prepare_spec (tx : Transaction) (e : Engine β) : Prepared tx e (prepare tx e) := by
  unfold prepare
  rw [state_get_bind_apply, state_modify_bind_apply, state_ite_apply]
  split
  · cases hcount : Journal.incrementNonce tx.caller (warmTransaction tx e).journal with
    | ok nonce j =>
      have hcounted : (do let _ ← Journal.incrementNonce tx.caller : JournalM β Unit)
          (warmTransaction tx e).journal = .ok () j := by
        rw [bind_apply, hcount]
        rfl
      rw [attempt_ok hcounted]
      exact .counted hcount
    | error err j =>
      have hfailed : (do let _ ← Journal.incrementNonce tx.caller : JournalM β Unit)
          (warmTransaction tx e).journal = .error err j := by
        rw [bind_apply, hcount]
      rw [attempt_error hfailed]
      exact .failed hcount
  · next huncounted =>
    refine .uncounted fun hcharged => ?_
    simpa [hcharged] using huncounted

theorem runTransaction_request (tx : Transaction) (gasLimit : Nat) :
    runTransaction (β := β) tx gasLimit = (tx.request gasLimit).perform := by
  unfold runTransaction Transaction.request
  cases tx.kind <;> rfl

/-- **The steps of a transaction**: the gas of the envelope, the preparation,
    the request, and the settlement. -/
theorem transact_eq (tx : Transaction) (e : Engine β) :
    transact tx e =
      if tx.gasLimit < intrinsicGas e.config tx then (.rejected .outOfGas tx.gasLimit, e)
      else
        match prepare tx e with
        | (.error err, e') => (.rejected (.ofStateError err) tx.gasLimit, (discard e').2)
        | (.ok _, e') =>
          let ran := (tx.request (tx.gasLimit - intrinsicGas e.config tx)).perform e'
          finish tx.gasLimit ran.1 ran.2 := by
  unfold transact prepare
  rw [state_get_bind_apply, state_get_bind_apply]
  simp only
  rw [state_ite_apply]
  by_cases hgas : tx.gasLimit < intrinsicGas e.config tx
  · rw [if_pos hgas, if_pos hgas]
    rfl
  rw [if_neg hgas, if_neg hgas, state_modify_bind_apply, state_modify_bind_apply,
    ← runTransaction_request]
  by_cases hcount : e.config.intrinsicGas = true ∧ (!tx.kind.isCreate) = true
  · rw [if_pos hcount, state_bind_apply]
    generalize attempt (do let _ ← Journal.incrementNonce tx.caller) (warmTransaction tx e) =
      counted
    obtain ⟨answer, e'⟩ := counted
    cases answer <;> rfl
  · rw [if_neg hcount]
    rfl

end Engine

end Evm
