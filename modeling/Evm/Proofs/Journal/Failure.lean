import Evm.Proofs.Journal.Footprint

/-! # Why operations on the state fail

    An operation fails because the store does, or for a reason of its own.
    The one reason that is left out here is a credit that 256 bits do not
    hold: every operation but the credit itself is `Mild`, that is, it fails
    with an overflow only if the store itself reports one.
-/

namespace Evm

/-- The store answers some read with a failure. -/
inductive Reports {β : Type} [Backend β] (b : β) (err : StateError) : Prop where
  | account (a : Address) : Backend.account? b a = .error err → Reports b err
  | storage (s : Slot) : Backend.storage b s = .error err → Reports b err
  | code (hash : Hash) : Backend.code? b hash = .error err → Reports b err
  | blockHash (number : Nat) : Backend.blockHash b number = .error err → Reports b err

/-- A failure that is no overflow of a balance, unless it is one that the store
    itself reports. -/
def NoOverflow {β : Type} [Backend β] (b : β) (err : StateError) : Prop :=
  ∀ a, err = .balanceOverflow a → Reports b err

theorem Reports.noOverflow {β : Type} [Backend β] {b : β} {err : StateError}
    (h : Reports b err) : NoOverflow b err := fun _ _ => h

namespace Journal

variable {β : Type} [Backend β] {α γ : Type}

/-- An operation keeps the store and does not fail with an overflow of its
    own. -/
structure Mild (op : JournalM β α) : Prop where
  backend : ∀ j, (endState (op j)).backend = j.backend
  failure : ∀ {j err j'}, op j = .error err j' → NoOverflow j.backend err

namespace Mild

protected theorem pure (a : α) : Mild (pure a : JournalM β α) := by
  refine ⟨fun j => rfl, ?_⟩
  rintro j err j' ⟨⟩

protected theorem throw {err : StateError} (h : ∀ a, err ≠ .balanceOverflow a) :
    Mild (throw err : JournalM β α) := by
  refine ⟨fun j => rfl, ?_⟩
  rintro j err' j' ⟨⟩ a ha
  exact absurd ha (h a)

theorem bind {op : JournalM β α} {next : α → JournalM β γ} (hop : Mild op)
    (hnext : ∀ a, Mild (next a)) : Mild (op >>= next) := by
  constructor
  · intro j
    have hbackend := hop.backend j
    rw [bind_apply]
    cases h : op j with
    | ok a j' =>
      rw [h] at hbackend
      exact ((hnext a).backend j').trans hbackend
    | error err j' =>
      rw [h] at hbackend
      exact hbackend
  · intro j err j'' hfails
    have hbackend := hop.backend j
    rw [bind_apply] at hfails
    cases h : op j with
    | ok a j' =>
      simp only [h, endState_ok] at hfails hbackend
      rw [← hbackend]
      exact (hnext a).failure hfails
    | error err' j' =>
      simp only [h] at hfails
      cases hfails
      exact hop.failure h

theorem ite {p : Prop} [Decidable p] {op op' : JournalM β α} (hthen : p → Mild op)
    (helse : ¬p → Mild op') : Mild (if p then op else op') := by
  by_cases h : p
  · rw [if_pos h]
    exact hthen h
  · rw [if_neg h]
    exact helse h

/-! ## Reads -/

theorem loadAccount (a : Address) : Mild (loadAccount a : JournalM β _) := by
  have hedits : Edits Edit.Any (Journal.loadAccount a : JournalM β _) := loadAccount_edits trivial
  refine ⟨fun j => (hedits j).backend, ?_⟩
  intro j err j' h
  unfold Journal.loadAccount at h
  simp only [bind_apply, get_apply] at h
  cases hc : j.accounts[a]? with
  | some cached => rw [hc] at h; cases h
  | none =>
    rw [hc] at h
    cases hb : Backend.account? j.backend a with
    | ok found => rw [hb] at h; cases h
    | error e => rw [hb] at h; cases h; exact (Reports.account a hb).noOverflow

theorem loadSlot (s : Slot) : Mild (loadSlot s : JournalM β _) := by
  have hedits : Edits Edit.Any (Journal.loadSlot s : JournalM β _) := loadSlot_edits trivial
  refine ⟨fun j => (hedits j).backend, ?_⟩
  intro j err j' h
  unfold Journal.loadSlot at h
  simp only [bind_apply, get_apply] at h
  cases hc : j.slots[s]? with
  | some cached => rw [hc] at h; cases h
  | none =>
    rw [hc] at h
    cases hv : j.storedValue s with
    | ok value => simp only [hv] at h; cases h
    | error e =>
      simp only [hv] at h
      cases h
      -- a slot of a new account is not asked for
      unfold storedValue at hv
      split at hv
      · cases hv
      · exact (Reports.storage s hv).noOverflow

theorem account (a : Address) : Mild (account a : JournalM β _) :=
  (loadAccount a).bind fun _ => .pure _

theorem isEmpty (a : Address) : Mild (isEmpty a : JournalM β _) :=
  (account a).bind fun _ => .pure _

theorem balance (a : Address) : Mild (balance a : JournalM β _) :=
  (account a).bind fun _ => .pure _

theorem nonce (a : Address) : Mild (nonce a : JournalM β _) :=
  (account a).bind fun _ => .pure _

theorem storage (s : Slot) : Mild (storage s : JournalM β _) :=
  (loadSlot s).bind fun _ => .pure _

theorem code (a : Address) : Mild (code a : JournalM β _) := by
  unfold Journal.code
  refine (account a).bind fun acc => .ite (fun _ => .pure _) fun _ => ?_
  constructor
  · intro j
    simp only [bind_apply, get_apply]
    cases j.codes[acc.codeHash]? with
    | some c => rfl
    | none => rcases Backend.code? j.backend acc.codeHash with _ | _ | _ <;> rfl
  · intro j err j' h
    simp only [bind_apply, get_apply] at h
    cases hc : j.codes[acc.codeHash]? with
    | some c => rw [hc] at h; cases h
    | none =>
      rw [hc] at h
      rcases hb : Backend.code? j.backend acc.codeHash with e | _ | c
      · rw [hb] at h; cases h; exact (Reports.code _ hb).noOverflow
      · rw [hb] at h; cases h; nofun
      · rw [hb] at h; cases h

theorem blockHash (number : Nat) : Mild (blockHash number : JournalM β _) := by
  have hedits : Edits Edit.Any (Journal.blockHash number : JournalM β _) := blockHash_edits number
  refine ⟨fun j => (hedits j).backend, ?_⟩
  intro j err j' h
  unfold Journal.blockHash at h
  simp only [bind_apply, get_apply] at h
  cases hb : Backend.blockHash j.backend number with
  | ok hash => rw [hb] at h; cases h
  | error e => rw [hb] at h; cases h; exact (Reports.blockHash _ hb).noOverflow

/-! ## Writes -/

theorem modifyAccount (a : Address) {f : Account → Except StateError Account}
    (hf : ∀ acc err, f acc = .error err → ∀ a', err ≠ .balanceOverflow a') :
    Mild (modifyAccount a f : JournalM β _) := by
  refine (loadAccount a).bind fun cached => ?_
  split
  · next err herr => exact .throw (hf _ _ herr)
  · next changed _ =>
    refine ⟨fun j => rfl, ?_⟩
    rintro j err j' ⟨⟩

theorem setBalance (a : Address) (w : Word) : Mild (setBalance a w : JournalM β _) :=
  modifyAccount a nofun

theorem setNonce (a : Address) (n : Nat) : Mild (setNonce a n : JournalM β _) :=
  modifyAccount a nofun

theorem setCodeHash (a : Address) (hash : Hash) : Mild (setCodeHash a hash : JournalM β _) :=
  modifyAccount a nofun

theorem subBalance (a : Address) (amount : Word) : Mild (subBalance a amount : JournalM β _) := by
  refine modifyAccount a fun acc err h a' => ?_
  split at h
  · cases h
    nofun
  · cases h

theorem setStorage (s : Slot) (w : Word) : Mild (setStorage s w : JournalM β _) := by
  refine (loadSlot s).bind fun cached => Mild.bind ?_ fun _ => .pure _
  refine ⟨fun j => rfl, ?_⟩
  rintro j err j' ⟨⟩

theorem setCode (a : Address) (c : Bytes) : Mild (setCode a c : JournalM β _) := by
  refine .ite (fun _ => (setCodeHash a _).bind fun _ => .pure _) fun _ => ?_
  refine Mild.bind ?_ fun _ => (setCodeHash a _).bind fun _ => .pure _
  have hedits : Edits Edit.Any (queueCode (keccak256 c) c : JournalM β _) :=
    queueCode_edits trivial trivial
  refine ⟨fun j => (hedits j).backend, ?_⟩
  rintro j err j' ⟨⟩

end Mild

end Journal

end Evm
