import Evm.Proofs.Journal.Writing

/-! # Settling

    What reaches the store at the end of a transaction. A state in which
    nothing changed since it was read (`Clean`) is settled without a write, in
    whichever order, and so cannot be refused.
-/

namespace Evm.Journal

variable {β : Type}

/-- Everything in the cache is as it was read, and nothing waits to be
    written. -/
structure Clean (j : Journal β) : Prop where
  accounts : ∀ (a : Address) (cached : CachedAccount),
    j.accounts[a]? = some cached → cached.present = cached.loaded
  slots : ∀ (s : Slot) (value : SlotValue),
    j.slots[s]? = some value → value.present = value.initial
  newCode : j.newCode = ∅
  destroyed : j.destroyed = ∅

/-- A loop whose rounds do nothing does nothing. -/
theorem forM_unchanged {κ : Type} {f : κ → JournalM β Unit} {j : Journal β}
    (h : ∀ k, f k j = .ok () j) (keys : List κ) : keys.forM f j = .ok () j := by
  induction keys with
  | nil => rfl
  | cons k keys ih =>
    show (f k >>= fun _ => keys.forM f) j = .ok () j
    rw [bind_apply, h k]
    exact ih

namespace Clean

variable {j : Journal β}

theorem not_destroyed (h : Clean j) (a : Address) : j.isDestroyed a = false := by
  unfold isDestroyed
  rw [h.destroyed]
  rfl

theorem dropDestroyed (h : Clean j) : Clean j.dropDestroyed := by
  refine ⟨?_, h.slots, h.newCode, h.destroyed⟩
  intro a cached hcached
  unfold Journal.dropDestroyed at hcached
  simp only [h.not_destroyed, Bool.false_eq_true, if_false, Std.ExtTreeMap.getElem?_map,
    Option.map_id'] at hcached
  exact h.accounts a cached hcached

variable [Backend β]

theorem settleSlot (h : Clean j) (s : Slot) : settleSlot s j = .ok () j := by
  unfold Journal.settleSlot
  simp only [bind_apply, get_apply]
  cases hvalue : j.slots[s]? with
  | none => rfl
  | some value =>
    simp only [h.not_destroyed, h.slots s value hvalue]
    rfl

theorem settleAccount (h : Clean j) (a : Address) : settleAccount a j = .ok () j := by
  unfold Journal.settleAccount
  simp only [bind_apply, get_apply]
  cases hcached : j.accounts[a]? with
  | none => rfl
  | some cached =>
    simp only [h.accounts a cached hcached]
    rfl

/-- **A clean state is settled without a write**, whatever the order. -/
theorem settleIn (h : Clean j) (order : WriteOrder) (hcodes : order.codes = []) :
    ∃ logs j', settleIn order j = .ok logs j' ∧ j'.backend = j.backend := by
  have hdrop := h.dropDestroyed
  have hnone : [].forM settleCode j.dropDestroyed = .ok () j.dropDestroyed := rfl
  unfold Journal.settleIn
  simp only [bind_apply, modify_apply, hcodes, hnone, forM_unchanged hdrop.settleSlot,
    forM_unchanged hdrop.settleAccount]
  exact ⟨_, _, rfl, rfl⟩

theorem settle (h : Clean j) : ∃ logs j', settle j = .ok logs j' ∧ j'.backend = j.backend := by
  refine h.settleIn (ascending j) ?_
  unfold ascending
  rw [h.newCode]
  rfl

end Clean

/-! ## What settling leaves alone -/

section Stores

variable {α γ : Type}

/-- An operation that changes the store and the caches, and nothing else. -/
def Stores (op : JournalM β α) : Prop :=
  ∀ j, ∃ backend accounts slots, endState (op j) = { j with backend, accounts, slots }

namespace Stores

theorem bind {op : JournalM β α} {next : α → JournalM β γ} (hop : Stores op)
    (hnext : ∀ a, Stores (next a)) : Stores (op >>= next) := by
  intro j
  obtain ⟨backend, accounts, slots, hfirst⟩ := hop j
  rw [bind_apply]
  cases h : op j with
  | error cause j' =>
    rw [h] at hfirst
    exact ⟨backend, accounts, slots, hfirst⟩
  | ok a j' =>
    rw [h, endState_ok] at hfirst
    obtain ⟨backend', accounts', slots', hrest⟩ := hnext a j'
    refine ⟨backend', accounts', slots', hrest.trans ?_⟩
    rw [hfirst]

theorem forM {κ : Type} {f : κ → JournalM β Unit} (h : ∀ k, Stores (f k)) (keys : List κ) :
    Stores (keys.forM f) := by
  induction keys with
  | nil => exact fun j => ⟨j.backend, j.accounts, j.slots, rfl⟩
  | cons k keys ih => exact (h k).bind fun _ => ih

variable [Backend β]

/-- A round, be it refused or not, leaves the rest alone if what it keeps does. -/
theorem of_round {op : JournalM β Unit} {due : Journal β → Option Write}
    {kept : Journal β → Journal β → Prop} (hround : ∀ j, Round (due j) (kept j) j (op j))
    (hkept : ∀ j j', kept j j' →
      ∃ backend accounts slots, j' = { j with backend, accounts, slots }) : Stores op := by
  intro j
  have h := hround j
  generalize op j = outcome at h ⊢
  cases h with
  | made _ hj => exact hkept j _ hj
  | refused _ _ _ => exact ⟨_, _, _, rfl⟩

theorem settleSlot (s : Slot) : Stores (settleSlot s : JournalM β Unit) := by
  refine of_round (settleSlot_round s) ?_
  rintro j _ ⟨backend, slots, rfl, _⟩
  exact ⟨backend, j.accounts, slots, rfl⟩

theorem settleCode (hash : Hash) : Stores (settleCode hash : JournalM β Unit) := by
  refine of_round (settleCode_round hash) ?_
  rintro j _ ⟨backend, rfl⟩
  exact ⟨backend, j.accounts, j.slots, rfl⟩

theorem settleAccount (a : Address) : Stores (settleAccount a : JournalM β Unit) := by
  refine of_round (settleAccount_round a) ?_
  rintro j _ ⟨backend, accounts, rfl, _⟩
  exact ⟨backend, accounts, j.slots, rfl⟩

end Stores

/-- An operation that changes the store and the caches, and may then end the
    transaction. -/
def Ends (op : JournalM β α) : Prop :=
  ∀ j, ∃ backend accounts slots, endState (op j) = { j with backend, accounts, slots } ∨
    endState (op j) = ({ j with backend, accounts, slots } : Journal β).endTransaction.2

theorem Ends.bind {op : JournalM β α} {next : α → JournalM β γ} (hop : Stores op)
    (hnext : ∀ a, Ends (next a)) : Ends (op >>= next) := by
  intro j
  obtain ⟨backend, accounts, slots, hfirst⟩ := hop j
  rw [bind_apply]
  cases h : op j with
  | error cause j' =>
    rw [h] at hfirst
    exact ⟨backend, accounts, slots, .inl hfirst⟩
  | ok a j' =>
    rw [h, endState_ok] at hfirst
    obtain ⟨backend', accounts', slots', hrest⟩ := hnext a j'
    refine ⟨backend', accounts', slots', ?_⟩
    rw [hfirst] at hrest
    exact hfirst ▸ hrest

/-- **A settlement changes the store and the caches**, whether it succeeds or is
    refused, and all that it does besides is to end the transaction. -/
theorem settle_ends [Backend β] : Ends (settle : JournalM β (List Log)) := by
  have hdrop : Stores (modify dropDestroyed : JournalM β PUnit) := fun j => ⟨_, _, _, rfl⟩
  have hget : Stores (get : JournalM β (Journal β)) := fun j => ⟨_, _, _, rfl⟩
  refine .bind hget fun j => .bind hdrop fun _ => ?_
  refine .bind (.forM Stores.settleSlot _) fun _ => ?_
  refine .bind (.forM Stores.settleCode _) fun _ => ?_
  refine .bind (.forM Stores.settleAccount _) fun _ => ?_
  exact fun j => ⟨_, _, _, .inr rfl⟩

end Stores

/-! ## What settling keeps -/

section Preserved

variable {α γ : Type} {P : Journal β → Prop}

/-- An operation that keeps a property, whether it succeeds or not. -/
def Preserves (P : Journal β → Prop) (op : JournalM β α) : Prop := ∀ j, P j → P (endState (op j))

namespace Preserves

theorem bind {op : JournalM β α} {next : α → JournalM β γ} (hop : Preserves P op)
    (hnext : ∀ a, Preserves P (next a)) : Preserves P (op >>= next) := by
  intro j hj
  have hfirst := hop j hj
  rw [bind_apply]
  cases h : op j with
  | error cause j' =>
    rw [h] at hfirst
    exact hfirst
  | ok a j' =>
    rw [h] at hfirst
    exact hnext a j' hfirst

theorem forM {κ : Type} {f : κ → JournalM β Unit} (h : ∀ k, Preserves P (f k)) (keys : List κ) :
    Preserves P (keys.forM f) := by
  induction keys with
  | nil => exact fun j hj => hj
  | cons k keys ih => exact (h k).bind fun _ => ih

/-- **A settlement keeps** what its rounds keep, and what still holds when the
    destroyed accounts are dropped and the transaction is over. -/
theorem settle [Backend β] (hdropped : ∀ j, P j → P j.dropDestroyed)
    (hslot : ∀ s, Preserves P (settleSlot s)) (hcode : ∀ hash, Preserves P (settleCode hash))
    (haccount : ∀ a, Preserves P (settleAccount a)) (hended : ∀ j, P j → P j.endTransaction.2) :
    Preserves P (settle : JournalM β (List Log)) := by
  have hget : Preserves P (get : JournalM β (Journal β)) := fun j hj => hj
  have hdrop : Preserves P (modify dropDestroyed : JournalM β PUnit) := hdropped
  refine hget.bind fun j => hdrop.bind fun _ => ?_
  refine (forM hslot _).bind fun _ => ?_
  refine (forM hcode _).bind fun _ => ?_
  exact (forM haccount _).bind fun _ => hended

end Preserves

end Preserved

end Evm.Journal
