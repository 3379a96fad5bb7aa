import Evm.Proofs.Engine.Layers
import Evm.Proofs.Engine.Preparation
import Evm.Proofs.Journal.Warmth

/-! # What the engine makes warm

    Before its first frame a transaction marks what it is known to access
    (`Transaction.Declares`). After that the engine itself makes one thing warm:
    the address that a creation derives, as soon as the creator has passed its
    checks, whatever then comes of the creation (`Request.claims`). All other
    accesses are made by frames through their host.
-/

namespace Evm

open Journal

variable {β : Type} [Backend β]

/-! ## Before the first frame -/

omit [Backend β] in
/-- What a transaction is known to access: its sender, its target, the
    precompiled contracts, what is on its access list, and from Shanghai on the
    coinbase. -/
def Transaction.Declares (tx : Transaction) (e : Engine β) : AccessKey → Prop
  | .account a =>
    a = tx.caller ∨ tx.kind.target? = some a ∨ a ∈ e.precompiles ∨
      (∃ item ∈ tx.accessList, item.address = a) ∨
      (e.config.hardfork.includes .shanghai = true ∧ a = e.env.block.coinbase)
  | .slot s => ∃ item ∈ tx.accessList, item.address = s.address ∧ s.key ∈ item.keys

namespace Engine

variable {e e' : Engine β}

section Marks

variable {γ : Type} (j : Journal β) (key : AccessKey)

omit [Backend β] in
/-- Accesses one after another make warm what they are of. -/
theorem foldl_isWarm {mark : Journal β → γ → Journal β} {Marks : γ → AccessKey → Prop}
    (hmark : ∀ j c key, (mark j c).IsWarm key ↔ j.IsWarm key ∨ Marks c key) (items : List γ) :
    (items.foldl mark j).IsWarm key ↔ j.IsWarm key ∨ ∃ c ∈ items, Marks c key := by
  induction items generalizing j with
  | nil => simp
  | cons c items ih => rw [List.foldl_cons, ih, hmark, List.exists_mem_cons_iff, or_assoc]

omit [Backend β] in
theorem warmAddresses_isWarm (addresses : List Address) :
    (addresses.foldl (fun j a => (j.warmAddress a).2) j).IsWarm key ↔
      j.IsWarm key ∨ ∃ a ∈ addresses, key = .account a :=
  foldl_isWarm j key (fun j a key => j.warmAddress_isWarm key a) addresses

omit [Backend β] in
/-- An item of the access list makes its address and its slots warm. -/
theorem warmItem_isWarm (item : AccessListItem) :
    (warmItem j item).IsWarm key ↔
      j.IsWarm key ∨ key = .account item.address ∨
        ∃ w ∈ item.keys, key = .slot ⟨item.address, w⟩ := by
  have hmark : ∀ (j : Journal β) (w : Word) (key : AccessKey),
      (j.warmSlot ⟨item.address, w⟩).2.IsWarm key ↔
        j.IsWarm key ∨ key = .slot ⟨item.address, w⟩ :=
    fun j w key => j.warmSlot_isWarm key ⟨item.address, w⟩
  unfold warmItem
  rw [foldl_isWarm _ key hmark, warmAddress_isWarm, or_assoc]

end Marks

omit [Backend β] in
/-- **What a transaction marks**: what is declared, and nothing else. -/
theorem warmTransaction_isWarm (tx : Transaction) (e : Engine β) (key : AccessKey) :
    (warmTransaction tx e).journal.IsWarm key ↔ e.journal.IsWarm key ∨ tx.Declares e key := by
  have hcoinbase : ∀ j : Journal β,
      (if e.config.hardfork.includes .shanghai then (j.warmAddress e.env.block.coinbase).2
        else j).IsWarm key ↔
      j.IsWarm key ∨ e.config.hardfork.includes .shanghai = true ∧
        key = .account e.env.block.coinbase := by
    intro j
    split
    · next h => simp [warmAddress_isWarm, h]
    · next h => simp [h]
  unfold warmTransaction
  simp only
  rw [hcoinbase, foldl_isWarm _ key fun j item key => warmItem_isWarm j key item,
    warmAddresses_isWarm, warmAddresses_isWarm, warmAddress_isWarm]
  cases key with
  | account a =>
    simp only [AccessKey.account.injEq, Option.mem_toList, Std.ExtTreeMap.mem_keys,
      reduceCtorEq, and_false, exists_false, or_false, Transaction.Declares]
    grind
  | slot s =>
    simp only [reduceCtorEq, and_false, exists_false, or_false, false_or, AccessKey.slot.injEq,
      Transaction.Declares]
    obtain ⟨a, w⟩ := s
    simp only [Slot.mk.injEq]
    grind

/-- Counting the nonce up is no access. -/
theorem prepare_isWarm (tx : Transaction) (e : Engine β) (key : AccessKey) :
    (prepare tx e).2.journal.IsWarm key ↔ e.journal.IsWarm key ∨ tx.Declares e key := by
  have hcounts : Edits Edit.SparesWarmth (incrementNonce tx.caller : JournalM β Nat) :=
    incrementNonce_edits ⟨nofun, nofun⟩ fun _ _ => ⟨nofun, nofun⟩
  have hcount := (hcounts (warmTransaction tx e).journal).isWarm
  rw [← warmTransaction_isWarm]
  have hprepared := prepare_spec tx e
  generalize prepare tx e = prepared at hprepared
  cases hprepared with
  | uncounted _ => rfl
  | counted hok =>
    rw [hok] at hcount
    exact iff_of_eq (congrFun hcount key)
  | failed herror =>
    rw [herror] at hcount
    exact iff_of_eq (congrFun hcount key)

end Engine

/-! ## Opening frames -/

theorem Edit.IsLook.sparesWarmth {edit : Edit} (h : edit.IsLook) : edit.SparesWarmth := by
  cases edit <;> first | exact h.elim | exact ⟨nofun, nofun⟩

theorem CallMessage.opens_sparesWarmth {message : CallMessage} {edit : Edit}
    (h : message.Opens edit) : edit.SparesWarmth := by
  cases edit <;> first | exact h.elim | exact ⟨nofun, nofun⟩

theorem CreateMessage.opens_sparesWarmth {message : CreateMessage} {address : Address}
    {edit : Edit} (h : message.Opens address edit) : edit.SparesWarmth := by
  cases edit <;> first | exact h.elim | exact ⟨nofun, nofun⟩

theorem Edit.Deploys.sparesWarmth {address : Address} {edit : Edit} (h : edit.Deploys address) :
    edit.SparesWarmth := by
  cases edit <;> first | exact h.elim | exact ⟨nofun, nofun⟩

/-- What opening a request makes warm: the address that a creation derives. -/
def Request.claims (request : Request) (e : Engine β) : List Address :=
  match request with
  | .call _ => []
  | .create message => (Engine.claimed? message e).toList

namespace Engine

variable {e e' : Engine β}

/-- Counting makes the derived address warm. -/
theorem Counted.isWarm {message : CreateMessage} {nonce : Nat} {b j : Journal β}
    (h : Counted message nonce b j) (key : AccessKey) :
    j.IsWarm key ↔ b.IsWarm key ∨ key = .account (newAddress message nonce) := by
  have hslots : j.warmSlots = b.warmSlots :=
    h.changes.same (p := .warmSlots) fun edit hedit => by
      cases edit <;> first | exact hedit.elim | nofun
  rw [← warmAddress_isWarm]
  refine iff_of_eq (congrFun (isWarm_congr ?_ ?_) key)
  · rw [h.warmAddresses, warmAddress_warm]
  · rw [hslots]
    unfold warmAddress
    split <;> rfl

end Engine

/-- **Opening a frame** makes the address warm that a creation derives. It is
    warm already at the checkpoint of the new frame. -/
theorem Request.start_isWarm (request : Request) (e : Engine β) :
    Engine.Opens
      (fun j => ∀ key, j.IsWarm key ↔ e.journal.IsWarm key ∨ key ∈ (request.claims e).map .account)
      (fun _ => True) e (request.start e) := by
  cases request with
  | call message =>
    have hsame : ∀ j : Journal β, j.IsWarm = e.journal.IsWarm → ∀ key : AccessKey,
        j.IsWarm key ↔ e.journal.IsWarm key ∨
          key ∈ ((Request.call message).claims e).map .account := by
      intro j h key
      rw [h]
      simp [Request.claims]
    have hstart := Engine.startCall_spec message e
    show Engine.Opens _ _ e (Engine.startCall message e)
    generalize Engine.startCall message e = started at hstart
    cases hstart with
    | failed _ _ hchanges => exact .done (hsame _ hchanges.revertsTo.restored.isWarm)
    | settled _ _ hchanges =>
      exact .done (hsame _ (hchanges.mono fun _ => CallMessage.opens_sparesWarmth).isWarm)
    | opened hchanges =>
      exact .run (.refl _) (hsame _ rfl) rfl hchanges.revertsTo
        (hsame _ (hchanges.mono fun _ => CallMessage.opens_sparesWarmth).isWarm) trivial
  | create message =>
    have houtcome := Engine.startCreate_outcome message e
    show Engine.Opens _ _ e (Engine.startCreate message e)
    -- where the creator passes, the derived address is warm from counting on
    have hcounted : ∀ {nonce : Nat} {b j : Journal β}, Engine.Counted message nonce e.journal b →
        Engine.claimed? message e = some (Engine.newAddress message nonce) →
        j.IsWarm = b.IsWarm → ∀ key : AccessKey, j.IsWarm key ↔ e.journal.IsWarm key ∨
          key ∈ ((Request.create message).claims e).map .account := by
      intro nonce b j hcounted hclaimed hsame key
      rw [hsame, hcounted.isWarm]
      simp [Request.claims, hclaimed]
    generalize Engine.startCreate message e = started at houtcome
    cases houtcome with
    | refused _ _ hlooks hclaimed =>
      refine .done fun key => ?_
      rw [(hlooks.mono fun _ h => h.sparesWarmth).isWarm]
      simp [Request.claims, hclaimed]
    | unclaimed _ _ hbefore hclaimed => exact .done (hcounted hbefore hclaimed rfl)
    | @unpaid err nonce b j hbefore _ herror hclaimed =>
      have hopens := Engine.mark_endow_opens message (Engine.newAddress message nonce) b
      rw [herror] at hopens
      exact .done (hcounted hbefore hclaimed hopens.revertsTo.restored.isWarm)
    | @opened nonce b j hbefore _ hok hclaimed =>
      have hopens := Engine.mark_endow_opens message (Engine.newAddress message nonce) b
      rw [hok] at hopens
      exact .run hbefore.changes.revertsTo (hcounted hbefore hclaimed rfl) rfl hopens.revertsTo
        (hcounted hbefore hclaimed
          (hopens.mono fun _ => CreateMessage.opens_sparesWarmth).isWarm) trivial

/-! ## Closing frames -/

/-- Closing a frame with success makes nothing warm. -/
theorem Engine.endFrame_isWarm {kind : FrameKind} {ending : Ending} {e e' : Engine β}
    {result : FrameResult} (h : endFrame kind ending e = (result, e'))
    (hsuccess : result.isSuccess = true) : e'.journal.IsWarm = e.journal.IsWarm := by
  have hclosed := endFrame_spec kind ending e
  rw [h] at hclosed
  cases hclosed with
  | kept _ _ hchanges =>
    refine (hchanges.mono fun edit hedit => ?_).isWarm
    cases kind with
    | call checkpoint => exact hedit.elim
    | create checkpoint address => exact hedit.sparesWarmth
  | undone hfailure _ _ =>
    rw [hsuccess] at hfailure
    cases hfailure

end Evm
