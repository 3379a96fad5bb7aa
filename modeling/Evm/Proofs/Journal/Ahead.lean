import Evm.Proofs.Journal.Replies
import Evm.Proofs.Lockstep

/-! # A state that has read more

    Two states over a database of which one is the other, but for accounts and
    slots that it has read besides (`Ahead`). Those are cached as the database
    has them, so every operation gives the same reply in both states: what one
    of them finds in its cache the other one loads.

    A slot of an account that was created in the transaction is loaded as zero
    without looking. There the two agree only if the database has zero too,
    which is what `Ahead.fresh` asks for, and what is lost when an account is
    created that has a slot which was read before.
-/

namespace Evm.Journal

/-- The caches of `k` are fuller than those of `j`, and otherwise `k` is `j`. -/
structure Fuller (j k : Journal Database) : Prop extends Restored j k where
  codes : k.codes = j.codes

/-- `k` has read some accounts out of `A` and some slots out of `S` that `j` has
    not read. -/
structure Ahead (A : Address → Prop) (S : Slot → Prop) (j k : Journal Database) : Prop
    extends Fuller j k where
  looked : ∀ a : Address, j.accounts[a]? = none → (k.accounts[a]?).isSome → A a
  lookedSlots : ∀ (s : Slot) (value : SlotValue), j.slots[s]? = none → k.slots[s]? = some value →
    S s ∧ value.initial = j.backend.storageValue s
  /-- A slot that one may look at and that will be loaded as zero is zero. -/
  fresh : ∀ s : Slot, S s → j.slots[s]? = none → s.address ∈ j.created →
    j.backend.storageValue s = 0

namespace Fuller

variable {j k : Journal Database} {s : Slot}

/-- A slot that is not cached in the fuller state is not cached. -/
theorem slot_none (h : Fuller j k) (hk : k.slots[s]? = none) : j.slots[s]? = none := by
  cases hj : j.slots[s]? with
  | none => rfl
  | some value =>
    rw [h.slots s value hj] at hk
    cases hk

theorem isDestroyed_eq (h : Fuller j k) (a : Address) : k.isDestroyed a = j.isDestroyed a :=
  congrArg (·.contains a) h.destroyed

/-- The same is put into both caches. -/
theorem putAccount (h : Fuller j k) (a : Address) (cached : CachedAccount) :
    Fuller { j with accounts := j.accounts.insert a cached }
      { k with accounts := k.accounts.insert a cached } := by
  refine { h with accounts := getElem?_insert_of_imp _ h.accounts a cached, readAccounts := ?_ }
  intro a' cached' hj hk
  obtain ⟨ha, hnone⟩ := getElem?_insert_eq_none _ hj
  rw [getElem?_insert_of_ne _ ha] at hk
  exact h.readAccounts a' cached' hnone hk

theorem putSlot (h : Fuller j k) (s : Slot) (value : SlotValue) :
    Fuller { j with slots := j.slots.insert s value }
      { k with slots := k.slots.insert s value } := by
  refine { h with slots := getElem?_insert_of_imp _ h.slots s value, readSlots := ?_ }
  intro s' value' hj hk
  obtain ⟨hs, hnone⟩ := getElem?_insert_eq_none _ hj
  rw [getElem?_insert_of_ne _ hs] at hk
  exact h.readSlots s' value' hnone hk

/-- A slot that is not cached is put into the fuller state alone. -/
theorem putMore (h : Fuller j k) {value : SlotValue} (hj : j.slots[s]? = none)
    (hvalue : value.present = value.initial) :
    Fuller j { k with slots := k.slots.insert s value } := by
  refine { h with slots := ?_, readSlots := ?_ }
  · intro s' value' hvalue'
    have hs : s ≠ s' := by
      rintro rfl
      rw [hj] at hvalue'
      cases hvalue'
    rw [getElem?_insert_of_ne _ hs]
    exact h.slots s' value' hvalue'
  · intro s' value' hnone hvalue'
    rcases getElem?_insert_eq_some _ hvalue' with ⟨rfl, rfl⟩ | hbefore
    · exact hvalue
    · exact h.readSlots s' value' hnone hbefore

end Fuller

namespace Ahead

variable {A : Address → Prop} {S : Slot → Prop} {j k : Journal Database} {a : Address} {s : Slot}

theorem refl (h : ∀ s : Slot, S s → j.slots[s]? = none → s.address ∈ j.created →
    j.backend.storageValue s = 0) : Ahead A S j j where
  toRestored := .refl j
  codes := rfl
  looked a hnone hsome := by
    rw [hnone] at hsome
    cases hsome
  lookedSlots s value hnone hsome := by
    rw [hnone] at hsome
    cases hsome
  fresh := h

/-! ## Caches -/

/-- An account that was read ahead is cached as it will be loaded. -/
theorem account_ahead (h : Ahead A S j k) {cached : CachedAccount} (hj : j.accounts[a]? = none)
    (hk : k.accounts[a]? = some cached) :
    cached = ⟨j.backend.accounts[a]?, j.backend.accounts[a]?⟩ := by
  obtain ⟨hloaded, hread⟩ := h.readAccounts a cached hj hk
  injection hread with hpresent
  cases cached
  simp only at hloaded hpresent
  rw [hloaded, ← hpresent]

/-- A slot that was read ahead is cached as it will be loaded. -/
theorem slot_ahead (h : Ahead A S j k) {value : SlotValue} (hj : j.slots[s]? = none)
    (hk : k.slots[s]? = some value) :
    value = ⟨j.backend.storageValue s, j.backend.storageValue s⟩ := by
  have hpresent := h.readSlots s value hj hk
  have hinitial := (h.lookedSlots s value hj hk).2
  cases value
  simp only at hpresent hinitial
  rw [hpresent, hinitial]

/-- A slot that one may look at is loaded as the database has it. -/
theorem storedValue_eq (h : Ahead A S j k) (hS : S s) (hj : j.slots[s]? = none) :
    j.storedValue s = .ok (j.backend.storageValue s) := by
  unfold storedValue
  by_cases hcreated : j.created.contains s.address
  · rw [if_pos hcreated, h.fresh s hS hj (Std.ExtTreeSet.contains_iff_mem.mp hcreated)]
  · rw [if_neg hcreated]
    rfl

theorem storedValue_congr (h : Ahead A S j k) (s : Slot) : k.storedValue s = j.storedValue s := by
  unfold storedValue
  rw [h.created, h.backend]

/-- The same is put into both caches. -/
theorem putAccount (h : Ahead A S j k) (a : Address) (cached : CachedAccount) :
    Ahead A S { j with accounts := j.accounts.insert a cached }
      { k with accounts := k.accounts.insert a cached } := by
  refine { h with toFuller := h.toFuller.putAccount a cached, looked := ?_ }
  intro a' hj hk
  obtain ⟨ha, hnone⟩ := getElem?_insert_eq_none _ hj
  rw [getElem?_insert_of_ne _ ha] at hk
  exact h.looked a' hnone hk

theorem putSlot (h : Ahead A S j k) (s : Slot) (value : SlotValue) :
    Ahead A S { j with slots := j.slots.insert s value }
      { k with slots := k.slots.insert s value } := by
  refine { h with toFuller := h.toFuller.putSlot s value, lookedSlots := ?_, fresh := ?_ }
  · intro s' value' hj hk
    obtain ⟨hs, hnone⟩ := getElem?_insert_eq_none _ hj
    rw [getElem?_insert_of_ne _ hs] at hk
    exact h.lookedSlots s' value' hnone hk
  · intro s' hS hj hcreated
    exact h.fresh s' hS (getElem?_insert_eq_none _ hj).2 hcreated

/-- The state behind catches up with an account. -/
theorem catchAccount (h : Ahead A S j k) {cached : CachedAccount}
    (hk : k.accounts[a]? = some cached) :
    Ahead A S { j with accounts := j.accounts.insert a cached } k := by
  have hput := h.putAccount a cached
  rwa [insert_of_getElem? _ hk] at hput

theorem catchSlot (h : Ahead A S j k) {value : SlotValue} (hk : k.slots[s]? = some value) :
    Ahead A S { j with slots := j.slots.insert s value } k := by
  have hput := h.putSlot s value
  rwa [insert_of_getElem? _ hk] at hput

theorem account?_eq (h : Ahead A S j k) (a : Address) :
    Backend.account? k.backend a = .ok j.backend.accounts[a]? := by
  rw [h.backend]
  rfl

/-- The state ahead reads another account. -/
theorem readAccount (h : Ahead A S j k) (hA : A a) (hk : k.accounts[a]? = none) :
    Ahead A S j { k with
      accounts := k.accounts.insert a ⟨j.backend.accounts[a]?, j.backend.accounts[a]?⟩ } := by
  have hread := Edit.restored_of_read_account hk (h.account?_eq a)
  refine { h with toRestored := h.toRestored.trans hread, looked := ?_ }
  intro a' hnone hsome
  obtain ⟨cached, hcached⟩ := Option.isSome_iff_exists.mp hsome
  rcases getElem?_insert_eq_some _ hcached with ⟨rfl, _⟩ | hbefore
  · exact hA
  · exact h.looked a' hnone (by rw [hbefore]; rfl)

/-- The state ahead reads another slot. -/
theorem readSlot (h : Ahead A S j k) (hS : S s) (hk : k.slots[s]? = none) :
    Ahead A S j { k with
      slots := k.slots.insert s ⟨j.backend.storageValue s, j.backend.storageValue s⟩ } := by
  refine { h with toFuller := h.toFuller.putMore (h.slot_none hk) rfl, lookedSlots := ?_ }
  intro s' value hnone hvalue
  rcases getElem?_insert_eq_some _ hvalue with ⟨rfl, rfl⟩ | hbefore
  · exact ⟨hS, rfl⟩
  · exact h.lookedSlots s' value hnone hbefore

/-- The same is noted in both journals. -/
theorem note (h : Ahead A S j k) (entry : Undo) : Ahead A S (j.note entry) (k.note entry) :=
  { h with entries := congrArg (entry :: ·) h.entries }

/-! ## Reads -/

theorem loadAccount (a : Address) : Lockstep (Ahead A S) (loadAccount a) (loadAccount a) := by
  intro j k h
  have hload : Backend.account? j.backend a = .ok j.backend.accounts[a]? := rfl
  unfold Journal.loadAccount
  simp only [bind_apply, get_apply, h.account?_eq, hload]
  cases hj : j.accounts[a]? with
  | some cached =>
    simp only [h.accounts a cached hj]
    exact .ok cached h
  | none =>
    cases hk : k.accounts[a]? with
    | some cached =>
      -- what is loaded now is what was read ahead
      obtain rfl := h.account_ahead hj hk
      exact .ok _ (h.catchAccount hk)
    | none => exact .ok _ (h.putAccount a _)

theorem loadSlot (s : Slot) : Lockstep (Ahead A S) (loadSlot s) (loadSlot s) := by
  intro j k h
  unfold Journal.loadSlot
  simp only [bind_apply, get_apply, h.storedValue_congr]
  cases hj : j.slots[s]? with
  | some value =>
    simp only [h.slots s value hj]
    exact .ok value h
  | none =>
    cases hk : k.slots[s]? with
    | some value =>
      have hS := (h.lookedSlots s value hj hk).1
      obtain rfl := h.slot_ahead hj hk
      simp only [h.storedValue_eq hS hj]
      exact .ok _ (h.catchSlot hk)
    | none =>
      cases j.storedValue s with
      | error e => exact .error e h
      | ok value => exact .ok _ (h.putSlot s _)

theorem account (a : Address) : Lockstep (Ahead A S) (account a) (account a) :=
  (loadAccount a).bind fun _ => .pure _

theorem isPresent (a : Address) : Lockstep (Ahead A S) (isPresent a) (isPresent a) :=
  (loadAccount a).bind fun _ => .pure _

theorem isEmpty (a : Address) : Lockstep (Ahead A S) (isEmpty a) (isEmpty a) :=
  (account a).bind fun _ => .pure _

theorem balance (a : Address) : Lockstep (Ahead A S) (balance a) (balance a) :=
  (account a).bind fun _ => .pure _

theorem nonce (a : Address) : Lockstep (Ahead A S) (nonce a) (nonce a) :=
  (account a).bind fun _ => .pure _

theorem storage (s : Slot) : Lockstep (Ahead A S) (storage s) (storage s) :=
  (loadSlot s).bind fun _ => .pure _

theorem code (a : Address) : Lockstep (Ahead A S) (code a) (code a) := by
  unfold Journal.code
  refine (account a).bind fun account => .ite (.pure _) ?_
  -- looking at accounts and slots brings in no codes
  refine .get_bind fun j k h => ?_
  have hcached : k.codes[account.codeHash]? = j.codes[account.codeHash]? := by rw [h.codes]
  have hstored : Backend.code? k.backend account.codeHash =
      Backend.code? j.backend account.codeHash := by rw [h.backend]
  rw [hcached, hstored]
  cases j.codes[account.codeHash]? with
  | some code => exact .ok _ h
  | none =>
    cases Backend.code? j.backend account.codeHash with
    | error e => exact .error e h
    | ok found =>
      cases found with
      | none => exact .error _ h
      | some code =>
        exact .ok _ { h with codes := congrArg (·.insert account.codeHash code) h.codes }

theorem blockHash (number : Nat) : Lockstep (Ahead A S) (blockHash number) (blockHash number) := by
  refine .get_bind fun j k h => ?_
  rw [h.backend]
  cases Backend.blockHash j.backend number with
  | error e => exact .error e h
  | ok hash => exact .ok hash h

/-! ## Looks -/

/-- A look is at an account out of `A` or at a slot out of `S`. -/
def Within (A : Address → Prop) (S : Slot → Prop) : Address ⊕ Slot → Prop
  | .inl a => A a
  | .inr s => S s

/-- **A look leaves a state ahead.** -/
theorem load (h : Ahead A S j k) {target : Address ⊕ Slot} (htarget : Within A S target) :
    Ahead A S j (Journal.load target k) := by
  cases target with
  | inl a =>
    unfold Journal.load Journal.loadAccount
    simp only [bind_apply, get_apply, h.account?_eq]
    cases hk : k.accounts[a]? with
    | some cached => exact h
    | none => exact h.readAccount htarget hk
  | inr s =>
    unfold Journal.load Journal.loadSlot
    simp only [bind_apply, get_apply, h.storedValue_congr]
    cases hk : k.slots[s]? with
    | some value => exact h
    | none =>
      simp only [h.storedValue_eq htarget (h.slot_none hk)]
      exact h.readSlot htarget hk

/-! ## Writes -/

theorem modifyAccount (a : Address) (f : Account → Except StateError Account) :
    Lockstep (Ahead A S) (modifyAccount a f) (modifyAccount a f) := by
  unfold Journal.modifyAccount
  refine (loadAccount a).bind fun cached => ?_
  cases f (cached.present.getD .empty) with
  | error e => exact .throw e
  | ok changed => exact .modify fun j k h => (h.putAccount a _).note _

theorem transfer (source target : Address) (amount : Word) :
    Lockstep (Ahead A S) (transfer source target amount) (transfer source target amount) := by
  unfold Journal.transfer
  refine .ite (.pure _) ?_
  refine (balance source).bind fun available => .ite (.throw _) (.ite (.pure _) ?_)
  exact (modifyAccount source _).bind fun _ => modifyAccount target _

theorem incrementNonce (a : Address) :
    Lockstep (Ahead A S) (incrementNonce a) (incrementNonce a) := by
  unfold Journal.incrementNonce
  refine (nonce a).bind fun current => .ite (.throw _) ?_
  exact (modifyAccount a _).bind fun _ => .pure _

theorem queueCode (hash : Hash) (code : Bytes) :
    Lockstep (Ahead A S) (queueCode hash code) (queueCode hash code) := by
  refine .modify fun j k h => ?_
  have hqueued : Ahead A S
      { j with codes := j.codes.insert hash code, newCode := j.newCode.insert hash }
      { k with codes := k.codes.insert hash code, newCode := k.newCode.insert hash } :=
    { h with
      codes := congrArg (·.insert hash code) h.codes
      newCode := congrArg (·.insert hash) h.newCode }
  dsimp only
  rw [h.newCode]
  by_cases hknown : j.newCode.contains hash
  · rw [if_pos hknown, if_pos hknown]
    rw [h.newCode] at hqueued
    exact hqueued
  · rw [if_neg hknown, if_neg hknown]
    rw [h.newCode] at hqueued
    exact hqueued.note _

theorem setCode (a : Address) (code : Bytes) :
    Lockstep (Ahead A S) (setCode a code) (setCode a code) := by
  unfold Journal.setCode
  refine .ite ?_ ?_
  · exact (modifyAccount a _).bind fun _ => .pure _
  · refine (queueCode _ code).bind fun _ => ?_
    exact (modifyAccount a _).bind fun _ => .pure _

theorem setStorage (s : Slot) (value : Word) :
    Lockstep (Ahead A S) (setStorage s value) (setStorage s value) := by
  unfold Journal.setStorage
  refine (loadSlot s).bind fun cached => ?_
  have hwrite : Lockstep (Ahead A S)
      (modify fun j : Journal Database => { j with
        slots := j.slots.insert s { cached with present := value } }.note
          (.storage s cached.present) : JournalM Database PUnit)
      (modify fun j : Journal Database => { j with
        slots := j.slots.insert s { cached with present := value } }.note
          (.storage s cached.present)) :=
    .modify fun j k h => (h.putSlot s _).note _
  exact hwrite.bind fun _ => .pure _

/-! ## Marks -/

theorem tstore (h : Ahead A S j k) (s : Slot) (value : Word) :
    Ahead A S (j.tstore s value) (k.tstore s value) := by
  have hput : Ahead A S (j.putTransient s value) (k.putTransient s value) :=
    { h with transient := congrArg (·.write s value) h.transient }
  have hread : k.tload s = j.tload s := congrArg (·.read s) h.transient
  unfold Journal.tstore
  rw [hread]
  exact hput.note _

theorem warmAddress (h : Ahead A S j k) (a : Address) :
    (j.warmAddress a).1 = (k.warmAddress a).1 ∧
      Ahead A S (j.warmAddress a).2 (k.warmAddress a).2 := by
  have hsame : k.isWarmAddress a = j.isWarmAddress a := congrArg (·.contains a) h.warmAddresses
  unfold Journal.warmAddress
  rw [hsame]
  by_cases hwarm : j.isWarmAddress a
  · rw [if_pos hwarm, if_pos hwarm]
    exact ⟨rfl, h⟩
  · rw [if_neg hwarm, if_neg hwarm]
    have hput : Ahead A S { j with warmAddresses := j.warmAddresses.insert a }
        { k with warmAddresses := k.warmAddresses.insert a } :=
      { h with warmAddresses := congrArg (·.insert a) h.warmAddresses }
    exact ⟨rfl, hput.note _⟩

theorem warmSlot (h : Ahead A S j k) (s : Slot) :
    (j.warmSlot s).1 = (k.warmSlot s).1 ∧ Ahead A S (j.warmSlot s).2 (k.warmSlot s).2 := by
  have hsame : k.isWarmSlot s = j.isWarmSlot s := congrArg (·.contains s) h.warmSlots
  unfold Journal.warmSlot
  rw [hsame]
  by_cases hwarm : j.isWarmSlot s
  · rw [if_pos hwarm, if_pos hwarm]
    exact ⟨rfl, h⟩
  · rw [if_neg hwarm, if_neg hwarm]
    have hput : Ahead A S { j with warmSlots := j.warmSlots.insert s }
        { k with warmSlots := k.warmSlots.insert s } :=
      { h with warmSlots := congrArg (·.insert s) h.warmSlots }
    exact ⟨rfl, hput.note _⟩

theorem addLog (h : Ahead A S j k) (log : Log) : Ahead A S (j.addLog log) (k.addLog log) := by
  have hput : Ahead A S { j with logs := log :: j.logs } { k with logs := log :: k.logs } :=
    { h with logs := congrArg (log :: ·) h.logs }
  exact hput.note _

/-- An account may be created if those of its slots that one may look at are
    zero, or have been read. -/
theorem markCreated (h : Ahead A S j k)
    (hfresh : ∀ s : Slot, S s → s.address = a → j.slots[s]? = none →
      j.backend.storageValue s = 0) :
    Ahead A S (j.markCreated a) (k.markCreated a) := by
  have hsame : k.isCreated a = j.isCreated a := congrArg (·.contains a) h.created
  unfold Journal.markCreated
  rw [hsame]
  by_cases hcreated : j.isCreated a
  · rw [if_pos hcreated, if_pos hcreated]
    exact h
  · rw [if_neg hcreated, if_neg hcreated]
    have hput : Ahead A S { j with created := j.created.insert a }
        { k with created := k.created.insert a } := by
      refine { h with created := congrArg (·.insert a) h.created, fresh := ?_ }
      intro s hS hnone hmem
      rcases Std.ExtTreeSet.mem_insert.mp hmem with heq | hbefore
      · exact hfresh s hS (Std.LawfulEqOrd.eq_of_compare heq).symm hnone
      · exact h.fresh s hS hnone hbefore
    exact hput.note _

theorem markDestroyed (h : Ahead A S j k) (a : Address) :
    Ahead A S (j.markDestroyed a) (k.markDestroyed a) := by
  have hsame : k.isDestroyed a = j.isDestroyed a := congrArg (·.contains a) h.destroyed
  unfold Journal.markDestroyed
  rw [hsame]
  by_cases hdestroyed : j.isDestroyed a
  · rw [if_pos hdestroyed, if_pos hdestroyed]
    exact h
  · rw [if_neg hdestroyed, if_neg hdestroyed]
    have hput : Ahead A S { j with destroyed := j.destroyed.insert a }
        { k with destroyed := k.destroyed.insert a } :=
      { h with destroyed := congrArg (·.insert a) h.destroyed }
    exact hput.note _

/-! ## Undoing -/

theorem undoNewest (n : Nat) (h : Ahead A S j k) (hcovers : ∀ entry ∈ j.entries, j.Covers entry) :
    Ahead A S (undoNewest n j) (undoNewest n k) := by
  -- undoing caches no account or slot and drops none
  have haccount : ∀ a : Address, (Journal.undoNewest n j).accounts[a]? = none →
      j.accounts[a]? = none := by
    intro a hnone
    rw [← Option.not_isSome_iff_eq_none] at hnone ⊢
    exact mt (covers_undoNewest n j (.account a none)).mpr hnone
  have hslot : ∀ s : Slot, (Journal.undoNewest n j).slots[s]? = none → j.slots[s]? = none := by
    intro s hnone
    rw [← Option.not_isSome_iff_eq_none] at hnone ⊢
    exact mt (covers_undoNewest n j (.storage s 0)).mpr hnone
  have hrestored : Restored (Journal.undoNewest n j) (Journal.undoNewest n k) :=
    h.toRestored.undoNewest n fun entry hentry => hcovers entry (List.mem_of_mem_take hentry)
  refine ⟨⟨hrestored, ?_⟩, ?_, ?_, ?_⟩
  · rw [undoNewest_codes, undoNewest_codes, h.codes]
  · intro a hj hk
    exact h.looked a (haccount a hj) ((covers_undoNewest n k (.account a none)).mp hk)
  · intro s value hj hk
    have hinitial := undoNewest_initial n k s
    rw [hk] at hinitial
    obtain ⟨before, hbefore, hsame⟩ := Option.map_eq_some_iff.mp hinitial.symm
    rw [undoNewest_backend, ← hsame]
    exact h.lookedSlots s before (hslot s hj) hbefore
  · intro s hS hj hcreated
    rw [undoNewest_backend]
    exact h.fresh s hS (hslot s hj) (mem_created_of_undoNewest n hcreated)

/-- **Reverting** keeps a state ahead. -/
theorem revert (h : Ahead A S j k) (hcovers : ∀ entry ∈ j.entries, j.Covers entry)
    (c : Checkpoint) : Ahead A S (j.revert c) (k.revert c) := by
  unfold Journal.revert
  rw [h.entries]
  exact h.undoNewest _ hcovers

end Ahead

end Evm.Journal
