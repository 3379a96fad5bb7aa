import Evm.Proofs.Containers
import Evm.State.Journal

/-! # Reverting to a checkpoint

    Undoing brings back everything that a transaction can observe of an
    earlier state; what does not come back is what was read from the store in
    between. `Restored b j` says that `j` is `b` again in this sense, and
    `RevertsTo b j` that reverting `j` to the checkpoint of `b` restores `b`.

    Both are preorders. That `RevertsTo` is transitive is what makes
    checkpoints nest: undoing the writes of an inner scope and then those of
    the outer one is undoing all of them.
-/

namespace Evm.Journal

variable {β : Type}

/-! ## Views of the state -/

section Views

variable [Backend β]

/-- The account at an address as execution sees it: the cached one, and that
    of the store where nothing is cached. -/
def presentAccount (j : Journal β) (a : Address) : Except StateError (Option Account) :=
  match j.accounts[a]? with
  | some cached => .ok cached.present
  | none => Backend.account? j.backend a

/-- The value of a slot as execution sees it. -/
def presentStorage (j : Journal β) (s : Slot) : Except StateError Word :=
  match j.slots[s]? with
  | some value => .ok value.present
  | none => j.storedValue s

variable {j j' : Journal β}

theorem presentAccount_congr (hbackend : j'.backend = j.backend)
    (haccounts : j'.accounts = j.accounts) (a : Address) :
    j'.presentAccount a = j.presentAccount a := by
  unfold presentAccount
  rw [hbackend, haccounts]

end Views

/-! ## Restored states -/

/-- `j` is `b` but for reads and accesses: what `b` has in its cache is there
    unchanged, and an account that was read since is that of the store. -/
structure Extends [Backend β] (b j : Journal β) : Prop where
  backend : j.backend = b.backend
  newCode : j.newCode = b.newCode
  transient : j.transient = b.transient
  logs : j.logs = b.logs
  created : j.created = b.created
  destroyed : j.destroyed = b.destroyed
  accounts : ∀ (a : Address) (cached : CachedAccount),
    b.accounts[a]? = some cached → j.accounts[a]? = some cached
  slots : ∀ (s : Slot) (value : SlotValue), b.slots[s]? = some value → j.slots[s]? = some value
  readAccounts : ∀ (a : Address) (cached : CachedAccount),
    b.accounts[a]? = none → j.accounts[a]? = some cached →
    cached.loaded = cached.present ∧ Backend.account? b.backend a = .ok cached.present

namespace Extends

variable [Backend β] {b j k : Journal β}

theorem refl (j : Journal β) : Extends j j where
  backend := rfl
  newCode := rfl
  transient := rfl
  logs := rfl
  created := rfl
  destroyed := rfl
  accounts _ _ h := h
  slots _ _ h := h
  readAccounts a cached hnone hsome := by rw [hnone] at hsome; cases hsome

theorem trans (hbj : Extends b j) (hjk : Extends j k) : Extends b k where
  backend := hjk.backend.trans hbj.backend
  newCode := hjk.newCode.trans hbj.newCode
  transient := hjk.transient.trans hbj.transient
  logs := hjk.logs.trans hbj.logs
  created := hjk.created.trans hbj.created
  destroyed := hjk.destroyed.trans hbj.destroyed
  accounts a cached h := hjk.accounts a cached (hbj.accounts a cached h)
  slots s value h := hjk.slots s value (hbj.slots s value h)
  readAccounts a cached hb hk := by
    -- the account was read either before `j` or after it
    cases hj : j.accounts[a]? with
    | none =>
      have hread := hjk.readAccounts a cached hj hk
      rwa [hbj.backend] at hread
    | some c =>
      have hc : k.accounts[a]? = some c := hjk.accounts a c hj
      rw [hc, Option.some.injEq] at hk
      subst hk
      exact hbj.readAccounts a c hb hj

/-- Every address has the same account. -/
theorem presentAccount_eq (h : Extends b j) (a : Address) :
    j.presentAccount a = b.presentAccount a := by
  unfold presentAccount
  cases hb : b.accounts[a]? with
  | some cached => rw [h.accounts a cached hb]
  | none =>
    cases hj : j.accounts[a]? with
    | none => simp only [h.backend]
    | some cached => exact (h.readAccounts a cached hb hj).2.symm

end Extends

/-- `j` is `b` again, but for what was read from the store since. What was
    read is shown as it was read. -/
structure Restored [Backend β] (b j : Journal β) : Prop extends Extends b j where
  warmAddresses : j.warmAddresses = b.warmAddresses
  warmSlots : j.warmSlots = b.warmSlots
  entries : j.entries = b.entries
  /-- A slot read since has not changed since it was read. -/
  readSlots : ∀ (s : Slot) (value : SlotValue),
    b.slots[s]? = none → j.slots[s]? = some value →
    value.present = value.initial

namespace Restored

variable [Backend β] {b j k : Journal β}

theorem refl (j : Journal β) : Restored j j where
  toExtends := .refl j
  warmAddresses := rfl
  warmSlots := rfl
  entries := rfl
  readSlots s value hnone hsome := by rw [hnone] at hsome; cases hsome

theorem trans (hbj : Restored b j) (hjk : Restored j k) : Restored b k where
  toExtends := hbj.toExtends.trans hjk.toExtends
  warmAddresses := hjk.warmAddresses.trans hbj.warmAddresses
  warmSlots := hjk.warmSlots.trans hbj.warmSlots
  entries := hjk.entries.trans hbj.entries
  readSlots s value hb hk := by
    cases hj : j.slots[s]? with
    | none => exact hjk.readSlots s value hj hk
    | some v =>
      have hv : k.slots[s]? = some v := hjk.slots s v hj
      rw [hv, Option.some.injEq] at hk
      subst hk
      exact hbj.readSlots s v hb hj

end Restored

/-! ## Undoing one write -/

/-- The cache entry that an undo entry speaks of is there. -/
def Covers (j : Journal β) : Undo → Prop
  | .account a _ => j.accounts[a]?.isSome
  | .storage s _ => j.slots[s]?.isSome
  | _ => True

section Undo

variable (j : Journal β) (e : Undo)

theorem undo_backend : (j.undo e).backend = j.backend := by
  cases e <;> simp only [undo, putTransient] <;> split <;> rfl

theorem undo_entries : (j.undo e).entries = j.entries := by
  cases e <;> simp only [undo, putTransient] <;> split <;> rfl

/-- A code that is known stays known. -/
theorem undo_codes : (j.undo e).codes = j.codes := by
  cases e <;> simp only [undo, putTransient] <;> split <;> rfl

/-- Undoing changes the present value of an account and nothing else of it. -/
theorem undo_accounts (a : Address) :
    (j.undo e).accounts[a]? =
      (j.accounts[a]?).map fun cached =>
        match e with
        | .account a' previous => if a' = a then { cached with present := previous } else cached
        | _ => cached := by
  cases e with
  | account a' previous =>
    simp only [undo]
    -- where nothing is cached there is nothing to undo, at `a'` or elsewhere
    cases h : j.accounts[a']? with
    | none =>
      by_cases ha : a' = a
      · subst ha; simp [h]
      · simp [ha]
    | some cached =>
      by_cases ha : a' = a
      · subst ha; simp [h]
      · simp [Std.ExtTreeMap.getElem?_insert, ha]
  | storage s previous => simp only [undo]; split <;> simp
  | _ => simp [undo, putTransient]

/-- Undoing changes the present value of a slot and nothing else of it. -/
theorem undo_slots (s : Slot) :
    (j.undo e).slots[s]? =
      (j.slots[s]?).map fun value =>
        match e with
        | .storage s' previous => if s' = s then { value with present := previous } else value
        | _ => value := by
  cases e with
  | storage s' previous =>
    simp only [undo]
    cases h : j.slots[s']? with
    | none =>
      by_cases hs : s' = s
      · subst hs; simp [h]
      · simp [hs]
    | some value =>
      by_cases hs : s' = s
      · subst hs; simp [h]
      · simp [Std.ExtTreeMap.getElem?_insert, hs]
  | account a previous => simp only [undo]; split <;> simp
  | _ => simp [undo, putTransient]

end Undo

/-- Undoing removes nothing from the cache. -/
theorem covers_undo (j : Journal β) (e e' : Undo) : (j.undo e').Covers e ↔ j.Covers e := by
  cases e with
  | account a previous => simp only [Covers, undo_accounts, Option.isSome_map]
  | storage s previous => simp only [Covers, undo_slots, Option.isSome_map]
  | _ => exact Iff.rfl

theorem covers_withEntries (j : Journal β) (es : List Undo) (e : Undo) :
    ({ j with entries := es } : Journal β).Covers e ↔ j.Covers e := by
  cases e <;> exact Iff.rfl

/-- Undoing a write in a state and in a restored one restores what the first
    comes to. -/
theorem Restored.undo [Backend β] {b j : Journal β} {e : Undo} (h : Restored b j)
    (hcovers : b.Covers e) : Restored (b.undo e) (j.undo e) := by
  cases e with
  | account a previous =>
    -- both states have the same entry, so the same value is put back in both
    obtain ⟨c, hb⟩ := Option.isSome_iff_exists.mp hcovers
    have hj : j.accounts[a]? = some c := h.accounts a c hb
    simp only [Journal.undo, hb, hj]
    refine { h with
      accounts := getElem?_insert_of_imp _ h.accounts a _
      readAccounts := ?_ }
    intro a' cached hb' hj'
    obtain ⟨ha, hnone⟩ := getElem?_insert_eq_none _ hb'
    rw [getElem?_insert_of_ne _ ha] at hj'
    exact h.readAccounts a' cached hnone hj'
  | storage s previous =>
    obtain ⟨v, hb⟩ := Option.isSome_iff_exists.mp hcovers
    have hj : j.slots[s]? = some v := h.slots s v hb
    simp only [Journal.undo, hb, hj]
    refine { h with
      slots := getElem?_insert_of_imp _ h.slots s _
      readSlots := ?_ }
    intro s' value hb' hj'
    obtain ⟨hs, hnone⟩ := getElem?_insert_eq_none _ hb'
    rw [getElem?_insert_of_ne _ hs] at hj'
    exact h.readSlots s' value hnone hj'
  | transient s previous =>
    exact { h with transient := by simp only [Journal.undo, putTransient, h.transient] }
  | warmAddress a =>
    exact { h with warmAddresses := by simp only [Journal.undo, h.warmAddresses] }
  | warmSlot s => exact { h with warmSlots := by simp only [Journal.undo, h.warmSlots] }
  | log => exact { h with logs := by simp only [Journal.undo, h.logs] }
  | code hash => exact { h with newCode := by simp only [Journal.undo, h.newCode] }
  | created a => exact { h with created := by simp only [Journal.undo, h.created] }
  | destroyed a => exact { h with destroyed := by simp only [Journal.undo, h.destroyed] }

/-! ## Undoing several writes -/

section Newest

theorem undoNewest_entries (n : Nat) (j : Journal β) :
    (undoNewest n j).entries = j.entries.drop n := by
  induction n generalizing j with
  | zero => rfl
  | succ n ih =>
    unfold undoNewest
    cases h : j.entries with
    | nil => simp [h]
    | cons e rest => rw [ih, undo_entries]; simp

theorem undoNewest_backend (n : Nat) (j : Journal β) :
    (undoNewest n j).backend = j.backend := by
  induction n generalizing j with
  | zero => rfl
  | succ n ih =>
    unfold undoNewest
    split
    · rfl
    · rw [ih, undo_backend]

theorem undoNewest_codes (n : Nat) (j : Journal β) : (undoNewest n j).codes = j.codes := by
  induction n generalizing j with
  | zero => rfl
  | succ n ih =>
    unfold undoNewest
    split
    · rfl
    · rw [ih, undo_codes]

/-- Undoing in two portions is undoing at once. -/
theorem undoNewest_add (m n : Nat) (j : Journal β) :
    undoNewest (m + n) j = undoNewest n (undoNewest m j) := by
  induction m generalizing j with
  | zero => rw [Nat.zero_add]; rfl
  | succ m ih =>
    rw [Nat.succ_add]
    cases h : j.entries with
    | nil =>
      -- with an empty journal undoing stops, however much is asked for
      have hstop : ∀ k, undoNewest k j = j := by
        intro k
        cases k with
        | zero => rfl
        | succ k => simp only [undoNewest, h]
      rw [hstop, hstop, hstop]
    | cons e rest =>
      simp only [undoNewest, h]
      exact ih _

theorem covers_undoNewest (n : Nat) (j : Journal β) (e : Undo) :
    (undoNewest n j).Covers e ↔ j.Covers e := by
  induction n generalizing j with
  | zero => exact Iff.rfl
  | succ n ih =>
    unfold undoNewest
    split
    · exact Iff.rfl
    · rw [ih, covers_undo, covers_withEntries]

/-- The value a slot had at the start of the transaction is never undone. -/
theorem undoNewest_initial (n : Nat) (j : Journal β) (s : Slot) :
    ((undoNewest n j).slots[s]?).map SlotValue.initial =
      (j.slots[s]?).map SlotValue.initial := by
  induction n generalizing j with
  | zero => rfl
  | succ n ih =>
    unfold undoNewest
    split
    · rfl
    · next e rest _ =>
      rw [ih, undo_slots, Option.map_map]
      congr 1
      funext value
      cases e with
      | storage s' previous =>
        simp only [Function.comp]
        split <;> rfl
      | _ => rfl

/-- Nor is what was loaded of an account. -/
theorem undoNewest_loaded (n : Nat) (j : Journal β) (a : Address) :
    ((undoNewest n j).accounts[a]?).map CachedAccount.loaded =
      (j.accounts[a]?).map CachedAccount.loaded := by
  induction n generalizing j with
  | zero => rfl
  | succ n ih =>
    unfold undoNewest
    split
    · rfl
    · next e rest _ =>
      rw [ih, undo_accounts, Option.map_map]
      congr 1
      funext cached
      cases e with
      | account a' previous =>
        simp only [Function.comp]
        split <;> rfl
      | _ => rfl

/-- Undoing marks no account as created. -/
theorem mem_created_of_undoNewest (n : Nat) {j : Journal β} {a : Address}
    (h : a ∈ (undoNewest n j).created) : a ∈ j.created := by
  induction n generalizing j with
  | zero => exact h
  | succ n ih =>
    unfold undoNewest at h
    split at h
    · exact h
    · next e rest _ =>
      have hundone := ih h
      cases e with
      | created a' => exact Std.ExtTreeSet.mem_of_mem_erase hundone
      | account a' previous => simp only [undo] at hundone; split at hundone <;> exact hundone
      | storage s previous => simp only [undo] at hundone; split at hundone <;> exact hundone
      | _ => exact hundone

/-- What was read since a state was left stays read when the same number of
    writes is undone in both. -/
theorem Restored.undoNewest [Backend β] {b j : Journal β} (n : Nat) (h : Restored b j)
    (hcovers : ∀ e ∈ b.entries.take n, b.Covers e) :
    Restored (undoNewest n b) (undoNewest n j) := by
  induction n generalizing b j with
  | zero => exact h
  | succ n ih =>
    unfold Journal.undoNewest
    -- the journals agree, so the same entry is undone in both
    rw [h.entries]
    cases hb : b.entries with
    | nil => exact h
    | cons e rest =>
      rw [hb, List.take_succ_cons] at hcovers
      have hrest : Restored { b with entries := rest } { j with entries := rest } :=
        { h with entries := rfl }
      have hfirst : b.Covers e := hcovers e List.mem_cons_self
      have hundo := hrest.undo ((covers_withEntries b rest e).mpr hfirst)
      apply ih hundo
      intro e' he'
      rw [undo_entries] at he'
      rw [covers_undo, covers_withEntries]
      exact hcovers e' (List.mem_cons_of_mem e he')

end Newest

/-! ## Reverting -/

theorem revert_backend (j : Journal β) (c : Checkpoint) : (j.revert c).backend = j.backend :=
  undoNewest_backend _ j

theorem revert_codes (j : Journal β) (c : Checkpoint) : (j.revert c).codes = j.codes :=
  undoNewest_codes _ j

theorem revert_initial (j : Journal β) (c : Checkpoint) (s : Slot) :
    ((j.revert c).slots[s]?).map SlotValue.initial = (j.slots[s]?).map SlotValue.initial :=
  undoNewest_initial _ j s

/-- Reverting to the present length undoes nothing. -/
theorem revert_checkpoint (j : Journal β) : j.revert j.checkpoint = j := by
  unfold revert checkpoint
  rw [Nat.sub_self]
  rfl

/-- Reverting `j` to the checkpoint of `b` restores `b`. -/
structure RevertsTo [Backend β] (b j : Journal β) : Prop where
  longer : b.entries.length ≤ j.entries.length
  /-- The cache has what the entries newer than `b` speak of. -/
  covered : ∀ e ∈ j.entries.take (j.entries.length - b.entries.length), j.Covers e
  restored : Restored b (j.revert b.checkpoint)

section RevertsTo

variable [Backend β] {b j k : Journal β}

theorem Restored.revertsTo (h : Restored b j) : RevertsTo b j where
  longer := Nat.le_of_eq (by rw [h.entries])
  covered := by
    rw [h.entries, Nat.sub_self, List.take_zero]
    intro e he
    cases he
  restored := by
    have hcheckpoint : b.checkpoint = j.checkpoint := by
      unfold checkpoint
      rw [h.entries]
    rw [hcheckpoint, revert_checkpoint]
    exact h

theorem RevertsTo.refl (j : Journal β) : RevertsTo j j := (Restored.refl j).revertsTo

theorem RevertsTo.backend (h : RevertsTo b j) : j.backend = b.backend :=
  (revert_backend j _).symm.trans h.restored.backend

/-- What the cache of a state covers is covered in every later state that
    reverts to it. -/
theorem RevertsTo.covers (h : RevertsTo b j) {e : Undo} (he : b.Covers e) : j.Covers e := by
  have hrev : (j.revert b.checkpoint).Covers e := by
    cases e with
    | account a previous =>
      obtain ⟨c, hc⟩ := Option.isSome_iff_exists.mp he
      exact Option.isSome_iff_exists.mpr ⟨c, h.restored.accounts a c hc⟩
    | storage s previous =>
      obtain ⟨v, hv⟩ := Option.isSome_iff_exists.mp he
      exact Option.isSome_iff_exists.mpr ⟨v, h.restored.slots s v hv⟩
    | _ => trivial
  exact (covers_undoNewest _ j e).mp hrev

/-- **Checkpoints nest**: if `k` reverts to `j` and `j` to `b`, then `k`
    reverts to `b`. -/
theorem RevertsTo.trans (hbj : RevertsTo b j) (hjk : RevertsTo j k) : RevertsTo b k := by
  have hsplit : k.entries.length - b.entries.length =
      (k.entries.length - j.entries.length) + (j.entries.length - b.entries.length) := by
    have h1 := hbj.longer
    have h2 := hjk.longer
    omega
  -- the entries that `j` has are those of `k` that are older than `j`
  have hentries : k.entries.drop (k.entries.length - j.entries.length) = j.entries := by
    rw [← undoNewest_entries]
    exact hjk.restored.entries
  refine ⟨Nat.le_trans hbj.longer hjk.longer, ?_, ?_⟩
  · intro e he
    rw [hsplit, List.take_add, List.mem_append, hentries] at he
    rcases he with hnew | hold
    · exact hjk.covered e hnew
    · -- what `j` had cached is still there, though more was done since
      exact hjk.covers (hbj.covered e hold)
  · -- undo down to `j` first, then on from there to `b`
    have hrevert : k.revert b.checkpoint =
        undoNewest (j.entries.length - b.entries.length) (k.revert j.checkpoint) := by
      unfold revert checkpoint
      rw [hsplit, undoNewest_add]
    rw [hrevert]
    exact hbj.restored.trans (hjk.restored.undoNewest _ hbj.covered)

end RevertsTo

end Evm.Journal
