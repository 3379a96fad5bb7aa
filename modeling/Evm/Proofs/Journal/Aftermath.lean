import Evm.Proofs.Engine.Deletion
import Evm.Proofs.Journal.Ahead
import Evm.Proofs.Journal.Stored

/-! # A settlement after more was read

    A state that has read more settles with the same writes: what it has read
    besides is as it was read, so there is nothing to write, and the two go
    through their loops in lockstep (`Fuller.settleIn`). Only an account that is
    to be deleted and was not loaded makes a difference, since it is then deleted
    in one of the two states and not in the other one.

    Afterwards what was read ahead has to be as the database has it now
    (`Ahead.settle`). A slot keeps its value in the cache, or is set to zero if
    its account was to be deleted; in the database it goes with an account that
    was deleted. So the two have to come to the same, or the slot has to be zero
    anyway.
-/

namespace Evm.Journal

/-! ## Loops -/

/-- Rounds that do nothing may be left out of a loop. What makes them do nothing
    is an invariant of the loop. -/
theorem forM_filter {β κ : Type} {f : κ → JournalM β Unit} {p : κ → Bool}
    (Inv : Journal β → Prop)
    (hskip : ∀ k j, Inv j → p k = false → f k j = .ok () j)
    (hround : ∀ k j j', Inv j → f k j = .ok () j' → Inv j') (keys : List κ) {j : Journal β}
    (hj : Inv j) : (keys.filter p).forM f j = keys.forM f j := by
  induction keys generalizing j with
  | nil => rfl
  | cons k keys ih =>
    show _ = (f k >>= fun _ => keys.forM f) j
    cases hp : p k with
    | false =>
      rw [List.filter_cons_of_neg (by simp [hp]), bind_apply, hskip k j hj hp]
      exact ih hj
    | true =>
      rw [List.filter_cons_of_pos hp]
      show (f k >>= fun _ => (keys.filter p).forM f) j = _
      rw [bind_apply, bind_apply]
      cases hk : f k j with
      | error e j' => rfl
      | ok u j' => exact ih (hround k j j' hj hk)

/-! ## In lockstep -/

namespace Fuller

variable {j k : Journal Database}

/-- The same is written to both stores. An account that was read ahead stays as
    it is. -/
theorem store (h : Fuller j k) {backend : Database}
    (hread : ∀ a : Address, j.accounts[a]? = none → backend.accounts[a]? = j.backend.accounts[a]?) :
    Fuller { j with backend } { k with backend } := by
  refine { h with backend := rfl, readAccounts := ?_ }
  intro a cached hj hk
  obtain ⟨hloaded, hstored⟩ := h.readAccounts a cached hj hk
  exact ⟨hloaded, (congrArg Except.ok (hread a hj)).trans hstored⟩

theorem settleSlot (s : Slot) : Lockstep Fuller (settleSlot s) (settleSlot s) := by
  intro j k h
  unfold Journal.settleSlot
  simp only [bind_apply, get_apply, h.isDestroyed_eq]
  cases hj : j.slots[s]? with
  | some value =>
    simp only [h.slots s value hj]
    by_cases hgone : j.isDestroyed s.address
    · simp only [if_pos hgone]
      exact .ok () (h.putSlot s _)
    by_cases hsame : value.present = value.initial
    · simp only [if_neg hgone, if_pos hsame]
      exact .ok () h
    · simp only [if_neg hgone, if_neg hsame]
      have hwritten : Backend.setStorage k.backend s value.present =
          Backend.setStorage j.backend s value.present := by rw [h.backend]
      rw [hwritten]
      refine .ok () ((h.putSlot s _).store fun a _ => ?_)
      unfold Database.insertStorage
      split <;> rfl
  | none =>
    cases hk : k.slots[s]? with
    | none => exact .ok () h
    | some value =>
      -- what was read ahead is not written
      have hsame := h.readSlots s value hj hk
      by_cases hgone : j.isDestroyed s.address
      · simp only [if_pos hgone]
        exact .ok () (h.putMore hj rfl)
      · simp only [if_neg hgone, if_pos hsame]
        exact .ok () h

theorem settleCode (hash : Hash) : Lockstep Fuller (settleCode hash) (settleCode hash) := by
  intro j k h
  unfold Journal.settleCode
  have hcached : k.codes[hash]? = j.codes[hash]? := by rw [h.codes]
  simp only [bind_apply, get_apply, hcached]
  cases j.codes[hash]? with
  | none => exact .ok () h
  | some code =>
    have hwritten : Backend.setCode k.backend hash code = Backend.setCode j.backend hash code := by
      rw [h.backend]
    simp only [hwritten]
    refine .ok () (h.store fun a _ => ?_)
    unfold Database.insertCode
    split <;> rfl

theorem settleAccount (a : Address) : Lockstep Fuller (settleAccount a) (settleAccount a) := by
  intro j k h
  unfold Journal.settleAccount
  simp only [bind_apply, get_apply]
  cases hj : j.accounts[a]? with
  | some cached =>
    simp only [h.accounts a cached hj]
    by_cases hsame : cached.present = cached.loaded
    · simp only [if_pos hsame]
      exact .ok () h
    simp only [if_neg hsame]
    have hput := h.putAccount a
    cases cached.present.filter fun account => !account.isEmpty with
    | some account =>
      have hwritten : Backend.setAccount k.backend a account =
          Backend.setAccount j.backend a account := by rw [h.backend]
      simp only [hwritten]
      refine .ok () ((hput _).store fun a' hnone => ?_)
      exact getElem?_insert_of_ne _ (getElem?_insert_eq_none _ hnone).1 _
    | none =>
      have hwritten : Backend.deleteAccount k.backend a = Backend.deleteAccount j.backend a := by
        rw [h.backend]
      simp only [hwritten]
      refine .ok () ((hput _).store fun a' hnone => ?_)
      exact getElem?_erase_of_ne _ (getElem?_insert_eq_none _ hnone).1
  | none =>
    cases hk : k.accounts[a]? with
    | none => exact .ok () h
    | some cached =>
      have hsame := (h.readAccounts a cached hj hk).1.symm
      simp only [if_pos hsame]
      exact .ok () h

/-- Dropping the destroyed accounts does not touch those that were read ahead,
    or they are missing in any case. -/
theorem dropDestroyed (h : Fuller j k)
    (hmissing : ∀ a : Address, j.isDestroyed a → j.accounts[a]? = none →
      (k.accounts[a]?).isSome → j.backend.accounts[a]? = none) :
    Fuller j.dropDestroyed k.dropDestroyed := by
  have hdrop : ∀ (a : Address), k.dropDestroyed.accounts[a]? = (k.accounts[a]?).map fun cached =>
      if j.isDestroyed a then { cached with present := none } else cached := by
    intro a
    rw [dropDestroyed_accounts, h.isDestroyed_eq]
  refine { h with accounts := ?_, readAccounts := ?_ }
  · intro a cached hj
    obtain ⟨before, hbefore, rfl⟩ :=
      Option.map_eq_some_iff.mp ((dropDestroyed_accounts j a).symm.trans hj)
    exact (hdrop a).trans (by rw [h.accounts a before hbefore]; rfl)
  · intro a cached hj hk
    have hnone : j.accounts[a]? = none :=
      Option.map_eq_none_iff.mp ((dropDestroyed_accounts j a).symm.trans hj)
    obtain ⟨before, hbefore, rfl⟩ := Option.map_eq_some_iff.mp ((hdrop a).symm.trans hk)
    obtain ⟨hloaded, hstored⟩ := h.readAccounts a before hnone hbefore
    by_cases hgone : j.isDestroyed a
    · rw [if_pos hgone]
      have hlost := hmissing a hgone hnone (by rw [hbefore]; rfl)
      injection hstored with hpresent
      refine ⟨?_, congrArg Except.ok hlost⟩
      show before.loaded = none
      rw [hloaded, ← hpresent, hlost]
    · rw [if_neg hgone]
      exact ⟨hloaded, hstored⟩

/-- **Two settlements in lockstep**, in one order. -/
theorem settleIn (h : Fuller j k)
    (hmissing : ∀ a : Address, j.isDestroyed a → j.accounts[a]? = none →
      (k.accounts[a]?).isSome → j.backend.accounts[a]? = none) (order : WriteOrder) :
    Matches Fuller (settleIn order j) (settleIn order k) := by
  have hend : Lockstep Fuller (modifyGet endTransaction : JournalM Database (List Log))
      (modifyGet endTransaction) := by
    intro j k h
    have hlogs : k.emitted = j.emitted := congrArg List.reverse h.logs
    show Matches Fuller (.ok j.emitted j.endTransaction.2) (.ok k.emitted k.endTransaction.2)
    rw [hlogs]
    refine .ok _ { h with
      newCode := rfl, transient := rfl, logs := rfl, created := rfl, destroyed := rfl,
      warmAddresses := rfl, warmSlots := rfl, entries := rfl }
  have hloops : Lockstep Fuller
      (do
        order.slots.forM Journal.settleSlot
        order.codes.forM Journal.settleCode
        order.accounts.forM Journal.settleAccount
        modifyGet endTransaction : JournalM Database (List Log))
      (do
        order.slots.forM Journal.settleSlot
        order.codes.forM Journal.settleCode
        order.accounts.forM Journal.settleAccount
        modifyGet endTransaction) := by
    refine (Lockstep.forM settleSlot order.slots).bind fun _ => ?_
    refine (Lockstep.forM settleCode order.codes).bind fun _ => ?_
    exact (Lockstep.forM settleAccount order.accounts).bind fun _ => hend
  unfold Journal.settleIn
  rw [bind_apply, modify_apply, bind_apply, modify_apply]
  exact hloops _ _ (h.dropDestroyed hmissing)

end Fuller

/-! ## In the order of the other state -/

/-- A slot that is not cached is settled by doing nothing. -/
theorem settleSlot_of_not_cached {j : Journal Database} {s : Slot} (h : j.slots[s]? = none) :
    settleSlot s j = .ok () j := by
  unfold settleSlot
  simp only [bind_apply, get_apply, h]
  rfl

theorem settleAccount_of_not_cached {j : Journal Database} {a : Address}
    (h : j.accounts[a]? = none) : settleAccount a j = .ok () j := by
  unfold settleAccount
  simp only [bind_apply, get_apply, h]
  rfl

/-- Settling a slot caches no other one. -/
theorem settleSlot_slot_none {j j' : Journal Database} {s r : Slot}
    (h : settleSlot r j = .ok () j') (hnone : j.slots[s]? = none) : j'.slots[s]? = none := by
  obtain ⟨j1, hr, hsettled⟩ := settleSlot_settled r j
  rw [hr] at h
  cases h
  by_cases hs : r = s
  · rw [← hs, hsettled.slot, hs, hnone]
    rfl
  · rw [hsettled.others s hs, hnone]

theorem settleAccount_account_none {j j' : Journal Database} {a b : Address}
    (h : settleAccount b j = .ok () j') (hnone : j.accounts[a]? = none) :
    j'.accounts[a]? = none := by
  unfold settleAccount at h
  simp only [bind_apply, get_apply] at h
  cases hcached : j.accounts[b]? with
  | none =>
    simp only [hcached] at h
    cases h
    exact hnone
  | some cached =>
    have hne : b ≠ a := by
      rintro rfl
      rw [hnone] at hcached
      cases hcached
    simp only [hcached] at h
    by_cases hsame : cached.present = cached.loaded
    · simp only [if_pos hsame] at h
      cases h
      exact hnone
    · simp only [if_neg hsame] at h
      generalize (cached.present.filter fun account => !account.isEmpty) = kept at h
      cases kept with
      | none =>
        cases h
        exact (getElem?_insert_of_ne _ hne _).trans hnone
      | some account =>
        cases h
        exact (getElem?_insert_of_ne _ hne _).trans hnone

/-- What is not cached may be left out. -/
theorem settleSlots_filter {j : Journal Database} {p : Slot → Bool}
    (h : ∀ s, p s = false → j.slots[s]? = none) (keys : List Slot) :
    (keys.filter p).forM settleSlot j = keys.forM settleSlot j := by
  refine forM_filter (fun j' => ∀ s, p s = false → j'.slots[s]? = none) ?_ ?_ keys h
  · intro s j' hj' hs
    exact settleSlot_of_not_cached (hj' s hs)
  · intro s j' j'' hj' hsettle r hr
    exact settleSlot_slot_none hsettle (hj' r hr)

theorem settleAccounts_filter {j : Journal Database} {p : Address → Bool}
    (h : ∀ a, p a = false → j.accounts[a]? = none) (keys : List Address) :
    (keys.filter p).forM settleAccount j = keys.forM settleAccount j := by
  refine forM_filter (fun j' => ∀ a, p a = false → j'.accounts[a]? = none) ?_ ?_ keys h
  · intro a j' hj' ha
    exact settleAccount_of_not_cached (hj' a ha)
  · intro a j' j'' hj' hsettle b hb
    exact settleAccount_account_none hsettle (hj' b hb)

/-- A settlement may go through all that is cached in the fuller state. -/
theorem Fuller.settleIn_ascending {j k : Journal Database} (h : Fuller j k) :
    Journal.settleIn k.ascending j = settle j := by
  have hslots : j.ascending.slots = k.ascending.slots.filter j.slots.contains :=
    keys_eq_filter _ h.slots
  have haccounts : j.ascending.accounts = k.ascending.accounts.filter j.accounts.contains :=
    keys_eq_filter _ h.accounts
  have hcodes : j.ascending.codes = k.ascending.codes :=
    congrArg Std.ExtTreeSet.toList h.newCode.symm
  have hslot : ∀ s, j.slots.contains s = false → j.dropDestroyed.slots[s]? = none := by
    intro s hs
    rw [Std.ExtTreeMap.contains_eq_isSome_getElem?, Option.isSome_eq_false_iff] at hs
    exact Option.isNone_iff_eq_none.mp hs
  obtain ⟨j1, hloop1, haccounts1, _⟩ :=
    SparesAccounts.forM .settleSlot k.ascending.slots j.dropDestroyed
  obtain ⟨j2, hloop2, haccounts2, _⟩ := SparesAccounts.forM .settleCode k.ascending.codes j1
  have haccount : ∀ a, j.accounts.contains a = false → j2.accounts[a]? = none := by
    intro a ha
    rw [Std.ExtTreeMap.contains_eq_isSome_getElem?, Option.isSome_eq_false_iff] at ha
    rw [haccounts2, haccounts1, dropDestroyed_accounts, Option.isNone_iff_eq_none.mp ha]
    rfl
  unfold settle Journal.settleIn
  simp only [bind_apply, get_apply, modify_apply, hslots, hcodes, haccounts,
    settleSlots_filter hslot, hloop1, hloop2, settleAccounts_filter haccount]

/-! ## What was read ahead -/

namespace Ahead

variable {A : Address → Prop} {S : Slot → Prop} {j k : Journal Database}

/-- A settlement does not tell a state from one that has read more: accounts that
    are to be deleted have been loaded, or are missing in the database, and slots
    come to the same in the database and in a cache. -/
structure Indifferent (A : Address → Prop) (S : Slot → Prop) (j : Journal Database) : Prop where
  accounts : ∀ a : Address, A a → j.isDestroyed a → j.accounts[a]? = none →
    j.backend.accounts[a]? = none
  slots : ∀ s : Slot, S s → j.slots[s]? = none → j.backend.storageValue s ≠ 0 →
    (j.isDestroyed s.address ↔ j.dropDestroyed.deletes s.address)

/-- What was read ahead was loaded as the database has it. -/
theorem accurate (h : Ahead A S j k) (haccurate : j.Accurate) : k.Accurate := by
  intro a cached hk
  rw [h.backend]
  cases hj : j.accounts[a]? with
  | some before =>
    have hbefore := h.accounts a before hj
    rw [hk] at hbefore
    cases hbefore
    exact haccurate a cached hj
  | none =>
    rw [h.account_ahead hj hk]
    rfl

/-- What a settlement makes of a slot that was read ahead is what it makes of the
    slot in the database. -/
theorem settled_initial (h : Ahead A S j k) (hsame : Indifferent A S j) {s : Slot}
    {value : SlotValue} (hS : S s) (hj : j.slots[s]? = none) (hk : k.slots[s]? = some value) :
    (k.settledSlot s value).initial =
      if j.dropDestroyed.deletes s.address then 0 else j.backend.storageValue s := by
  rw [h.slot_ahead hj hk]
  unfold settledSlot
  rw [h.isDestroyed_eq]
  by_cases hzero : j.backend.storageValue s = 0
  · rw [hzero]
    simp
  by_cases hgone : j.isDestroyed s.address
  · rw [if_pos hgone, if_pos ((hsame.slots s hS hj hzero).mp hgone)]
  · rw [if_neg hgone, if_neg (mt (hsame.slots s hS hj hzero).mpr hgone)]

/-- **A settlement keeps a state ahead**, and gives back the same logs. -/
theorem settle (h : Ahead A S j k) (haccurate : j.Accurate) (hsame : Indifferent A S j) :
    Matches (Ahead A S) (Journal.settle j) (Journal.settle k) := by
  have hmissing : ∀ a : Address, j.isDestroyed a → j.accounts[a]? = none →
      (k.accounts[a]?).isSome → j.backend.accounts[a]? = none :=
    fun a hgone hj hk => hsame.accounts a (h.looked a hj hk) hgone hj
  have hmatches := h.toFuller.settleIn hmissing k.ascending
  rw [h.settleIn_ascending, show Journal.settleIn k.ascending k = Journal.settle k from rfl]
    at hmatches
  obtain ⟨j', hj', hpassed⟩ := settle_passed haccurate.loaded
  obtain ⟨k', hk', hpassed'⟩ := settle_passed (h.accurate haccurate).loaded
  have hlogs : k.emitted = j.emitted := congrArg List.reverse h.logs
  rw [hlogs] at hk'
  rw [hj', hk'] at hmatches ⊢
  -- what is not cached afterwards was not cached before
  have haccount : ∀ a : Address, j'.accounts[a]? = none → j.accounts[a]? = none := by
    intro a hnone
    rw [hpassed.accounts, Option.map_eq_none_iff, dropDestroyed_accounts,
      Option.map_eq_none_iff] at hnone
    exact hnone
  have hslot : ∀ s : Slot, j'.slots[s]? = none → j.slots[s]? = none := by
    intro s hnone
    rw [hpassed.slots, Option.map_eq_none_iff] at hnone
    exact hnone
  cases hmatches with
  | ok logs hfuller =>
    refine .ok _ ⟨hfuller, ?_, ?_, ?_⟩
    · intro a hnone hsome
      rw [hpassed'.accounts, Option.isSome_map, dropDestroyed_accounts, Option.isSome_map] at hsome
      exact h.looked a (haccount a hnone) hsome
    · intro s value hnone hvalue
      have hbefore := hslot s hnone
      rw [hpassed'.slots] at hvalue
      obtain ⟨ahead, hahead, hvalue⟩ := Option.map_eq_some_iff.mp hvalue
      obtain ⟨hS, _⟩ := h.lookedSlots s ahead hbefore hahead
      refine ⟨hS, ?_⟩
      rw [hpassed.storage s hbefore, ← hvalue]
      exact h.settled_initial hsame hS hbefore hahead
    · intro s _ _ hcreated
      rw [hpassed.created] at hcreated
      exact absurd hcreated Std.ExtTreeSet.not_mem_empty

end Ahead

end Evm.Journal
