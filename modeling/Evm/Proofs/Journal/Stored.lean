import Evm.Proofs.Database
import Evm.Proofs.Journal.Codes
import Evm.Proofs.Journal.Settlement

/-! # What a settlement leaves in a database

    Slots, codes and accounts are settled in three loops, each over its keys in
    any order. For each loop it is said what the database and the cache are
    after the keys so far (`SlotsDone`, `CodesDone`, `AccountsDone`): settled
    at those keys, as before at the others. What the loop comes to does then
    not depend on the order.

    Slots may be cached with another value at the start than the database has,
    and codes may be missing. What is still true then (`SlotsPassed`, `Passed`)
    is enough for what becomes of the accounts and of the caches.

    Deleting an account also deletes slots that were written before, so only
    the three loops together give what the store has in the end: the accounts
    and slots that execution saw, and nothing at the accounts that are gone
    (`settleIn_stores`).
-/

namespace Evm.Journal

/-! ## Loops -/

/-- A loop keeps an invariant that speaks of the keys so far. -/
theorem forM_ok {β κ : Type} {f : κ → JournalM β Unit} {Inv : List κ → Journal β → Prop}
    {keys : List κ} {j : Journal β} (hstart : Inv [] j)
    (hround : ∀ done k rest j, keys = done ++ k :: rest → Inv done j →
      ∃ j', f k j = .ok () j' ∧ Inv (done ++ [k]) j') :
    ∃ j', keys.forM f j = .ok () j' ∧ Inv keys j' := by
  have hrest : ∀ (rest done : List κ) (j : Journal β), keys = done ++ rest → Inv done j →
      ∃ j', rest.forM f j = .ok () j' ∧ Inv keys j' := by
    intro rest
    induction rest with
    | nil =>
      intro done j hkeys hdone
      rw [List.append_nil] at hkeys
      rw [hkeys]
      exact ⟨j, rfl, hdone⟩
    | cons k rest ih =>
      intro done j hkeys hdone
      obtain ⟨j1, hk, hdone1⟩ := hround done k rest j hkeys hdone
      obtain ⟨j2, hloop, hall⟩ := ih (done ++ [k]) j1 (by rw [hkeys, List.append_cons]) hdone1
      refine ⟨j2, ?_, hall⟩
      show (f k >>= fun _ => rest.forM f) j = .ok () j2
      rw [bind_apply, hk]
      exact hloop
  exact hrest keys [] j rfl hstart

/-- The next key is not among those so far. -/
theorem not_mem_done {κ : Type} {keys done rest : List κ} {k : κ} (hnodup : keys.Nodup)
    (hkeys : keys = done ++ k :: rest) : k ∉ done := by
  rw [hkeys] at hnodup
  intro hmem
  exact (List.nodup_append.mp hnodup).2.2 k hmem k List.mem_cons_self rfl

/-! ## Slots -/

/-- A slot after it is settled. -/
def settledSlot (j : Journal Database) (s : Slot) (value : SlotValue) : SlotValue :=
  if j.isDestroyed s.address then ⟨0, 0⟩ else ⟨value.present, value.present⟩

/-- What the database has for a slot after it is settled; the slots of an
    account to be deleted are left for later. -/
def storedSlot (j : Journal Database) (s : Slot) : Word :=
  match j.slots[s]? with
  | some value => if j.isDestroyed s.address then j.backend.storageValue s else value.present
  | none => j.backend.storageValue s

/-- What settling one slot does: the slot is settled, and nothing happens to the
    others. In the database it is what it should be if the cache has its value
    at the start right. -/
structure SlotSettled (s : Slot) (j j' : Journal Database) : Prop where
  rest : j' = { j with backend := j'.backend, slots := j'.slots }
  backend : j'.backend = { j.backend with storage := j'.backend.storage }
  slot : j'.slots[s]? = (j.slots[s]?).map (j.settledSlot s)
  others : ∀ r, s ≠ r → j'.slots[r]? = j.slots[r]?
  unwritten : ∀ r, (s = r → j.slots[s]? = none) →
    j'.backend.storageValue r = j.backend.storageValue r
  stored : (∀ value, j.slots[s]? = some value → value.initial = j.backend.storageValue s) →
    j'.backend.storageValue s = j.storedSlot s

/-- **One slot.** -/
theorem settleSlot_settled (s : Slot) (j : Journal Database) :
    ∃ j', settleSlot s j = .ok () j' ∧ SlotSettled s j j' := by
  unfold settleSlot
  simp only [bind_apply, get_apply]
  cases hvalue : j.slots[s]? with
  | none =>
    refine ⟨j, rfl, rfl, rfl, ?_, fun _ _ => rfl, fun _ _ => rfl, fun _ => ?_⟩
    · rw [hvalue]
      rfl
    · unfold storedSlot
      rw [hvalue]
  | some value =>
    by_cases hgone : j.isDestroyed s.address
    · simp only [if_pos hgone]
      refine ⟨_, rfl, rfl, rfl, ?_, fun r hr => getElem?_insert_of_ne _ hr _, fun _ _ => rfl,
        fun _ => ?_⟩
      · rw [hvalue, Option.map_some, settledSlot, if_pos hgone]
        exact Std.ExtTreeMap.getElem?_insert_self
      · unfold storedSlot
        simp only [hvalue, if_pos hgone]
    have hsettled : j.settledSlot s value = ⟨value.present, value.present⟩ := if_neg hgone
    have hwritten : j.storedSlot s = value.present := by
      unfold storedSlot
      simp only [hvalue, if_neg hgone]
    by_cases hsame : value.present = value.initial
    · simp only [if_neg hgone, if_pos hsame]
      refine ⟨j, rfl, rfl, rfl, ?_, fun _ _ => rfl, fun _ _ => rfl, fun hinitial => ?_⟩
      · rw [hvalue, Option.map_some, hsettled]
        cases value
        cases hsame
        rfl
      · -- a slot that did not change is in the store as it is
        rw [hwritten, hsame, hinitial value hvalue]
    · simp only [if_neg hgone, if_neg hsame]
      refine ⟨_, rfl, rfl, ?_, ?_, fun r hr => getElem?_insert_of_ne _ hr _, ?_, fun _ => ?_⟩
      · show j.backend.insertStorage s value.present = _
        unfold Database.insertStorage
        split <;> rfl
      · rw [hvalue, Option.map_some, hsettled]
        exact Std.ExtTreeMap.getElem?_insert_self
      · intro r hr
        have hne : s ≠ r := by
          rintro rfl
          rw [hr rfl] at hvalue
          cases hvalue
        exact (Database.storageValue_insertStorage _ _ _ _).trans (if_neg hne)
      · rw [hwritten]
        exact (Database.storageValue_insertStorage _ _ _ _).trans (if_pos rfl)

/-- The slots so far are settled in the cache, and nothing was written for those
    that are not cached. -/
structure SlotsPassed (b : Journal Database) (done : List Slot) (j : Journal Database) : Prop where
  rest : j = { b with backend := j.backend, slots := j.slots }
  backend : j.backend = { b.backend with storage := j.backend.storage }
  slots : ∀ s, j.slots[s]? = if s ∈ done then (b.slots[s]?).map (b.settledSlot s) else b.slots[s]?
  unwritten : ∀ s, b.slots[s]? = none → j.backend.storageValue s = b.backend.storageValue s

/-- One more slot is settled. -/
theorem SlotsPassed.add {b j j' : Journal Database} {done : List Slot} {s : Slot}
    (h : SlotsPassed b done j) (hnew : s ∉ done) (hs : SlotSettled s j j') :
    SlotsPassed b (done ++ [s]) j' := by
  have hslot : j.slots[s]? = b.slots[s]? := (h.slots s).trans (if_neg hnew)
  refine ⟨?_, ?_, ?_, ?_⟩
  · rw [hs.rest, h.rest]
  · rw [hs.backend, h.backend]
  · intro r
    by_cases hr : s = r
    · subst hr
      have hsame : j.settledSlot s = b.settledSlot s := by
        rw [h.rest]
        rfl
      rw [if_pos (by simp), hs.slot, hslot, hsame]
    · rw [hs.others r hr, h.slots r]
      simp [Ne.symm hr]
  · intro r hnone
    refine (hs.unwritten r ?_).trans (h.unwritten r hnone)
    rintro rfl
    rw [hslot, hnone]

/-- Once all slots that are cached are passed, all slots of the cache are
    settled. -/
theorem SlotsPassed.all {b j : Journal Database} {done : List Slot} (h : SlotsPassed b done j)
    (hall : ∀ s, s ∈ done ↔ (b.slots[s]?).isSome) (s : Slot) :
    j.slots[s]? = (b.slots[s]?).map (b.settledSlot s) := by
  rw [h.slots]
  by_cases hs : s ∈ done
  · rw [if_pos hs]
  · have hnone : b.slots[s]? = none := Option.not_isSome_iff_eq_none.mp (mt (hall s).mpr hs)
    rw [if_neg hs, hnone, Option.map_none]

/-- **All slots**, whatever the cache has of them. -/
theorem settleSlots_passed (b : Journal Database) {keys : List Slot} (hnodup : keys.Nodup) :
    ∃ j, keys.forM settleSlot b = .ok () j ∧ SlotsPassed b keys j := by
  have hstart : SlotsPassed b [] b :=
    ⟨rfl, rfl, fun _ => (if_neg List.not_mem_nil).symm, fun _ _ => rfl⟩
  refine forM_ok hstart ?_
  intro done s rest j hkeys hdone
  obtain ⟨j', hs, hsettled⟩ := settleSlot_settled s j
  exact ⟨j', hs, hdone.add (not_mem_done hnodup hkeys) hsettled⟩

/-- The slots so far are settled. -/
structure SlotsDone (b : Journal Database) (done : List Slot) (j : Journal Database) : Prop where
  rest : j = { b with backend := j.backend, slots := j.slots }
  backend : j.backend = { b.backend with storage := j.backend.storage }
  slots : ∀ s, j.slots[s]? = if s ∈ done then (b.slots[s]?).map (b.settledSlot s) else b.slots[s]?
  stored : ∀ s, j.backend.storageValue s =
    if s ∈ done then b.storedSlot s else b.backend.storageValue s

namespace SlotsDone

variable {b j : Journal Database} {done : List Slot} {s : Slot}

theorem start (b : Journal Database) : SlotsDone b [] b where
  rest := rfl
  backend := rfl
  slots _ := (if_neg List.not_mem_nil).symm
  stored _ := (if_neg List.not_mem_nil).symm

theorem passed (h : SlotsDone b done j) : SlotsPassed b done j := by
  refine ⟨h.rest, h.backend, h.slots, ?_⟩
  intro s hnone
  have hsame : b.storedSlot s = b.backend.storageValue s := by
    unfold storedSlot
    rw [hnone]
  rw [h.stored, hsame, ite_self]

/-- One more slot is settled, in the cache and in the database. -/
theorem round (h : SlotsDone b done j) (hnew : s ∉ done)
    (hinitial : ∀ value, b.slots[s]? = some value → value.initial = b.backend.storageValue s) :
    ∃ j', settleSlot s j = .ok () j' ∧ SlotsDone b (done ++ [s]) j' := by
  obtain ⟨j', hs, hsettled⟩ := settleSlot_settled s j
  have hslot : j.slots[s]? = b.slots[s]? := (h.slots s).trans (if_neg hnew)
  have hstored : j.backend.storageValue s = b.backend.storageValue s :=
    (h.stored s).trans (if_neg hnew)
  have hpassed := h.passed.add hnew hsettled
  refine ⟨j', hs, hpassed.rest, hpassed.backend, hpassed.slots, ?_⟩
  intro r
  by_cases hr : s = r
  · subst hr
    have hsame : j.storedSlot s = b.storedSlot s := by
      have hdestroyed : j.isDestroyed s.address = b.isDestroyed s.address := by
        rw [h.rest]
        rfl
      unfold storedSlot
      rw [hslot, hstored, hdestroyed]
    rw [if_pos (by simp), ← hsame]
    refine hsettled.stored fun value hvalue => ?_
    rw [hslot] at hvalue
    rw [hstored, hinitial value hvalue]
  · rw [hsettled.unwritten r fun heq => absurd heq hr, h.stored r]
    simp [Ne.symm hr]

/-- Once all slots that are cached are settled, all slots of the database are as
    they should be. -/
theorem all (h : SlotsDone b done j) (hall : ∀ s, s ∈ done ↔ (b.slots[s]?).isSome) :
    (∀ s, j.slots[s]? = (b.slots[s]?).map (b.settledSlot s)) ∧
      ∀ s, j.backend.storageValue s = b.storedSlot s := by
  refine ⟨h.passed.all hall, ?_⟩
  intro s
  rw [h.stored]
  split
  · rfl
  · next hs =>
    unfold storedSlot
    rw [Option.not_isSome_iff_eq_none.mp (mt (hall s).mpr hs)]

end SlotsDone

/-- **All slots**, if the cache has their values at the start right. -/
theorem settleSlots {b : Journal Database} {keys : List Slot} (hnodup : keys.Nodup)
    (hinitial : ∀ s value, b.slots[s]? = some value → value.initial = b.backend.storageValue s) :
    ∃ j, keys.forM settleSlot b = .ok () j ∧ SlotsDone b keys j :=
  forM_ok (.start b) fun _ s _ _ hkeys hdone =>
    hdone.round (not_mem_done hnodup hkeys) (hinitial s)

/-! ## Codes -/

/-- The codes so far are in the database. -/
structure CodesDone (b : Journal Database) (done : List Hash) (j : Journal Database) : Prop where
  rest : j = { b with backend := j.backend }
  backend : j.backend = { b.backend with code := j.backend.code }
  stored : ∀ hash, j.backend.code? hash =
    if hash ∈ done then b.codes[hash]? else b.backend.code? hash

namespace CodesDone

variable {b j : Journal Database} {done : List Hash} {hash : Hash}

theorem start (b : Journal Database) : CodesDone b [] b where
  rest := rfl
  backend := rfl
  stored _ := (if_neg List.not_mem_nil).symm

/-- **One code.** -/
theorem round (h : CodesDone b done j) {c : Bytes} (hknown : b.codes[hash]? = some c)
    (hne : hash ≠ emptyCodeHash) :
    ∃ j', settleCode hash j = .ok () j' ∧ CodesDone b (done ++ [hash]) j' := by
  have hcodes : j.codes = b.codes := by rw [h.rest]
  unfold settleCode
  simp only [bind_apply, get_apply, hcodes, hknown]
  refine ⟨_, rfl, ⟨?_, ?_, ?_⟩⟩
  · rw [h.rest]
  · show j.backend.insertCode hash c = _
    unfold Database.insertCode
    rw [if_neg hne, h.backend]
  · intro hash'
    rw [Database.code?_insertCode _ _ _ _ hne]
    by_cases hh : hash = hash'
    · subst hh
      rw [if_pos rfl, if_pos (by simp), hknown]
    · rw [if_neg hh, h.stored]
      simp [Ne.symm hh]

end CodesDone

/-- **All codes.** -/
theorem settleCodes {b : Journal Database} {keys : List Hash}
    (hknown : ∀ hash ∈ keys, hash ≠ emptyCodeHash ∧ ∃ c, b.codes[hash]? = some c) :
    ∃ j, keys.forM settleCode b = .ok () j ∧ CodesDone b keys j := by
  refine forM_ok (.start b) ?_
  intro done hash rest j hkeys hdone
  obtain ⟨hne, c, hc⟩ := hknown hash (by rw [hkeys]; simp)
  exact hdone.round hc hne

/-! ## Accounts -/

/-- What is left of an account after it is settled. -/
def settledAccount (cached : CachedAccount) : Option Account :=
  if cached.present = cached.loaded then cached.present
  else cached.present.filter fun account => !account.isEmpty

/-- The cache entry of an account after it is settled. -/
def settledCache (cached : CachedAccount) : CachedAccount :=
  ⟨settledAccount cached, settledAccount cached⟩

/-- The account of the database after it is settled. -/
def storedAccount (j : Journal Database) (a : Address) : Option Account :=
  match j.accounts[a]? with
  | some cached => settledAccount cached
  | none => j.backend.accounts[a]?

/-- Whether settling deletes the account. -/
def deletes (j : Journal Database) (a : Address) : Bool :=
  match j.accounts[a]? with
  | some cached => cached.present ≠ cached.loaded ∧ settledAccount cached = none
  | none => false

/-- The accounts so far are settled, and of those that were deleted the slots
    are gone as well. -/
structure AccountsDone (b : Journal Database) (done : List Address) (j : Journal Database) :
    Prop where
  rest : j = { b with backend := j.backend, accounts := j.accounts }
  backend : j.backend =
    { b.backend with accounts := j.backend.accounts, storage := j.backend.storage }
  accounts : ∀ a, j.accounts[a]? =
    if a ∈ done then (b.accounts[a]?).map settledCache else b.accounts[a]?
  stored : ∀ a, j.backend.accounts[a]? =
    if a ∈ done then b.storedAccount a else b.backend.accounts[a]?
  storage : ∀ s, j.backend.storageValue s =
    if s.address ∈ done ∧ b.deletes s.address then 0 else b.backend.storageValue s

namespace AccountsDone

variable {b j : Journal Database} {done : List Address} {a : Address}

theorem start (b : Journal Database) : AccountsDone b [] b where
  rest := rfl
  backend := rfl
  accounts _ := (if_neg List.not_mem_nil).symm
  stored _ := (if_neg List.not_mem_nil).symm
  storage _ := (if_neg fun h => List.not_mem_nil h.1).symm

/-- One more account is settled, and nothing happened to the others. -/
theorem add (h : AccountsDone b done j)
    {accounts : Std.ExtTreeMap Address CachedAccount compare} {backend : Database}
    (hbackend : backend =
      { b.backend with accounts := backend.accounts, storage := backend.storage })
    (haccount : accounts[a]? = (b.accounts[a]?).map settledCache)
    (haccounts : ∀ a', a ≠ a' → accounts[a']? = j.accounts[a']?)
    (hstored : backend.accounts[a]? = b.storedAccount a)
    (hothers : ∀ a', a ≠ a' → backend.accounts[a']? = j.backend.accounts[a']?)
    (hstorage : ∀ s, backend.storageValue s =
      if s.address = a ∧ b.deletes a then 0 else j.backend.storageValue s) :
    AccountsDone b (done ++ [a]) { j with backend, accounts } := by
  refine ⟨?_, hbackend, ?_, ?_, ?_⟩
  · rw [h.rest]
  · intro a'
    by_cases ha : a = a'
    · subst ha
      rw [if_pos (by simp), haccount]
    · rw [haccounts a' ha, h.accounts a']
      simp [Ne.symm ha]
  · intro a'
    by_cases ha : a = a'
    · subst ha
      rw [if_pos (by simp), hstored]
    · rw [hothers a' ha, h.stored a']
      simp [Ne.symm ha]
  · intro s
    rw [hstorage s, h.storage s]
    by_cases hs : s.address = a
    · subst hs
      by_cases hd : b.deletes s.address <;> simp [hd]
    · simp [hs]

/-- **One account.** -/
theorem round (h : AccountsDone b done j) (hnew : a ∉ done)
    (hloaded : ∀ cached, b.accounts[a]? = some cached → cached.loaded = b.backend.accounts[a]?) :
    ∃ j', settleAccount a j = .ok () j' ∧ AccountsDone b (done ++ [a]) j' := by
  have haccount : j.accounts[a]? = b.accounts[a]? := (h.accounts a).trans (if_neg hnew)
  have hstored : j.backend.accounts[a]? = b.backend.accounts[a]? :=
    (h.stored a).trans (if_neg hnew)
  have hadd := @AccountsDone.add b j done a h
  unfold storedAccount deletes settledCache at hadd
  unfold settleAccount
  simp only [bind_apply, get_apply, haccount]
  cases hcached : b.accounts[a]? with
  | none =>
    rw [hcached] at hadd haccount
    refine ⟨j, rfl, hadd h.backend haccount (fun _ _ => rfl) hstored (fun _ _ => rfl) ?_⟩
    intro s
    simp
  | some cached =>
    rw [hcached] at hadd haccount
    simp only [Option.map_some] at hadd
    have hread := hloaded cached hcached
    by_cases hsame : cached.present = cached.loaded
    · -- an account that did not change is in the store as it is
      simp only [if_pos hsame]
      have hkept : settledAccount cached = cached.present := if_pos hsame
      simp only [hkept] at hadd
      refine ⟨j, rfl, hadd h.backend ?_ (fun _ _ => rfl) ?_ (fun _ _ => rfl) ?_⟩
      · cases cached
        cases hsame
        exact haccount
      · rw [hstored, hsame, hread]
      · intro s
        simp [hsame]
    simp only [if_neg hsame]
    have hkept : settledAccount cached = cached.present.filter fun account => !account.isEmpty :=
      if_neg hsame
    rw [← hkept]
    cases hleft : settledAccount cached with
    | some account =>
      simp only [hleft] at hadd
      refine ⟨_, rfl, hadd ?_ Std.ExtTreeMap.getElem?_insert_self ?_
        Std.ExtTreeMap.getElem?_insert_self ?_ ?_⟩
      · rw [h.backend]
        rfl
      · exact fun a' ha => getElem?_insert_of_ne _ ha _
      · exact fun a' ha => getElem?_insert_of_ne _ ha _
      · intro s
        simp
        rfl
    | none =>
      simp only [hleft] at hadd
      refine ⟨_, rfl, hadd ?_ Std.ExtTreeMap.getElem?_insert_self ?_
        Std.ExtTreeMap.getElem?_erase_self ?_ ?_⟩
      · rw [h.backend]
        rfl
      · exact fun a' ha => getElem?_insert_of_ne _ ha _
      · exact fun a' ha => getElem?_erase_of_ne _ ha
      · intro s
        rw [Database.storageValue_eraseAccount]
        simp [hsame]

/-- Once all accounts that are cached are settled, all accounts of the database
    are as they should be. -/
theorem all (h : AccountsDone b done j) (hall : ∀ a, a ∈ done ↔ (b.accounts[a]?).isSome) :
    (∀ a : Address, j.accounts[a]? = (b.accounts[a]?).map settledCache) ∧
      (∀ a, j.backend.accounts[a]? = b.storedAccount a) ∧
      ∀ s, j.backend.storageValue s =
        if b.deletes s.address then 0 else b.backend.storageValue s := by
  have hnone : ∀ a, a ∉ done → b.accounts[a]? = none :=
    fun a ha => Option.not_isSome_iff_eq_none.mp (mt (hall a).mpr ha)
  refine ⟨?_, ?_, ?_⟩
  · intro a
    rw [h.accounts]
    split
    · rfl
    · next ha => rw [hnone a ha, Option.map_none]
  · intro a
    rw [h.stored]
    split
    · rfl
    · next ha =>
      unfold storedAccount
      rw [hnone a ha]
  · intro s
    rw [h.storage]
    by_cases ha : s.address ∈ done
    · simp only [ha, true_and]
    · -- what is not cached is not deleted
      have hkept : b.deletes s.address = false := by
        unfold deletes
        rw [hnone s.address ha]
      simp [hkept]

end AccountsDone

/-- **All accounts.** -/
theorem settleAccounts {b : Journal Database} {keys : List Address} (hnodup : keys.Nodup)
    (hloaded : ∀ (a : Address) (cached : CachedAccount), b.accounts[a]? = some cached →
      cached.loaded = b.backend.accounts[a]?) :
    ∃ j, keys.forM settleAccount b = .ok () j ∧ AccountsDone b keys j :=
  forM_ok (.start b) fun _ a _ _ hkeys hdone =>
    hdone.round (not_mem_done hnodup hkeys) (hloaded a)

/-! ## The whole settlement -/

/-- An order in which everything that may have to be written comes up once. -/
structure Orders (j : Journal Database) (order : WriteOrder) : Prop where
  slots : order.slots.Perm j.slots.keys
  codes : order.codes.Perm j.newCode.toList
  accounts : order.accounts.Perm j.accounts.keys

theorem orders_ascending (j : Journal Database) : j.Orders j.ascending := ⟨.rfl, .rfl, .rfl⟩

theorem dropDestroyed_accounts (j : Journal Database) (a : Address) :
    j.dropDestroyed.accounts[a]? = (j.accounts[a]?).map fun cached =>
      if j.isDestroyed a then { cached with present := none } else cached :=
  Std.ExtTreeMap.getElem?_map

/-- Everything is settled, which began by dropping the destroyed accounts. -/
structure Settled (j j' : Journal Database) : Prop where
  accounts : ∀ a : Address, j'.accounts[a]? = (j.dropDestroyed.accounts[a]?).map settledCache
  slots : ∀ s : Slot, j'.slots[s]? = (j.slots[s]?).map (j.settledSlot s)
  codes : j'.codes = j.codes
  ended : j'.newCode = ∅ ∧ j'.created = ∅ ∧ j'.destroyed = ∅
  storedAccounts : ∀ a, j'.backend.accounts[a]? = j.dropDestroyed.storedAccount a
  storedSlots : ∀ s, j'.backend.storageValue s =
    if j.dropDestroyed.deletes s.address then 0 else j.storedSlot s
  storedCodes : ∀ hash, j'.backend.code? hash =
    if hash ∈ j.newCode then j.codes[hash]? else j.backend.code? hash
  blockHashes : j'.backend.blockHashes = j.backend.blockHashes

/-- The three loops together. -/
theorem Settled.of_done {j j1 j2 j3 : Journal Database} {order : WriteOrder}
    (horder : j.Orders order) (h1 : SlotsDone j.dropDestroyed order.slots j1)
    (h2 : CodesDone j1 order.codes j2) (h3 : AccountsDone j2 order.accounts j3) :
    Settled j j3.endTransaction.2 := by
  have haccounts2 : j2.accounts = j.dropDestroyed.accounts := by rw [h2.rest, h1.rest]
  have hstored2 : j2.backend.accounts = j.backend.accounts := by rw [h2.backend, h1.backend]; rfl
  have hslots1 : ∀ s, s ∈ order.slots ↔ (j.dropDestroyed.slots[s]?).isSome := by
    intro s
    rw [horder.slots.mem_iff, Std.ExtTreeMap.mem_keys, Std.ExtTreeMap.mem_iff_isSome_getElem?]
    rfl
  have haccounts3 : ∀ a, a ∈ order.accounts ↔ (j2.accounts[a]?).isSome := by
    intro a
    rw [horder.accounts.mem_iff, Std.ExtTreeMap.mem_keys, Std.ExtTreeMap.mem_iff_isSome_getElem?,
      haccounts2, dropDestroyed_accounts, Option.isSome_map]
  obtain ⟨hslots, hstorage⟩ := h1.all hslots1
  obtain ⟨haccounts, hstored, herased⟩ := h3.all haccounts3
  constructor
  · intro a
    rw [← haccounts2]
    exact haccounts a
  · intro s
    have hsame : j3.slots = j1.slots := by rw [h3.rest, h2.rest]
    exact (congrArg (·[s]?) hsame).trans (hslots s)
  · show j3.codes = j.codes
    rw [h3.rest, h2.rest, h1.rest]
    rfl
  · exact ⟨rfl, rfl, rfl⟩
  · intro a
    refine (hstored a).trans ?_
    unfold storedAccount
    rw [haccounts2, hstored2]
    rfl
  · intro s
    have hdeletes : j2.deletes s.address = j.dropDestroyed.deletes s.address := by
      unfold deletes
      rw [haccounts2]
    have hsame : j2.backend.storageValue s = j1.backend.storageValue s := by
      unfold Database.storageValue
      rw [h2.backend]
    refine (herased s).trans ?_
    rw [hdeletes, hsame, hstorage s]
    rfl
  · intro hash
    have hsame : j3.backend.code? hash = j2.backend.code? hash := by
      unfold Database.code?
      rw [h3.backend]
    have hbefore : j1.backend.code? hash = j.backend.code? hash := by
      unfold Database.code?
      rw [h1.backend]
      rfl
    have hcodes : j1.codes = j.codes := by rw [h1.rest]; rfl
    refine (hsame.trans (h2.stored hash)).trans ?_
    rw [hbefore, hcodes]
    simp only [horder.codes.mem_iff, Std.ExtTreeSet.mem_toList]
  · show j3.backend.blockHashes = _
    rw [h3.backend, h2.backend, h1.backend]
    rfl

/-- **A settlement over a database succeeds**, in any order, and the logs come
    back. -/
theorem settleIn_settled {db : Database} {j : Journal Database} {order : WriteOrder}
    (h : Linked db j) (horder : j.Orders order)
    (hcodes : ∀ hash ∈ j.newCode, hash ≠ emptyCodeHash ∧ ∃ c, j.codes[hash]? = some c) :
    ∃ j', settleIn order j = .ok j.emitted j' ∧ Settled j j' := by
  have hinitial : ∀ (s : Slot) (value : SlotValue), j.dropDestroyed.slots[s]? = some value →
      value.initial = j.dropDestroyed.backend.storageValue s := by
    intro s value hvalue
    have hbackend : j.dropDestroyed.backend = db := h.backend
    rw [hbackend]
    exact h.initial s value hvalue
  obtain ⟨j1, hloop1, h1⟩ :=
    settleSlots (horder.slots.nodup_iff.mpr Std.ExtTreeMap.nodup_keys) hinitial
  have hknown : ∀ hash ∈ order.codes, hash ≠ emptyCodeHash ∧ ∃ c, j1.codes[hash]? = some c := by
    intro hash hmem
    rw [h1.rest]
    exact hcodes hash (Std.ExtTreeSet.mem_toList.mp (horder.codes.mem_iff.mp hmem))
  obtain ⟨j2, hloop2, h2⟩ := settleCodes hknown
  have hloaded : ∀ (a : Address) (cached : CachedAccount), j2.accounts[a]? = some cached →
      cached.loaded = j2.backend.accounts[a]? := by
    intro a cached hcached
    rw [h2.rest, h1.rest] at hcached
    rw [h2.backend, h1.backend]
    show cached.loaded = j.backend.accounts[a]?
    obtain ⟨c, hc, rfl⟩ :=
      Option.map_eq_some_iff.mp ((dropDestroyed_accounts j a).symm.trans hcached)
    rw [h.backend, ← h.loaded a c hc]
    split <;> rfl
  obtain ⟨j3, hloop3, h3⟩ :=
    settleAccounts (horder.accounts.nodup_iff.mpr Std.ExtTreeMap.nodup_keys) hloaded
  refine ⟨j3.endTransaction.2, ?_, .of_done horder h1 h2 h3⟩
  have hlogs : j3.emitted = j.emitted := by
    rw [h3.rest, h2.rest, h1.rest]
    rfl
  unfold settleIn
  simp only [bind_apply, modify_apply, hloop1, hloop2, hloop3]
  rw [← hlogs]
  rfl

/-! ## Accounts alone -/

/-- An operation that does nothing to the accounts, neither in the cache nor in
    the database, and does not fail. -/
def SparesAccounts (op : JournalM Database Unit) : Prop :=
  ∀ j, ∃ j', op j = .ok () j' ∧ j'.accounts = j.accounts ∧
    j'.backend.accounts = j.backend.accounts

namespace SparesAccounts

theorem settleSlot (s : Slot) : SparesAccounts (settleSlot s) := by
  intro j
  obtain ⟨j', hs, hsettled⟩ := settleSlot_settled s j
  refine ⟨j', hs, ?_, ?_⟩
  · rw [hsettled.rest]
  · rw [hsettled.backend]

theorem settleCode (hash : Hash) : SparesAccounts (settleCode hash) := by
  intro j
  unfold Journal.settleCode
  simp only [bind_apply, get_apply]
  cases j.codes[hash]? with
  | none => exact ⟨_, rfl, rfl, rfl⟩
  | some code =>
    refine ⟨_, rfl, rfl, ?_⟩
    simp only [Database.insertCode]
    split <;> rfl

theorem forM {κ : Type} {f : κ → JournalM Database Unit} (h : ∀ k, SparesAccounts (f k))
    (keys : List κ) : SparesAccounts (keys.forM f) := by
  intro j
  let Inv (_ : List κ) (j' : Journal Database) : Prop :=
    j'.accounts = j.accounts ∧ j'.backend.accounts = j.backend.accounts
  have hstart : Inv [] j := ⟨rfl, rfl⟩
  refine forM_ok hstart ?_
  intro _ k _ j1 _ hj1
  obtain ⟨j2, hk, haccounts, hstored⟩ := h k j1
  exact ⟨j2, hk, haccounts.trans hj1.1, hstored.trans hj1.2⟩

end SparesAccounts

/-! ## Settling anything -/

/-- Writing codes does nothing to accounts, slots or caches. -/
theorem settleCodes_passed (b : Journal Database) (keys : List Hash) :
    ∃ j, keys.forM settleCode b = .ok () j ∧
      j = { b with backend := { b.backend with code := j.backend.code } } := by
  let Inv (_ : List Hash) (j : Journal Database) : Prop :=
    j = { b with backend := { b.backend with code := j.backend.code } }
  have hstart : Inv [] b := rfl
  refine forM_ok hstart ?_
  intro _ hash _ j _ hj
  unfold settleCode
  simp only [bind_apply, get_apply]
  cases j.codes[hash]? with
  | none => exact ⟨j, rfl, hj⟩
  | some code =>
    refine ⟨_, rfl, ?_⟩
    show ({ j with backend := j.backend.insertCode hash code } : Journal Database) = _
    unfold Database.insertCode
    split
    · exact hj
    · rw [hj]

/-- What a settlement makes of the caches, the accounts, and the slots that are
    not cached. -/
structure Passed (j j' : Journal Database) : Prop where
  accounts : ∀ a : Address, j'.accounts[a]? = (j.dropDestroyed.accounts[a]?).map settledCache
  storedAccounts : ∀ a, j'.backend.accounts[a]? = j.dropDestroyed.storedAccount a
  slots : ∀ s : Slot, j'.slots[s]? = (j.slots[s]?).map (j.settledSlot s)
  storage : ∀ s : Slot, j.slots[s]? = none → j'.backend.storageValue s =
    if j.dropDestroyed.deletes s.address then 0 else j.backend.storageValue s
  created : j'.created = ∅
  entries : j'.entries = []

/-- **A settlement succeeds**, whatever codes and values at the start are cached,
    if the cached accounts were loaded as the database has them. -/
theorem settle_passed {j : Journal Database} (hloaded : ∀ (a : Address) (cached : CachedAccount),
    j.accounts[a]? = some cached → cached.loaded = j.backend.accounts[a]?) :
    ∃ j', settle j = .ok j.emitted j' ∧ Passed j j' := by
  have hnodup : j.ascending.slots.Nodup := Std.ExtTreeMap.nodup_keys
  have hnodup' : j.ascending.accounts.Nodup := Std.ExtTreeMap.nodup_keys
  obtain ⟨j1, hloop1, h1⟩ := settleSlots_passed j.dropDestroyed hnodup
  obtain ⟨j2, hloop2, h2⟩ := settleCodes_passed j1 j.ascending.codes
  have hcached : j2.accounts = j.dropDestroyed.accounts := by rw [h2, h1.rest]
  have hstored : j2.backend.accounts = j.backend.accounts := by
    rw [h2, h1.backend]
    rfl
  have hdropped : ∀ (a : Address) (cached : CachedAccount), j2.accounts[a]? = some cached →
      cached.loaded = j2.backend.accounts[a]? := by
    intro a cached hmem
    rw [hcached, dropDestroyed_accounts] at hmem
    obtain ⟨before, hbefore, rfl⟩ := Option.map_eq_some_iff.mp hmem
    rw [hstored, ← hloaded a before hbefore]
    split <;> rfl
  obtain ⟨j3, hloop3, h3⟩ := settleAccounts hnodup' hdropped
  have hslots : ∀ s, s ∈ j.ascending.slots ↔ (j.dropDestroyed.slots[s]?).isSome :=
    fun s => Std.ExtTreeMap.mem_keys.trans Std.ExtTreeMap.mem_iff_isSome_getElem?
  have haccounts : ∀ a, a ∈ j.ascending.accounts ↔ (j2.accounts[a]?).isSome := by
    intro a
    rw [hcached, dropDestroyed_accounts, Option.isSome_map]
    exact Std.ExtTreeMap.mem_keys.trans Std.ExtTreeMap.mem_iff_isSome_getElem?
  obtain ⟨hsettled, hwritten, herased⟩ := h3.all haccounts
  have hlogs : j3.emitted = j.emitted := by
    rw [h3.rest, h2, h1.rest]
    rfl
  refine ⟨j3.endTransaction.2, ?_, ?_, ?_, ?_, ?_, rfl, rfl⟩
  · unfold settle settleIn
    simp only [bind_apply, get_apply, modify_apply, hloop1, hloop2, hloop3]
    rw [← hlogs]
    rfl
  · intro a
    rw [← hcached]
    exact hsettled a
  · intro a
    refine (hwritten a).trans ?_
    unfold storedAccount
    rw [hcached, hstored]
    rfl
  · intro s
    have hsame : j3.slots = j1.slots := by rw [h3.rest, h2]
    exact (congrArg (·[s]?) hsame).trans (h1.all hslots s)
  · intro s hnone
    have hdeletes : j2.deletes s.address = j.dropDestroyed.deletes s.address := by
      unfold deletes
      rw [hcached]
    have hsame : j2.backend.storageValue s = j.backend.storageValue s := by
      rw [h2]
      exact h1.unwritten s hnone
    refine (herased s).trans ?_
    rw [hdeletes, hsame]

/-- **What a settlement makes of the accounts** takes only that the cached ones
    were loaded as the database has them. -/
theorem settle_accounts {j : Journal Database} (hloaded : ∀ (a : Address) (cached : CachedAccount),
    j.accounts[a]? = some cached → cached.loaded = j.backend.accounts[a]?) :
    ∃ logs j', settle j = .ok logs j' ∧
      ∀ a, j'.backend.accounts[a]? = j.dropDestroyed.storedAccount a := by
  obtain ⟨j', hsettle, hpassed⟩ := settle_passed hloaded
  exact ⟨j.emitted, j', hsettle, hpassed.storedAccounts⟩

end Evm.Journal
