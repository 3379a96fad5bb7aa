import Evm.Proofs.Journal.Stored

/-! # The database after a script

    What a database holds once a script of operations on a state over it was
    settled: the accounts and slots that execution saw, nothing at the accounts
    that are gone, and the codes that were set and kept. The order of the
    writes does not show. Settling once more writes nothing, so that it
    succeeds even if every write is refused.
-/

namespace Evm.Journal

/-! ## The database shows what execution saw -/

/-- The account goes with the settlement: it is destroyed, or it was changed
    into an empty one. -/
def Gone (j : Journal Database) (a : Address) : Prop :=
  j.isDestroyed a ∨ ∃ cached account, j.accounts[a]? = some cached ∧
    cached.present = some account ∧ account.isEmpty ∧ cached.present ≠ cached.loaded

/-- Accounts and slots of a database are those that execution saw, except that
    nothing is left of the accounts that are gone. -/
structure Shows (j : Journal Database) (db : Database) : Prop where
  gone : ∀ a, j.Gone a → db.accounts[a]? = none ∧ ∀ key, db.storageValue ⟨a, key⟩ = 0
  accounts : ∀ a, ¬j.Gone a → j.presentAccount a = .ok db.accounts[a]?
  slots : ∀ s : Slot, ¬j.Gone s.address →
    ∃ j', Journal.storage s j = .ok (db.storageValue s) j'
  blockHashes : db.blockHashes = j.backend.blockHashes

namespace Settled

variable {db : Database} {j j' : Journal Database}

/-- Nothing is left of an account that was destroyed. If it was not in the
    database it is not deleted there, but then it has no slots either. -/
theorem destroyed (hs : Settled j j') (h : Linked db j)
    (howned : ∀ s, db.storageValue s ≠ 0 → (db.accounts[s.address]?).isSome) {a : Address}
    (ha : j.isDestroyed a) (hcached : (j.accounts[a]?).isSome) :
    j'.backend.accounts[a]? = none ∧ ∀ key, j'.backend.storageValue ⟨a, key⟩ = 0 := by
  obtain ⟨cached, hcached⟩ := Option.isSome_iff_exists.mp hcached
  have hdropped : j.dropDestroyed.accounts[a]? = some { cached with present := none } := by
    rw [dropDestroyed_accounts, hcached, Option.map_some, if_pos ha]
  have hnone : settledAccount { cached with present := none } = none := by
    unfold settledAccount
    split <;> rfl
  constructor
  · rw [hs.storedAccounts]
    unfold storedAccount
    rw [hdropped]
    exact hnone
  · intro key
    rw [hs.storedSlots]
    by_cases hloaded : cached.loaded = none
    · have hslot : j.storedSlot ⟨a, key⟩ = db.storageValue ⟨a, key⟩ := by
        unfold storedSlot
        rw [h.backend]
        cases j.slots[(⟨a, key⟩ : Slot)]? with
        | none => rfl
        | some value => exact if_pos ha
      have hzero : db.storageValue ⟨a, key⟩ = 0 := by
        apply Decidable.byContradiction
        intro hne
        have hsome := howned ⟨a, key⟩ hne
        rw [← h.loaded a cached hcached, hloaded] at hsome
        cases hsome
      rw [hslot, hzero, ite_self]
    · rw [if_pos]
      unfold deletes
      rw [hdropped]
      simp [hnone, Ne.symm hloaded]

/-- What a settlement makes of an account that is not destroyed. -/
theorem not_destroyed {a : Address} (ha : ¬j.isDestroyed a) :
    j.dropDestroyed.accounts[a]? = j.accounts[a]? := by
  rw [dropDestroyed_accounts]
  simp only [if_neg ha, Option.map_id']

/-- Nothing is left of an account that was changed into an empty one. -/
theorem emptied (hs : Settled j j') {a : Address} (ha : ¬j.isDestroyed a)
    {cached : CachedAccount} {account : Account} (hcached : j.accounts[a]? = some cached)
    (hpresent : cached.present = some account) (hempty : account.isEmpty)
    (hchanged : cached.present ≠ cached.loaded) :
    j'.backend.accounts[a]? = none ∧ ∀ key, j'.backend.storageValue ⟨a, key⟩ = 0 := by
  have hdropped := (not_destroyed ha).trans hcached
  have hnone : settledAccount cached = none := by
    unfold settledAccount
    rw [if_neg hchanged, hpresent]
    simp [hempty]
  constructor
  · rw [hs.storedAccounts]
    unfold storedAccount
    rw [hdropped]
    exact hnone
  · intro key
    rw [hs.storedSlots, if_pos]
    unfold deletes
    rw [hdropped]
    simp [hnone, hchanged]

/-- Every other account is left as execution saw it. -/
theorem kept {a : Address} (ha : ¬j.Gone a) {cached : CachedAccount}
    (hcached : j.accounts[a]? = some cached) : settledAccount cached = cached.present := by
  unfold settledAccount
  by_cases hsame : cached.present = cached.loaded
  · exact if_pos hsame
  rw [if_neg hsame]
  cases hpresent : cached.present with
  | none => rfl
  | some account =>
    have hfull : ¬account.isEmpty :=
      fun hempty => ha (.inr ⟨cached, account, hcached, hpresent, hempty, hsame⟩)
    simp [hfull]

theorem not_deleted (h : Linked db j) {a : Address} (ha : ¬j.Gone a) :
    j.dropDestroyed.deletes a = false := by
  unfold deletes
  rw [not_destroyed fun hd => ha (.inl hd)]
  cases hcached : j.accounts[a]? with
  | none => rfl
  | some cached =>
    have hkept := kept ha hcached
    simp only [hkept, decide_eq_false_iff_not, not_and]
    intro hchanged hmissing
    -- execution misses no account that the database has
    have hloaded := h.loaded a cached hcached
    rw [h.missing a cached hcached hmissing] at hloaded
    exact hchanged (hmissing.trans hloaded.symm)

/-- **After a settlement the database shows what execution saw.** -/
theorem shows (hs : Settled j j') (h : Linked db j)
    (hcached : ∀ a, j.isDestroyed a → (j.accounts[a]?).isSome)
    (howned : ∀ s, db.storageValue s ≠ 0 → (db.accounts[s.address]?).isSome) :
    j.Shows j'.backend where
  gone a ha := by
    by_cases hd : j.isDestroyed a
    · exact hs.destroyed h howned hd (hcached a hd)
    · rcases ha with hd' | ⟨cached, account, hc, hpresent, hempty, hchanged⟩
      · exact absurd hd' hd
      · exact hs.emptied hd hc hpresent hempty hchanged
  accounts a ha := by
    rw [h.presentAccount_eq, hs.storedAccounts]
    unfold storedAccount
    rw [not_destroyed fun hd => ha (.inl hd)]
    cases hc : j.accounts[a]? with
    | some cached => exact congrArg Except.ok (kept ha hc).symm
    | none =>
      show _ = Except.ok j.backend.accounts[a]?
      rw [h.backend]
      rfl
  slots s ha := by
    obtain ⟨j1, hread⟩ := h.storage_ok s
    refine ⟨j1, hread.trans ?_⟩
    have hkept : j'.backend.storageValue s = j.storedSlot s := by
      rw [hs.storedSlots, not_deleted h ha]
      exact if_neg Bool.false_ne_true
    rw [hkept]
    unfold storedSlot
    rw [h.backend]
    cases j.slots[s]? with
    | none => rfl
    | some value =>
      have hd : ¬j.isDestroyed s.address := fun hd => ha (.inl hd)
      simp only [if_neg hd]
      rfl
  blockHashes := hs.blockHashes

/-- A settled state is clean. -/
theorem clean (hs : Settled j j') : Clean j' where
  accounts a cached h := by
    rw [hs.accounts] at h
    obtain ⟨c, _, rfl⟩ := Option.map_eq_some_iff.mp h
    rfl
  slots s value h := by
    rw [hs.slots] at h
    obtain ⟨v, _, rfl⟩ := Option.map_eq_some_iff.mp h
    unfold settledSlot
    split <;> rfl
  newCode := hs.ended.1
  destroyed := hs.ended.2.2

end Settled

/-! ## Stores that would refuse -/

/-- A state over a database with a guard in front of it. -/
def behind (j : Journal Database) (refusal : Access → Option String) : Journal (Guarded Database) :=
  { j with backend := ⟨j.backend, refusal⟩ }

/-- **What is settled is not written again**: settling once more succeeds
    behind any guard, even one that refuses every write. -/
theorem Clean.settles_behind {j : Journal Database} (h : Clean j)
    (refusal : Access → Option String) {order : WriteOrder} (horder : j.Orders order) :
    ∃ logs j', Journal.settleIn order (j.behind refusal) = .ok logs j' ∧
      j'.backend = ⟨j.backend, refusal⟩ := by
  have hclean : Clean (j.behind refusal) := ⟨h.accounts, h.slots, h.newCode, h.destroyed⟩
  have hcodes : order.codes = [] := by
    have hperm := horder.codes
    rw [h.newCode] at hperm
    exact hperm.eq_nil
  exact hclean.settleIn order hcodes

/-! ## The theorem -/

/-- Only operations of the script are kept. -/
theorem keptOperations_subset {events : List Event} {op : Operation}
    (h : op ∈ keptOperations events) : .operation op ∈ events := by
  have hfold : ∀ (rest : List Event) (ops : List Operation) (saved : List (List Operation)),
      (∀ event ∈ rest, event ∈ events) → (∀ op ∈ ops, .operation op ∈ events) →
      (∀ old ∈ saved, ∀ op ∈ old, .operation op ∈ events) →
      ∀ op ∈ (rest.foldl (fun kept event => event.keep kept) (ops, saved)).1,
        .operation op ∈ events := by
    intro rest
    induction rest with
    | nil => exact fun ops _ _ hops _ => hops
    | cons event rest ih =>
      intro ops saved hrest hops hsaved
      have hevent := hrest event List.mem_cons_self
      have hrest' := fun e he => hrest e (List.mem_cons_of_mem event he)
      cases event with
      | operation op => exact ih _ _ hrest' (List.forall_mem_cons.mpr ⟨hevent, hops⟩) hsaved
      | snapshot => exact ih _ _ hrest' hops (List.forall_mem_cons.mpr ⟨hops, hsaved⟩)
      | commit => exact ih _ _ hrest' hops fun old hold => hsaved old (List.mem_of_mem_tail hold)
      | revert =>
        cases saved with
        | nil => exact ih _ _ hrest' hops hsaved
        | cons old saved =>
          obtain ⟨hold, hsaved⟩ := List.forall_mem_cons.mp hsaved
          exact ih _ _ hrest' hold hsaved
  exact hfold events [] [] (fun _ => id) nofun nofun op h

/-- The code that was last given was given. -/
theorem lastCode?_mem {ops : List Operation} {a : Address} {c : Bytes}
    (h : lastCode? ops a = some c) : .setCode a c ∈ ops := by
  obtain ⟨op, hop, hcode⟩ := List.exists_of_findSome?_eq_some h
  cases op with
  | setCode a' c' =>
    by_cases ha : a' = a
    · simp only [Operation.codeFor?, if_pos ha, Option.some.injEq] at hcode
      rw [← ha, ← hcode]
      exact hop
    · simp only [Operation.codeFor?, if_neg ha] at hcode
      cases hcode
  | _ => cases hcode

/-- **What a database holds after a script.** Take a state over a database and
    any operations on it, in nested scopes; the database has no slot under an
    address without an account or one that the script creates, every account
    that is destroyed was loaded, and the codes that were set do not collide.
    Then settling succeeds, in whichever order. Afterwards the database shows
    the accounts and slots that execution saw, and nothing where an account is
    gone; every code that was set and not undone is found by its hash, an
    account that is left has the hash of the last one it was given, and all
    other codes are as before. Settling once more writes nothing. -/
theorem settlement_after_script (db : Database) (events : List Event)
    (hslots : ∀ s : Slot, db.storageValue s ≠ 0 →
      (db.accounts[s.address]?).isSome ∧ .operation (.markCreated s.address) ∉ events)
    (hcollision : NoCollision events)
    (hdestroyed : ∀ a, (runScript (.ofBackend db) events).isDestroyed a →
      ((runScript (.ofBackend db) events).accounts[a]?).isSome)
    (order : WriteOrder) (horder : (runScript (.ofBackend db) events).Orders order) :
    let j := runScript (.ofBackend db) events
    let kept := keptOperations events
    ∃ j', settleIn order j = .ok j.emitted j' ∧ j.Shows j'.backend ∧
      (∀ a c, .setCode a c ∈ kept → j'.backend.code? (codeHashOf c) = some c) ∧
      (∀ a c, lastCode? kept a = some c → j.Gone a ∨ ∃ account,
        j'.backend.accounts[a]? = some account ∧ account.codeHash = codeHashOf c ∧
          j'.backend.code? account.codeHash = some c) ∧
      (∀ hash, ¬Queues kept hash → j'.backend.code? hash = db.code? hash) ∧
      ∀ (refusal : Access → Option String) (order' : WriteOrder), j'.Orders order' →
        ∃ logs j'', settleIn order' (j'.behind refusal) = .ok logs j'' ∧
          j''.backend = ⟨j'.backend, refusal⟩ := by
  intro j kept
  have hlinked : Linked db j := by
    refine linked_script ?_
    intro a hcreated key
    apply Decidable.byContradiction
    intro hne
    exact (hslots ⟨a, key⟩ hne).2 hcreated
  have hcodes : CodesOf kept j := codesOf_script db events
  have hknown : ∀ a c, .setCode a c ∈ kept → c.isEmpty = false →
      keccak256 c ∈ j.newCode ∧ keccak256 c ≠ emptyCodeHash ∧
        j.codes[keccak256 c]? = some c := by
    intro a c hkept hc
    have hset := keptOperations_subset hkept
    exact ⟨(hcodes.queued _).mpr ⟨a, c, hkept, hc, rfl⟩, (hcollision a c hset hc).1,
      known_script hcollision hset hc⟩
  obtain ⟨j', hsettle, hs⟩ := settleIn_settled hlinked horder (by
    intro hash hnew
    obtain ⟨a, c, hkept, hc, rfl⟩ := (hcodes.queued hash).mp hnew
    obtain ⟨_, hne, hcode⟩ := hknown a c hkept hc
    exact ⟨hne, c, hcode⟩)
  have hshows : j.Shows j'.backend := hs.shows hlinked hdestroyed fun s hs => (hslots s hs).1
  have hfound : ∀ a c, .setCode a c ∈ kept → j'.backend.code? (codeHashOf c) = some c := by
    intro a c hkept
    unfold codeHashOf
    by_cases hempty : c.isEmpty
    · rw [if_pos hempty]
      have hnone : c = ByteArray.empty := by
        rw [← ByteArray.size_eq_zero_iff]
        exact beq_iff_eq.mp hempty
      rw [hnone]
      exact if_pos rfl
    · rw [if_neg hempty]
      obtain ⟨hnew, _, hcode⟩ := hknown a c hkept (Bool.eq_false_iff.mpr hempty)
      rw [hs.storedCodes, if_pos hnew, hcode]
  refine ⟨j', hsettle, hshows, hfound, ?_, ?_, ?_⟩
  · intro a c hlast
    by_cases hgone : j.Gone a
    · exact .inl hgone
    obtain ⟨cached, account, hcached, hpresent, hhash⟩ := hcodes.given a c hlast
    have hkept : Operation.setCode a c ∈ kept := lastCode?_mem hlast
    have hstored : j'.backend.accounts[a]? = some account := by
      have hview := hshows.accounts a hgone
      rw [presentAccount_of_cached hcached, hpresent] at hview
      exact (Except.ok.inj hview).symm
    refine .inr ⟨account, hstored, hhash, ?_⟩
    rw [hhash]
    exact hfound a c hkept
  · intro hash hnone
    rw [hs.storedCodes, if_neg (mt (hcodes.queued hash).mp hnone), hlinked.backend]
  · exact fun refusal order' horder' => hs.clean.settles_behind refusal horder'

/-- Three accounts: one with a slot that is set and code that is set twice, the
    second time in a scope that is undone; one with a slot that is destroyed;
    and one that comes into being empty. -/
theorem settlement_after_script_scoped :
    let author : Address := .ofNat 7
    let leaver : Address := .ofNat 8
    let nobody : Address := .ofNat 9
    let code : Bytes := ⟨#[0xfe]⟩
    let other : Bytes := ⟨#[0x00]⟩
    let db : Database :=
      { Database.empty with
        accounts := (Std.ExtTreeMap.empty.insert author ⟨1, 5, emptyCodeHash⟩).insert
          leaver ⟨1, 3, emptyCodeHash⟩
        storage := Std.ExtTreeMap.empty.insert ⟨leaver, 1⟩ 4 }
    let events : List Event :=
      [.operation (.setStorage ⟨author, 1⟩ 6), .operation (.setCode author code), .snapshot,
        .operation (.setCode author other), .operation (.setStorage ⟨author, 1⟩ 9), .revert,
        .operation (.balance leaver), .operation (.markDestroyed leaver),
        .operation (.addBalance nobody 0)]
    let j := runScript (.ofBackend db) events
    ∃ j', settleIn j.ascending j = .ok j.emitted j' ∧ j.Gone leaver ∧ j.Gone nobody ∧
      j'.backend.accounts[leaver]? = none ∧ j'.backend.storageValue ⟨leaver, 1⟩ = 0 ∧
      j'.backend.accounts[nobody]? = none ∧ j'.backend.storageValue ⟨author, 1⟩ = 6 ∧
      j'.backend.accounts[author]? = some ⟨1, 5, keccak256 code⟩ ∧
      j'.backend.code? (keccak256 code) = some code ∧
      j'.backend.code? (keccak256 other) = none := by
  intro author leaver nobody code other db events j
  have hslots : ∀ s : Slot, db.storageValue s ≠ 0 →
      (db.accounts[s.address]?).isSome ∧ .operation (.markCreated s.address) ∉ events := by
    intro s hs
    obtain rfl : s = ⟨leaver, 1⟩ := by
      apply Decidable.byContradiction
      intro hne
      refine hs ?_
      show (Std.ExtTreeMap.empty.insert ⟨leaver, 1⟩ 4 : Std.ExtTreeMap Slot Word).getD s 0 = 0
      rw [Std.ExtTreeMap.getD_eq_getD_getElem?, getElem?_insert_of_ne _ (Ne.symm hne)]
      rfl
    exact ⟨by decide +kernel, by simp [events]⟩
  have hcode : keccak256 code ≠ emptyCodeHash := by decide +kernel
  have hother : keccak256 other ≠ emptyCodeHash := by decide +kernel
  have hne : keccak256 code ≠ keccak256 other := by decide +kernel
  have hcollision : NoCollision events := by
    have hset : ∀ a c, .operation (.setCode a c) ∈ events → c = code ∨ c = other := by
      intro a c hmem
      simp only [events, List.mem_cons, Event.operation.injEq, Operation.setCode.injEq,
        reduceCtorEq, List.not_mem_nil, or_false, false_or] at hmem
      exact hmem.imp (·.2) (·.2)
    intro a c hmem _
    rcases hset a c hmem with rfl | rfl
    · refine ⟨hcode, fun a' c' hmem' _ heq => ?_⟩
      rcases hset a' c' hmem' with rfl | rfl
      · rfl
      · exact absurd heq hne
    · refine ⟨hother, fun a' c' hmem' _ heq => ?_⟩
      rcases hset a' c' hmem' with rfl | rfl
      · exact absurd heq.symm hne
      · rfl
  -- the state before the settlement, as far as it is needed
  obtain ⟨hall, hleaves, hstays, hread, hnobody, hcached, hslot⟩ :
      j.destroyed.toList = [leaver] ∧
        j.isDestroyed leaver = true ∧ j.isDestroyed author = false ∧
        j.accounts[leaver]? =
          some ⟨some ⟨1, 3, emptyCodeHash⟩, some ⟨1, 3, emptyCodeHash⟩⟩ ∧
        j.accounts[nobody]? = some ⟨some .empty, none⟩ ∧
        j.accounts[author]? =
          some ⟨some ⟨1, 5, keccak256 code⟩, some ⟨1, 5, emptyCodeHash⟩⟩ ∧
        j.slots[(⟨author, 1⟩ : Slot)]? = some ⟨0, 6⟩ := by decide +kernel
  have hdestroyed : ∀ a, j.isDestroyed a → (j.accounts[a]?).isSome := by
    intro a ha
    have hmem := Std.ExtTreeSet.mem_toList.mpr (Std.ExtTreeSet.contains_iff_mem.mp ha)
    rw [hall] at hmem
    rw [List.mem_singleton.mp hmem, hread]
    rfl
  obtain ⟨j', hsettle, hshows, hcodes, _, hothers, _⟩ :=
    settlement_after_script db events hslots hcollision hdestroyed j.ascending j.orders_ascending
  have hleaver : j.Gone leaver := .inl hleaves
  have hnobody : j.Gone nobody := .inr ⟨_, .empty, hnobody, rfl, rfl, nofun⟩
  have hauthor : ¬j.Gone author := by
    rintro (hgone | ⟨cached, account, hc, hpresent, hempty, _⟩)
    · rw [hstays] at hgone
      cases hgone
    · rw [hcached] at hc
      cases hc
      cases hpresent
      cases hempty
  have haccount := hshows.accounts author hauthor
  obtain ⟨j1, hread⟩ := hshows.slots ⟨author, 1⟩ hauthor
  rw [storage_of_cached hslot] at hread
  rw [presentAccount_of_cached hcached] at haccount
  have hunqueued : ¬Queues (keptOperations events) (keccak256 other) := by
    rintro ⟨a, c, hmem, _, hhash⟩
    simp only [keptOperations, events, List.foldl, Event.keep, List.mem_cons,
      Operation.setCode.injEq, reduceCtorEq, List.not_mem_nil, or_false, false_or] at hmem
    rw [hmem.2] at hhash
    exact hne hhash
  have hmissing : db.code? (keccak256 other) = none := by
    unfold Database.code?
    rw [if_neg hother]
    rfl
  have hkept : Operation.setCode author code ∈ keptOperations events := by
    simp [keptOperations, events, Event.keep]
  refine ⟨j', hsettle, hleaver, hnobody, (hshows.gone leaver hleaver).1,
    (hshows.gone leaver hleaver).2 1, (hshows.gone nobody hnobody).1, ?_,
    (Except.ok.inj haccount).symm, ?_, ?_⟩
  · exact (EStateM.Result.ok.inj hread).1.symm
  · have hhash : codeHashOf code = keccak256 code := if_neg (by decide)
    rw [← hhash]
    exact hcodes author code hkept
  · exact (hothers _ hunqueued).trans hmissing

end Evm.Journal
