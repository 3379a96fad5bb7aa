import Evm.Proofs.Journal.Coded
import Evm.Proofs.Journal.Commit
import Evm.Proofs.Journal.Orderly

/-! # Caches between transactions

    Between transactions the caches of a state hold what its database holds
    (`Synced`). A state without caches over a database that reads alike is
    then alike, if the codes that are cached are those of their hashes
    (`Coded`).

    Discarding a transaction leaves the caches so. Settling one does if every
    slot that is not zero belongs to an account with a nonce or code
    (`Journal.Orderly`): an account that is removed because it is empty takes
    its slots with it in the database, but they stay in the cache, and they
    agree there only because they are zero.
-/

namespace Evm

/-- Slots that are not zero belong to accounts with a nonce or code, and the
    code of every account can be read. -/
structure Database.Orderly (db : Database) : Prop where
  housed : ∀ s, db.storageValue s ≠ 0 → Taken db.accounts[s.address]?
  stocked : ∀ (a : Address) (account : Account), db.accounts[a]? = some account →
    account.hasCode = true → (db.code? account.codeHash).isSome

namespace Journal

variable {db db' : Database} {j j' k k' : Journal Database} {known : Hash → Option Bytes}

/-! ## What is seen -/

theorem Linked.presentAccount_view (h : Linked db j) (a : Address) :
    j.presentAccount a = .ok (j.view.accounts a) := by
  rw [h.presentAccount_eq, ← h.backend]
  rfl

/-- A slot that is seen not to be zero belongs to an account that is taken. -/
theorem Orderly.taken (h : j.Orderly) (hlinked : Linked db j) {s : Slot}
    (hne : j.view.slots s ≠ 0) : Taken (j.view.accounts s.address) := by
  have hstands : j.Stands s.address := by
    cases hvalue : j.slots[s]? with
    | some value =>
      rw [view_slot hvalue] at hne
      exact h.housed s value hvalue hne
    | none =>
      have hstored : j.view.slots s = j.backend.storageValue s := by
        simp only [Journal.view, hvalue]
        rfl
      rw [hstored] at hne
      exact h.rooted s _ rfl hne
  obtain ⟨account, haccount, htaken⟩ := hstands
  rw [hlinked.presentAccount_view] at haccount
  cases haccount
  exact htaken

/-! ## Between transactions -/

/-- The caches hold what the database holds, and nothing is kept of a
    transaction. -/
structure Synced (j : Journal Database) : Prop where
  accounts : ∀ (a : Address) (cached : CachedAccount), j.accounts[a]? = some cached →
    cached = ⟨j.backend.accounts[a]?, j.backend.accounts[a]?⟩
  slots : ∀ (s : Slot) (value : SlotValue), j.slots[s]? = some value →
    value = ⟨j.backend.storageValue s, j.backend.storageValue s⟩
  ended : j.endTransaction.2 = j

namespace Synced

theorem start (db : Database) : Synced (.ofBackend db) where
  accounts a cached h := by cases h
  slots s value h := by cases h
  ended := rfl

theorem view (h : Synced j) : j.view = (Journal.ofBackend j.backend).view := by
  have haccounts : j.view.accounts = fun a => j.backend.accounts[a]? := by
    funext a
    cases hcached : j.accounts[a]? with
    | none => simp [Journal.view, hcached]
    | some cached => rw [view_account hcached, h.accounts a cached hcached]
  have hslots : j.view.slots = fun s => j.backend.storageValue s := by
    funext s
    cases hvalue : j.slots[s]? with
    | none => simp [Journal.view, hvalue]
    | some value => rw [view_slot hvalue, h.slots s value hvalue]
  -- of all that is kept for one transaction there is nothing
  have hrest : j.endTransaction.2.view = { (Journal.ofBackend j.backend).view with
      accounts := j.view.accounts, slots := j.view.slots } := rfl
  rw [h.ended, haccounts, hslots] at hrest
  exact hrest

theorem linked (h : Synced j) : Linked j.backend j := by
  have hview := h.view
  have hcreated : j.created = ∅ := congrArg View.created hview
  have hentries : j.entries = [] := congrArg View.entries hview
  refine ⟨rfl, ?_, ?_, ?_, ?_, ?_⟩
  · intro a cached hcached
    rw [h.accounts a cached hcached]
  · intro s value hvalue
    rw [h.slots s value hvalue]
  · rw [hcreated]
    exact fun s hs => absurd hs Std.ExtTreeSet.not_mem_empty
  · intro a cached hcached hmissing
    rw [h.accounts a cached hcached] at hmissing
    exact hmissing
  · rw [hentries]
    nofun

theorem upright (h : Synced j) : Upright j.backend j := by
  have hview := h.view
  have hentries : j.entries = [] := congrArg View.entries hview
  have hnew : j.newCode = ∅ := congrArg View.newCode hview
  have hdestroyed : j.destroyed = ∅ := congrArg View.destroyed hview
  refine ⟨h.linked, ?_, ?_, ?_, ?_, ?_⟩
  · rw [hentries]
    nofun
  · rw [hview]
    exact fun a => id
  · rw [hentries]
    nofun
  · rw [hnew]
    exact fun hash hmem => absurd hmem Std.ExtTreeSet.not_mem_empty
  · rw [hdestroyed]
    exact fun a hmem => absurd hmem Std.ExtTreeSet.not_mem_empty

/-- **A state without caches is alike**, over a database that reads alike. -/
theorem alike (h : Synced j) (hcoded : Coded known j) (horderly : j.backend.Orderly)
    (hreads : j.backend.ReadsAs db') : Alike j.backend db' j (.ofBackend db') := by
  have hview : j.view = (Journal.ofBackend db').view := by
    rw [h.view]
    simp only [Journal.view, ofBackend]
    congr 1
    · funext a
      exact hreads.accounts a
    · funext s
      exact hreads.storage s
  refine ⟨hreads, h.upright, .start db', hview, ?_⟩
  intro hash huses
  have hstored : (j.backend.code? hash).isSome := by
    rw [h.view] at huses
    cases huses with
    | present haccount hcode hhash =>
      rw [← hhash]
      exact horderly.stocked _ _ haccount hcode
    | undone hmem _ _ => cases hmem
    | queued hmem => exact absurd hmem Std.ExtTreeSet.not_mem_empty
  obtain ⟨c, hc⟩ := Option.isSome_iff_exists.mp hstored
  have hfresh : (Journal.ofBackend db').knownCode hash = some c := by
    show db'.code? hash = some c
    rw [← hreads.codes]
    exact hc
  rw [hfresh]
  -- what is cached under the hash is the code that the database has
  unfold Journal.knownCode
  cases hcached : j.codes[hash]? with
  | none => exact hc
  | some c' =>
    have hsame := (hcoded.cached hash c' hcached).symm.trans (hcoded.stored hash c hc)
    exact hsame

theorem presentAccount (h : Synced j) (a : Address) :
    j.presentAccount a = .ok j.backend.accounts[a]? := by
  rw [h.linked.presentAccount_view, h.view]
  rfl

/-- Over an orderly database the state is orderly. -/
theorem orderly (h : Synced j) (horderly : j.backend.Orderly) : j.Orderly := by
  have hstands : ∀ s, j.backend.storageValue s ≠ 0 → j.Stands s.address :=
    fun s hne => ⟨_, h.presentAccount s.address, horderly.housed s hne⟩
  refine ⟨?_, ?_, ?_, ?_⟩
  · intro s value hvalue hne
    rw [h.slots s value hvalue] at hne
    exact hstands s hne
  · intro s value hvalue _
    rw [h.slots s value hvalue]
    rfl
  · intro s value hstored hne
    cases hstored
    exact hstands s hne
  · intro a account haccount hhas
    rw [h.presentAccount] at haccount
    injection haccount with haccount
    obtain ⟨c, hc⟩ := Option.isSome_iff_exists.mp (horderly.stocked a account haccount hhas)
    exact .inl ⟨c, congrArg Except.ok hc⟩

end Synced

/-! ## Discarding -/

theorem Coded.discard (h : Coded known j) : Coded known j.discard.2 where
  cached := (h.revert ⟨0⟩).cached
  stored := (h.revert ⟨0⟩).stored
  queued := Std.ExtTreeSet.not_mem_empty

/-- **Discarding a transaction** leaves the caches as they should be. -/
theorem Synced.discard (h : Synced j) (hreverts : RevertsTo j j') (hlinked : Linked j.backend j') :
    Synced j'.discard.2 ∧ j'.discard.2.backend = j.backend := by
  have hempty : j.entries = [] := congrArg View.entries h.view
  have hstart : j.checkpoint = ⟨0⟩ := by rw [checkpoint, hempty]; rfl
  have hrestored : Restored j (j'.revert ⟨0⟩) := hstart ▸ hreverts.restored
  have hrevert : Linked j.backend (j'.revert ⟨0⟩) := hlinked.revert ⟨0⟩
  refine ⟨⟨?_, ?_, rfl⟩, hrestored.backend⟩
  · intro a cached hcached
    show cached =
      ⟨(j'.revert ⟨0⟩).backend.accounts[a]?, (j'.revert ⟨0⟩).backend.accounts[a]?⟩
    have hloaded := hrevert.loaded a cached hcached
    rw [hrestored.backend]
    cases hbefore : j.accounts[a]? with
    | some old =>
      have hsame := hrestored.accounts a old hbefore
      rw [show (j'.revert ⟨0⟩).accounts[a]? = some cached from hcached] at hsame
      cases hsame
      exact h.accounts a cached hbefore
    | none =>
      -- what was read since is as it was read
      have hread := (hrestored.readAccounts a cached hbefore hcached).1
      rw [← hloaded]
      cases cached
      cases hread
      rfl
  · intro s value hvalue
    show value =
      ⟨(j'.revert ⟨0⟩).backend.storageValue s, (j'.revert ⟨0⟩).backend.storageValue s⟩
    have hinitial := hrevert.initial s value hvalue
    rw [hrestored.backend]
    cases hbefore : j.slots[s]? with
    | some old =>
      have hsame := hrestored.slots s old hbefore
      rw [show (j'.revert ⟨0⟩).slots[s]? = some value from hvalue] at hsame
      cases hsame
      exact h.slots s value hbefore
    | none =>
      have hread := hrestored.readSlots s value hbefore hvalue
      rw [← hinitial]
      cases value
      cases hread
      rfl

/-! ## Settling -/

/-- A settlement leaves nothing of the transaction. -/
theorem settleIn_ended {β : Type} [Backend β] {order : WriteOrder} {j j' : Journal β}
    {logs : List Log} (h : settleIn order j = .ok logs j') : j'.endTransaction.2 = j' := by
  unfold settleIn at h
  obtain ⟨_, j1, _, h⟩ := bind_ok h
  obtain ⟨_, j2, _, h⟩ := bind_ok h
  obtain ⟨_, j3, _, h⟩ := bind_ok h
  obtain ⟨_, j4, _, h⟩ := bind_ok h
  cases h
  rfl

/-- **A state that is upright can be settled.** -/
theorem Upright.settles (h : Upright db j) (hcoded : Coded known j) :
    ∃ j', settle j = .ok j.emitted j' ∧ Settled j j' ∧ j'.endTransaction.2 = j' := by
  have hqueued : ∀ hash ∈ j.newCode,
      hash ≠ emptyCodeHash ∧ ∃ c, j.codes[hash]? = some c := by
    intro hash hmem
    refine ⟨?_, Option.isSome_iff_exists.mp (h.queued hash hmem)⟩
    rintro rfl
    exact hcoded.queued hmem
  obtain ⟨j', hsettle, hsettled⟩ := settleIn_settled h.toLinked j.orders_ascending hqueued
  exact ⟨j', hsettle, hsettled, settleIn_ended hsettle⟩

/-- An account goes with a settlement if it is destroyed or was changed into an
    empty one, whatever is cached. -/
theorem gone_iff (h : Upright db j) (a : Address) :
    j.Gone a ↔ a ∈ j.view.destroyed ∨ ∃ account, j.view.accounts a = some account ∧
      account.isEmpty ∧ db.accounts[a]? ≠ some account := by
  refine or_congr Std.ExtTreeSet.contains_iff_mem ?_
  constructor
  · rintro ⟨cached, account, hcached, hpresent, hempty, hchanged⟩
    refine ⟨account, (view_account hcached).trans hpresent, hempty, ?_⟩
    rw [← h.loaded a cached hcached, ← hpresent]
    exact Ne.symm hchanged
  · rintro ⟨account, hseen, hempty, hchanged⟩
    cases hcached : j.accounts[a]? with
    | none =>
      -- what is not cached is as in the database
      refine absurd ?_ hchanged
      rw [← hseen, ← h.backend]
      simp only [Journal.view, hcached]
      rfl
    | some cached =>
      have hpresent : cached.present = some account := (view_account hcached).symm.trans hseen
      refine ⟨cached, account, rfl, hpresent, hempty, ?_⟩
      rw [h.loaded a cached hcached, hpresent]
      exact Ne.symm hchanged

namespace Shows

variable {db1 : Database}

theorem account (hs : j.Shows db1) (h : Linked db j) {a : Address} (ha : ¬j.Gone a) :
    db1.accounts[a]? = j.view.accounts a := by
  have hseen := hs.accounts a ha
  rw [h.presentAccount_eq, ← h.backend] at hseen
  injection hseen with hseen
  exact hseen.symm

theorem slot (hs : j.Shows db1) (h : Upright db j) {s : Slot} (ha : ¬j.Gone s.address) :
    db1.storageValue s = j.view.slots s := by
  obtain ⟨j1, hread⟩ := hs.slots s ha
  obtain ⟨j2, hload, _⟩ := loadSlot_run h s
  unfold Journal.storage at hread
  rw [bind_apply, hload] at hread
  have heq : EStateM.Result.ok (j.view.slots s) j2 = .ok (db1.storageValue s) j1 := hread
  injection heq with hvalue
  exact hvalue.symm

end Shows

/-- Every account that has slots is in the database. -/
theorem owned_of_orderly (h : db.Orderly) (s : Slot)
    (hs : db.storageValue s ≠ 0) : (db.accounts[s.address]?).isSome := by
  have htaken := h.housed s hs
  cases haccount : db.accounts[s.address]? with
  | some account => rfl
  | none =>
    rw [haccount] at htaken
    exact absurd htaken not_taken_none

namespace Settled

variable (hs : Settled j j') (h : Upright db j) (horderly : db.Orderly)

include hs h horderly

/-- **What the database shows** after a settlement. -/
theorem showsView : j.Shows j'.backend :=
  hs.shows h.toLinked (fun a ha => h.marked a (Std.ExtTreeSet.contains_iff_mem.mp ha))
    (owned_of_orderly horderly)

omit h horderly in
/-- The codes that are known stay those of their hashes. -/
theorem coded (hcoded : Coded known j) : Coded known j' where
  cached hash c hc := by
    rw [hs.codes] at hc
    exact hcoded.cached hash c hc
  stored hash c hc := by
    rw [hs.storedCodes] at hc
    split at hc
    · exact hcoded.cached hash c hc
    · exact hcoded.stored hash c hc
  queued := by
    rw [hs.ended.1]
    exact Std.ExtTreeSet.not_mem_empty

theorem stillOrderly (hview : j.Orderly) : j'.backend.Orderly := by
  have hshows := hs.showsView h horderly
  constructor
  · intro s hne
    have ha : ¬j.Gone s.address := fun hgone => hne ((hshows.gone _ hgone).2 s.key)
    rw [hshows.slot h ha] at hne
    rw [hshows.account h.toLinked ha]
    exact hview.taken h.toLinked hne
  · intro a account haccount hcode
    have ha : ¬j.Gone a := by
      intro hgone
      rw [(hshows.gone a hgone).1] at haccount
      cases haccount
    rw [hshows.account h.toLinked ha] at haccount
    have hpresent : j.presentAccount a = .ok (some account) := by
      rw [h.toLinked.presentAccount_view, haccount]
    rw [hs.storedCodes]
    split
    · next hmem => exact h.queued _ hmem
    · next hmem =>
      obtain ⟨c, hc⟩ := (hview.stocked a account hpresent hcode).resolve_right hmem
      rw [Except.ok.inj hc]
      rfl

/-- **The caches hold what the database holds.** The slots of an account that
    goes because it is empty are zero, since it is not taken. -/
theorem synced (hview : j.Orderly) (hended : j'.endTransaction.2 = j') : Synced j' := by
  have hshows := hs.showsView h horderly
  refine ⟨?_, ?_, hended⟩
  · intro a cached hcached
    rw [hs.accounts] at hcached
    obtain ⟨c, hc, rfl⟩ := Option.map_eq_some_iff.mp hcached
    rw [hs.storedAccounts]
    unfold storedAccount
    rw [hc]
    rfl
  · intro s value hvalue
    rw [hs.slots] at hvalue
    obtain ⟨v, hv, rfl⟩ := Option.map_eq_some_iff.mp hvalue
    unfold settledSlot
    by_cases hd : j.isDestroyed s.address
    · rw [if_pos hd, (hshows.gone _ (.inl hd)).2 s.key]
    rw [if_neg hd, ← view_slot hv]
    by_cases hgone : j.Gone s.address
    · have hzero : j.view.slots s = 0 := by
        apply Decidable.byContradiction
        intro hne
        have htaken := hview.taken h.toLinked hne
        rcases (gone_iff h _).mp hgone with hmem | ⟨account, hseen, hempty, _⟩
        · exact hd (Std.ExtTreeSet.contains_iff_mem.mpr hmem)
        · rw [hseen] at htaken
          exact taken_not_empty htaken hempty
      rw [hzero, (hshows.gone _ hgone).2 s.key]
    · rw [hshows.slot h hgone]

end Settled

/-- **Two states that are alike settle alike**: with the same logs, into
    databases that read alike. -/
theorem Alike.settle (h : Alike db db' j k) (horderly : db.Orderly) (hj : Coded known j)
    (hk : Coded known k) :
    ∃ j' k', settle j = .ok j.emitted j' ∧ settle k = .ok j.emitted k' ∧ Settled j j' ∧
      j'.endTransaction.2 = j' ∧ j'.backend.ReadsAs k'.backend := by
  obtain ⟨j', hsettlej, hsettledj, hended⟩ := h.left.settles hj
  obtain ⟨k', hsettlek, hsettledk, _⟩ := h.right.settles hk
  have hlogs : k.emitted = j.emitted := congrArg (fun v : View => v.logs.reverse) h.view.symm
  have horderly' : db'.Orderly := by
    constructor
    · intro s hne
      rw [← h.stores.storage] at hne
      rw [← h.stores.accounts]
      exact horderly.housed s hne
    · intro a account haccount hcode
      rw [← h.stores.accounts] at haccount
      rw [← h.stores.codes]
      exact horderly.stocked a account haccount hcode
  have hshowsj := hsettledj.showsView h.left horderly
  have hshowsk := hsettledk.showsView h.right horderly'
  have hgone : ∀ a, j.Gone a ↔ k.Gone a := by
    intro a
    rw [gone_iff h.left, gone_iff h.right, h.view, h.stores.accounts]
  refine ⟨j', k', hsettlej, hlogs ▸ hsettlek, hsettledj, hended, ?_, ?_, ?_, ?_⟩
  · intro a
    by_cases ha : j.Gone a
    · rw [(hshowsj.gone a ha).1, (hshowsk.gone a ((hgone a).mp ha)).1]
    · rw [hshowsj.account h.left.toLinked ha,
        hshowsk.account h.right.toLinked (mt (hgone a).mpr ha), h.view]
  · intro s
    by_cases ha : j.Gone s.address
    · rw [(hshowsj.gone _ ha).2 s.key, (hshowsk.gone _ ((hgone _).mp ha)).2 s.key]
    · rw [hshowsj.slot h.left ha, hshowsk.slot h.right (mt (hgone _).mpr ha), h.view]
  · intro hash
    have hnew : k.newCode = j.newCode := congrArg View.newCode h.view.symm
    rw [hsettledj.storedCodes, hsettledk.storedCodes, hnew]
    by_cases hmem : hash ∈ j.newCode
    · -- a code on the list is cached on both sides, and known alike
      have hsame := h.codes hash (.queued hmem)
      obtain ⟨c, hc⟩ := Option.isSome_iff_exists.mp (h.left.queued hash hmem)
      obtain ⟨c', hc'⟩ := Option.isSome_iff_exists.mp (h.right.queued hash (hnew ▸ hmem))
      rw [if_pos hmem, if_pos hmem]
      simpa [knownCode, hc, hc'] using hsame
    · rw [if_neg hmem, if_neg hmem, h.left.backend, h.right.backend]
      exact h.stores.codes hash
  · intro number
    rw [hsettledj.blockHashes, hsettledk.blockHashes, h.left.backend, h.right.backend]
    exact h.stores.blockHashes number

end Journal

end Evm
