import Evm.Proofs.Journal.Edit
import Evm.State.Database

/-! # A state over a database

    What the caches of a state know of the database that they are read from:
    the account that was loaded and the initial value of a slot are those of
    the database. A slot of an account that was created in the transaction is
    cached as zero without looking, so this takes that the database has no
    such slot.

    The link is an invariant of every edit and of undoing, hence of every
    operation and of reverting to any checkpoint.
-/

namespace Evm

open Journal

/-- The account that is created has no slot in the database. -/
def Edit.Fresh (db : Database) : Edit → Prop
  | .created a => ∀ key, db.storageValue ⟨a, key⟩ = 0
  | _ => True

namespace Journal

/-- The caches of a state agree with the database that they are read from. -/
structure Linked (db : Database) (j : Journal Database) : Prop where
  backend : j.backend = db
  loaded : ∀ (a : Address) (cached : CachedAccount),
    j.accounts[a]? = some cached → cached.loaded = db.accounts[a]?
  initial : ∀ (s : Slot) (value : SlotValue),
    j.slots[s]? = some value → value.initial = db.storageValue s
  fresh : ∀ s : Slot, s.address ∈ j.created → db.storageValue s = 0
  /-- Execution finds no account only where the database has none. -/
  missing : ∀ (a : Address) (cached : CachedAccount),
    j.accounts[a]? = some cached → cached.present = none → db.accounts[a]? = none
  /-- Nor does undoing take any other account away. -/
  undone : ∀ a : Address, Undo.account a none ∈ j.entries → db.accounts[a]? = none

namespace Linked

variable {db : Database} {j j' : Journal Database} {e : Edit}

theorem start (db : Database) : Linked db (.ofBackend db) where
  backend := rfl
  loaded a cached h := by cases h
  initial s value h := by cases h
  fresh s h := absurd h Std.ExtTreeSet.not_mem_empty
  missing a cached h := by cases h
  undone a h := by cases h

/-! ## Edits -/

/-- What is cached of an account: loaded from the database, and missing only if
    it is missing there. -/
def AccountOf (db : Database) (a : Address) (cached : CachedAccount) : Prop :=
  cached.loaded = db.accounts[a]? ∧ (cached.present = none → db.accounts[a]? = none)

theorem accountOf (h : Linked db j) {a : Address} {cached : CachedAccount}
    (hcached : j.accounts[a]? = some cached) : AccountOf db a cached :=
  ⟨h.loaded a cached hcached, h.missing a cached hcached⟩

/-- Caching an account keeps the link. -/
theorem cache (h : Linked db j) {a : Address} {cached : CachedAccount}
    (hcached : AccountOf db a cached) :
    Linked db { j with accounts := j.accounts.insert a cached } := by
  have hall : ∀ a' c, (j.accounts.insert a cached)[a']? = some c → AccountOf db a' c := by
    intro a' c hc
    by_cases ha : a = a'
    · subst ha
      rw [Std.ExtTreeMap.getElem?_insert_self] at hc
      cases hc
      exact hcached
    · rw [getElem?_insert_of_ne _ ha] at hc
      exact h.accountOf hc
  exact { h with
    loaded := fun a' c hc => (hall a' c hc).1
    missing := fun a' c hc => (hall a' c hc).2 }

/-- Caching a slot keeps the link. -/
theorem cacheSlot (h : Linked db j) {s : Slot} {value : SlotValue}
    (hvalue : value.initial = db.storageValue s) :
    Linked db { j with slots := j.slots.insert s value } := by
  refine { h with initial := ?_ }
  intro s' v hv
  by_cases hs : s = s'
  · subst hs
    rw [Std.ExtTreeMap.getElem?_insert_self] at hv
    cases hv
    exact hvalue
  · rw [getElem?_insert_of_ne _ hs] at hv
    exact h.initial s' v hv

/-- A slot reads as in the database as long as it is not cached. -/
theorem storedValue (h : Linked db j) (s : Slot) : j.storedValue s = .ok (db.storageValue s) := by
  unfold Journal.storedValue
  split
  · next hcreated =>
    rw [h.fresh s (Std.ExtTreeSet.contains_iff_mem.mp hcreated)]
  · rw [h.backend]
    rfl

/-- An entry that takes away no account of the database keeps the link. -/
theorem note (h : Linked db j) {entry : Undo}
    (hentry : ∀ a, entry = .account a none → db.accounts[a]? = none) :
    Linked db (j.note entry) := by
  refine { h with undone := ?_ }
  intro a ha
  rcases List.mem_cons.mp ha with heq | hmem
  · exact hentry a heq.symm
  · exact h.undone a hmem

/-- What is kept for the transaction alone is of no account. -/
theorem mark (h : Linked db j) (hbackend : j'.backend = j.backend)
    (haccounts : j'.accounts = j.accounts) (hslots : j'.slots = j.slots)
    (hcreated : j'.created = j.created) {entry : Undo} (hentries : j'.entries = entry :: j.entries)
    (hentry : ∀ a, entry ≠ .account a none) : Linked db j' := by
  refine ⟨hbackend.trans h.backend, ?_, ?_, ?_, ?_, ?_⟩
  · rw [haccounts]
    exact h.loaded
  · rw [hslots]
    exact h.initial
  · rw [hcreated]
    exact h.fresh
  · rw [haccounts]
    exact h.missing
  · have hnote : Linked db (j.note entry) := h.note fun a heq => absurd heq (hentry a)
    rw [hentries]
    exact hnote.undone

/-- **Every edit keeps the link**, if the accounts that it creates are new. -/
theorem applies (h : Linked db j) (hfresh : e.Fresh db) (happ : e.Applies j j') :
    Linked db j' := by
  cases happ with
  | @readAccount _ a found hnone hread =>
    rw [h.backend] at hread
    cases hread
    exact h.cache ⟨rfl, id⟩
  | @readSlot _ s value hnone hread =>
    rw [h.storedValue] at hread
    cases hread
    exact h.cacheSlot rfl
  | learnCode hash code => exact { h with }
  | @account _ a cached new hcached =>
    have hof := h.accountOf hcached
    have hput : AccountOf db a { cached with present := some new } := ⟨hof.1, nofun⟩
    refine (h.cache hput).note ?_
    intro a' heq
    injection heq with ha hmissing
    subst ha
    exact hof.2 hmissing
  | @storage _ s value new hvalue =>
    have hinitial : ({ value with present := new } : SlotValue).initial = db.storageValue s :=
      h.initial s value hvalue
    refine (h.cacheSlot hinitial).note ?_
    rintro a ⟨⟩
  | @created _ a hnew =>
    have hmarked : Linked db { j with created := j.created.insert a } := by
      refine { h with fresh := ?_ }
      intro s hs
      rcases Std.ExtTreeSet.mem_insert.mp hs with heq | hmem
      · obtain rfl : a = s.address := Std.LawfulEqOrd.eq_of_compare heq
        exact hfresh s.key
      · exact h.fresh s hmem
    refine hmarked.note ?_
    rintro a ⟨⟩
  | transient _ _ => exact h.mark rfl rfl rfl rfl rfl (by rintro a ⟨⟩)
  | warmAddress _ => exact h.mark rfl rfl rfl rfl rfl (by rintro a ⟨⟩)
  | warmSlot _ => exact h.mark rfl rfl rfl rfl rfl (by rintro a ⟨⟩)
  | log _ => exact h.mark rfl rfl rfl rfl rfl (by rintro a ⟨⟩)
  | queueCode _ => exact h.mark rfl rfl rfl rfl rfl (by rintro a ⟨⟩)
  | destroyed _ => exact h.mark rfl rfl rfl rfl rfl (by rintro a ⟨⟩)

theorem changes (h : Linked db j) (hchanges : Changes (Edit.Fresh db) j j') : Linked db j' :=
  hchanges.invariant (fun _ _ _ hfresh happ hj => hj.applies hfresh happ) h

/-! ## Undoing -/

/-- Undoing an entry of the journal keeps the link. -/
theorem undo (h : Linked db j) (e : Undo)
    (hentry : ∀ a, e = .account a none → db.accounts[a]? = none) : Linked db (j.undo e) := by
  cases e with
  | account a previous =>
    simp only [Journal.undo]
    cases hcached : j.accounts[a]? with
    | none => exact h
    | some cached =>
      refine h.cache ⟨h.loaded a cached hcached, ?_⟩
      rintro rfl
      exact hentry a rfl
  | storage s previous =>
    simp only [Journal.undo]
    cases hvalue : j.slots[s]? with
    | none => exact h
    | some value => exact h.cacheSlot (h.initial s value hvalue)
  | created a =>
    exact { h with fresh := fun s hs => h.fresh s (Std.ExtTreeSet.mem_of_mem_erase hs) }
  | _ => exact { h with }

theorem undoNewest (h : Linked db j) (n : Nat) : Linked db (Journal.undoNewest n j) := by
  induction n generalizing j with
  | zero => exact h
  | succ n ih =>
    unfold Journal.undoNewest
    cases hentries : j.entries with
    | nil => exact h
    | cons entry rest =>
      have hrest : ∀ a, Undo.account a none ∈ entry :: rest → db.accounts[a]? = none := by
        rw [← hentries]
        exact h.undone
      have hpopped : Linked db { j with entries := rest } :=
        { h with undone := fun a ha => hrest a (List.mem_cons_of_mem entry ha) }
      refine ih (hpopped.undo entry ?_)
      rintro a rfl
      exact hrest a List.mem_cons_self

/-- **Reverting keeps the link**, whatever the checkpoint. -/
theorem revert (h : Linked db j) (c : Checkpoint) : Linked db (j.revert c) := h.undoNewest _

/-! ## Views -/

/-- Slots read through the cache, which is the database where it has nothing. -/
theorem storage_ok (h : Linked db j) (s : Slot) :
    ∃ j', Journal.storage s j =
      .ok (((j.slots[s]?).map SlotValue.present).getD (db.storageValue s)) j' := by
  unfold Journal.storage loadSlot
  simp only [bind_apply, get_apply]
  cases j.slots[s]? with
  | some value => exact ⟨j, rfl⟩
  | none =>
    simp only [h.storedValue]
    exact ⟨_, rfl⟩

theorem presentAccount_eq (h : Linked db j) (a : Address) :
    j.presentAccount a =
      .ok (((j.accounts[a]?).map CachedAccount.present).getD db.accounts[a]?) := by
  unfold presentAccount
  cases j.accounts[a]? with
  | some cached => rfl
  | none =>
    rw [h.backend]
    rfl

end Linked

theorem presentAccount_of_cached {β : Type} [Backend β] {j : Journal β} {a : Address}
    {cached : CachedAccount} (h : j.accounts[a]? = some cached) :
    j.presentAccount a = .ok cached.present := by
  unfold presentAccount
  rw [h]

theorem storage_of_cached {β : Type} [Backend β] {j : Journal β} {s : Slot} {value : SlotValue}
    (h : j.slots[s]? = some value) : Journal.storage s j = .ok value.present j := by
  unfold Journal.storage loadSlot
  simp only [bind_apply, get_apply, h]
  rfl

end Journal

end Evm
