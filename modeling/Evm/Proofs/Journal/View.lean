import Evm.Proofs.Journal.Linked
import Evm.Proofs.Journal.Standing

/-! # What execution sees of a state

    A state over a database caches what it has read, and execution cannot tell
    what is cached. The view of a state (`Journal.view`) is the state without
    its caches: at every address the account that execution sees there, and at
    every slot its value, be they cached or not.

    Reads leave the view alone, and every other edit changes it in a way that
    does not depend on what is cached (`applies_view`), and so does
    undoing. What the caches have to be like for this is the invariant
    `Upright`.
-/

namespace Evm

open Journal

/-! ## Views -/

/-- A state over a database without its caches. -/
structure View where
  accounts : Address → Option Account
  slots : Slot → Word
  newCode : Std.ExtTreeSet Hash compare
  transient : TransientStorage
  warmAddresses : Std.ExtTreeSet Address compare
  warmSlots : Std.ExtTreeSet Slot compare
  logs : List Log
  created : Std.ExtTreeSet Address compare
  destroyed : Std.ExtTreeSet Address compare
  entries : List Undo

namespace View

variable (v : View)

/-- Show another account at an address. -/
def setAccount (a : Address) (account : Option Account) : View :=
  { v with accounts := fun a' => if a = a' then account else v.accounts a' }

/-- Show another value of a slot. -/
def setSlot (s : Slot) (value : Word) : View :=
  { v with slots := fun s' => if s = s' then value else v.slots s' }

/-- Add an entry to the journal. -/
def note (entry : Undo) : View := { v with entries := entry :: v.entries }

theorem setAccount_self (a : Address) : v.setAccount a (v.accounts a) = v := by
  have hsame : (fun a' => if a = a' then v.accounts a else v.accounts a') = v.accounts := by
    funext a'
    split
    · next h => rw [h]
    · rfl
  simp only [setAccount, hsame]

theorem setSlot_self (s : Slot) : v.setSlot s (v.slots s) = v := by
  have hsame : (fun s' => if s = s' then v.slots s else v.slots s') = v.slots := by
    funext s'
    split
    · next h => rw [h]
    · rfl
  simp only [setSlot, hsame]

/-- Undo one write. -/
def undo : Undo → View
  | .account a previous => v.setAccount a previous
  | .storage s previous => v.setSlot s previous
  | .transient s previous => { v with transient := v.transient.write s previous }
  | .warmAddress a => { v with warmAddresses := v.warmAddresses.erase a }
  | .warmSlot s => { v with warmSlots := v.warmSlots.erase s }
  | .log => { v with logs := v.logs.tail }
  | .code hash => { v with newCode := v.newCode.erase hash }
  | .created a => { v with created := v.created.erase a }
  | .destroyed a => { v with destroyed := v.destroyed.erase a }

end View

/-- What an edit does to what execution sees. -/
def Edit.onView (v : View) : Edit → View
  | .readAccount _ | .readSlot _ | .learnCode _ _ => v
  | .account a previous new => (v.setAccount a (some new)).note (.account a previous)
  | .storage s new => (v.setSlot s new).note (.storage s (v.slots s))
  | .transient s new =>
    { v with transient := v.transient.write s new }.note (.transient s (v.transient.read s))
  | .warmAddress a =>
    { v with warmAddresses := v.warmAddresses.insert a }.note (.warmAddress a)
  | .warmSlot s => { v with warmSlots := v.warmSlots.insert s }.note (.warmSlot s)
  | .log entry => { v with logs := entry :: v.logs }.note .log
  | .queueCode hash => { v with newCode := v.newCode.insert hash }.note (.code hash)
  | .created a => { v with created := v.created.insert a }.note (.created a)
  | .destroyed a => { v with destroyed := v.destroyed.insert a }.note (.destroyed a)

/-- What an edit has to be like for a state over a database to stay upright. -/
def Edit.Upholds (db : Database) (j : Journal Database) : Edit → Prop
  | .account a _ new => Taken db.accounts[a]? → Taken (some new)
  | .created a => ∀ key, db.storageValue ⟨a, key⟩ = 0
  | .queueCode hash => (j.codes[hash]?).isSome
  | .destroyed a => (j.accounts[a]?).isSome
  | _ => True

namespace Journal

variable {db : Database} {j j' : Journal Database} {e : Edit}

/-- What execution sees: what is cached, and the database where nothing is. -/
def view (j : Journal Database) : View where
  accounts a := ((j.accounts[a]?).map CachedAccount.present).getD j.backend.accounts[a]?
  slots s := ((j.slots[s]?).map SlotValue.present).getD (j.backend.storageValue s)
  newCode := j.newCode
  transient := j.transient
  warmAddresses := j.warmAddresses
  warmSlots := j.warmSlots
  logs := j.logs
  created := j.created
  destroyed := j.destroyed
  entries := j.entries

theorem view_account {a : Address} {cached : CachedAccount} (h : j.accounts[a]? = some cached) :
    j.view.accounts a = cached.present := by
  simp only [view, h, Option.map_some, Option.getD_some]

theorem view_slot {s : Slot} {value : SlotValue} (h : j.slots[s]? = some value) :
    j.view.slots s = value.present := by
  simp only [view, h, Option.map_some, Option.getD_some]

theorem view_putAccount (j : Journal Database) (a : Address) (cached : CachedAccount) :
    ({ j with accounts := j.accounts.insert a cached } : Journal Database).view =
      j.view.setAccount a cached.present := by
  have hsame : (fun a' => (((j.accounts.insert a cached)[a']?).map CachedAccount.present).getD
      j.backend.accounts[a']?) =
      fun a' => if a = a' then cached.present else j.view.accounts a' := by
    funext a'
    by_cases ha : a = a'
    · subst ha
      simp
    · rw [getElem?_insert_of_ne _ ha, if_neg ha]
      rfl
  simp only [view, View.setAccount, hsame]

theorem view_putSlot (j : Journal Database) (s : Slot) (value : SlotValue) :
    ({ j with slots := j.slots.insert s value } : Journal Database).view =
      j.view.setSlot s value.present := by
  have hsame : (fun s' => (((j.slots.insert s value)[s']?).map SlotValue.present).getD
      (j.backend.storageValue s')) =
      fun s' => if s = s' then value.present else j.view.slots s' := by
    funext s'
    by_cases hs : s = s'
    · subst hs
      simp
    · rw [getElem?_insert_of_ne _ hs, if_neg hs]
      rfl
  simp only [view, View.setSlot, hsame]

/-- Caching an account as it is seen does not show. -/
theorem view_cacheAccount {a : Address} {cached : CachedAccount}
    (h : j.view.accounts a = cached.present) :
    ({ j with accounts := j.accounts.insert a cached } : Journal Database).view = j.view := by
  rw [view_putAccount, ← h, View.setAccount_self]

/-- Caching a slot as it is seen does not show. -/
theorem view_cacheSlot {s : Slot} {value : SlotValue} (h : j.view.slots s = value.present) :
    ({ j with slots := j.slots.insert s value } : Journal Database).view = j.view := by
  rw [view_putSlot, ← h, View.setSlot_self]

/-- **What an edit does to the view** does not depend on what is cached. -/
theorem applies_view (h : Linked db j) (happ : e.Applies j j') :
    j'.view = e.onView j.view := by
  cases happ with
  | @readAccount _ a found hnone hread =>
    refine view_cacheAccount ?_
    have hseen : j.view.accounts a = j.backend.accounts[a]? := by
      simp only [Journal.view, hnone]
      rfl
    cases hread
    exact hseen
  | @readSlot _ s value hnone hread =>
    refine view_cacheSlot ?_
    rw [h.storedValue, ← h.backend] at hread
    cases hread
    simp only [Journal.view, hnone]
    rfl
  | learnCode hash code => rfl
  | @account _ a cached new hcached =>
    exact congrArg (View.note · _) (view_putAccount j a { cached with present := some new })
  | @storage _ s value new hvalue =>
    have hput := congrArg (View.note · (.storage s value.present))
      (view_putSlot j s { value with present := new })
    refine Eq.trans hput ?_
    rw [← view_slot hvalue]
    rfl
  | _ => rfl

/-- What undoing does to the view. -/
theorem view_undo {entry : Undo} (h : j.Covers entry) :
    (j.undo entry).view = j.view.undo entry := by
  cases entry with
  | account a previous =>
    obtain ⟨cached, hcached⟩ := Option.isSome_iff_exists.mp h
    simp only [Journal.undo, hcached]
    exact view_putAccount j a { cached with present := previous }
  | storage s previous =>
    obtain ⟨value, hvalue⟩ := Option.isSome_iff_exists.mp h
    simp only [Journal.undo, hvalue]
    exact view_putSlot j s { value with present := previous }
  | _ => rfl

/-! ## The invariant -/

/-- A state over a database in which everything that its journal, its marks and
    its list of codes speak of is cached, and in which every account that is
    taken in the database is taken, however much is undone. -/
structure Upright (db : Database) (j : Journal Database) : Prop extends Linked db j where
  covers : ∀ entry ∈ j.entries, j.Covers entry
  stands : ∀ a, Taken db.accounts[a]? → Taken (j.view.accounts a)
  undoneStands : ∀ a previous, Undo.account a previous ∈ j.entries →
    Taken db.accounts[a]? → Taken previous
  queued : ∀ hash ∈ j.newCode, (j.codes[hash]?).isSome
  marked : ∀ a ∈ j.destroyed, (j.accounts[a]?).isSome

/-- Nothing that is cached is dropped by an edit. -/
structure CachesMore (j j' : Journal Database) : Prop where
  accounts : ∀ a : Address, (j.accounts[a]?).isSome → (j'.accounts[a]?).isSome
  slots : ∀ s : Slot, (j.slots[s]?).isSome → (j'.slots[s]?).isSome
  codes : ∀ hash : Hash, (j.codes[hash]?).isSome → (j'.codes[hash]?).isSome

theorem CachesMore.covers (h : CachesMore j j') {entry : Undo} (hcovers : j.Covers entry) :
    j'.Covers entry := by
  cases entry with
  | account a previous => exact h.accounts a hcovers
  | storage s previous => exact h.slots s hcovers
  | _ => trivial

namespace Upright

theorem start (db : Database) : Upright db (.ofBackend db) where
  toLinked := .start db
  covers entry h := by cases h
  stands a h := h
  undoneStands a previous h := by cases h
  queued hash h := absurd h Std.ExtTreeSet.not_mem_empty
  marked a h := absurd h Std.ExtTreeSet.not_mem_empty

/-- Caching an account, as it is seen or changed. -/
theorem putAccount (h : Upright db j) {a : Address} {cached : CachedAccount}
    (hof : Linked.AccountOf db a cached)
    (hstands : Taken db.accounts[a]? → Taken cached.present) :
    Upright db { j with accounts := j.accounts.insert a cached } := by
  have hmore : CachesMore j { j with accounts := j.accounts.insert a cached } :=
    ⟨fun _ => isSome_insert _, fun _ => id, fun _ => id⟩
  refine ⟨h.toLinked.cache hof, fun entry hentry => hmore.covers (h.covers entry hentry), ?_,
    h.undoneStands, h.queued, fun a' ha' => hmore.accounts a' (h.marked a' ha')⟩
  intro a' htaken
  rw [view_putAccount]
  by_cases ha : a = a'
  · subst ha
    simpa only [View.setAccount, if_pos] using hstands htaken
  · simpa only [View.setAccount, if_neg ha] using h.stands a' htaken

/-- Caching a slot. -/
theorem putSlot (h : Upright db j) {s : Slot} {value : SlotValue}
    (hinitial : value.initial = db.storageValue s) :
    Upright db { j with slots := j.slots.insert s value } := by
  have hmore : CachesMore j { j with slots := j.slots.insert s value } :=
    ⟨fun _ => id, fun _ => isSome_insert _, fun _ => id⟩
  exact ⟨h.toLinked.cacheSlot hinitial, fun entry hentry => hmore.covers (h.covers entry hentry),
    h.stands, h.undoneStands, h.queued, h.marked⟩

/-- An entry that speaks of something cached, and takes down no account. -/
theorem note (h : Upright db j) {entry : Undo} (hcovers : j.Covers entry)
    (hmissing : ∀ a, entry = .account a none → db.accounts[a]? = none)
    (hstands : ∀ a previous, entry = .account a previous →
      Taken db.accounts[a]? → Taken previous) : Upright db (j.note entry) := by
  have hkept : ∀ entry', (j.note entry).Covers entry' ↔ j.Covers entry' :=
    fun entry' => covers_withEntries j _ entry'
  refine ⟨h.toLinked.note hmissing, ?_, h.stands, ?_, h.queued, h.marked⟩
  · intro entry' hmem
    rw [hkept]
    rcases List.mem_cons.mp hmem with rfl | hmem
    · exact hcovers
    · exact h.covers entry' hmem
  · intro a previous hmem
    rcases List.mem_cons.mp hmem with heq | hmem
    · exact hstands a previous heq.symm
    · exact h.undoneStands a previous hmem

/-- An entry that is of no account. -/
theorem noteMark (h : Upright db j) {entry : Undo} (hcovers : j.Covers entry)
    (hmark : ∀ a previous, entry ≠ .account a previous) : Upright db (j.note entry) :=
  h.note hcovers (fun a heq => absurd heq (hmark a none))
    fun a previous heq => absurd heq (hmark a previous)

/-- **Every edit that upholds it keeps a state upright.** -/
theorem applies (h : Upright db j) (hup : e.Upholds db j) (happ : e.Applies j j') :
    Upright db j' := by
  cases happ with
  | @readAccount _ a found hnone hread =>
    rw [h.backend] at hread
    cases hread
    exact h.putAccount ⟨rfl, id⟩ id
  | @readSlot _ s value hnone hread =>
    rw [h.storedValue] at hread
    cases hread
    exact h.putSlot rfl
  | learnCode hash code =>
    exact { h with
      toLinked := { h.toLinked with }
      queued := fun hash' hmem => isSome_insert _ (h.queued hash' hmem) }
  | @account _ a cached new hcached =>
    have hof := h.toLinked.accountOf hcached
    have hput : Upright db { j with accounts := j.accounts.insert a ⟨some new, cached.loaded⟩ } :=
      h.putAccount ⟨hof.1, by simp⟩ hup
    refine hput.note ?_ ?_ ?_
    · simp [Covers]
    · intro a' heq
      injection heq with ha hmissing
      subst ha
      exact hof.2 hmissing
    · intro a' previous heq
      injection heq with ha hprevious
      subst ha
      rw [← hprevious, ← view_account hcached]
      exact h.stands a
  | @storage _ s value new hvalue =>
    have hput : Upright db { j with slots := j.slots.insert s { value with present := new } } :=
      h.putSlot (h.initial s value hvalue)
    exact hput.noteMark (by simp [Covers]) (by simp)
  | @created _ a hnew =>
    have hlinked : Linked db { j with created := j.created.insert a } := by
      refine { h.toLinked with fresh := ?_ }
      intro s hs
      rcases Std.ExtTreeSet.mem_insert.mp hs with heq | hmem
      · obtain rfl : a = s.address := Std.LawfulEqOrd.eq_of_compare heq
        exact hup s.key
      · exact h.fresh s hmem
    have hmarked : Upright db { j with created := j.created.insert a } :=
      { h with toLinked := hlinked }
    exact hmarked.noteMark trivial (by simp)
  | @queueCode _ hash hnew =>
    have hqueued : Upright db { j with newCode := j.newCode.insert hash } := by
      refine { h with toLinked := { h.toLinked with }, queued := ?_ }
      intro hash' hmem
      rcases Std.ExtTreeSet.mem_insert.mp hmem with heq | hmem
      · obtain rfl : hash = hash' := Std.LawfulEqOrd.eq_of_compare heq
        exact hup
      · exact h.queued hash' hmem
    exact hqueued.noteMark trivial (by simp)
  | @destroyed _ a hnew =>
    have hmarked : Upright db { j with destroyed := j.destroyed.insert a } := by
      refine { h with toLinked := { h.toLinked with }, marked := ?_ }
      intro a' hmem
      rcases Std.ExtTreeSet.mem_insert.mp hmem with heq | hmem
      · obtain rfl : a = a' := Std.LawfulEqOrd.eq_of_compare heq
        exact hup
      · exact h.marked a' hmem
    exact hmarked.noteMark trivial (by simp)
  | transient s new =>
    have hput : Upright db (j.putTransient s new) := { h with toLinked := { h.toLinked with } }
    exact hput.noteMark trivial (by simp)
  | @warmAddress _ a _ =>
    have hput : Upright db { j with warmAddresses := j.warmAddresses.insert a } :=
      { h with toLinked := { h.toLinked with } }
    exact hput.noteMark trivial (by simp)
  | @warmSlot _ s _ =>
    have hput : Upright db { j with warmSlots := j.warmSlots.insert s } :=
      { h with toLinked := { h.toLinked with } }
    exact hput.noteMark trivial (by simp)
  | log entry =>
    have hput : Upright db { j with logs := entry :: j.logs } :=
      { h with toLinked := { h.toLinked with } }
    exact hput.noteMark trivial (by simp)

/-! ## Undoing -/

/-- Undoing a write keeps a state upright. -/
theorem undo (h : Upright db j) {entry : Undo} (hcovers : j.Covers entry)
    (hmissing : ∀ a, entry = .account a none → db.accounts[a]? = none)
    (hstands : ∀ a previous, entry = .account a previous →
      Taken db.accounts[a]? → Taken previous) : Upright db (j.undo entry) := by
  refine ⟨h.toLinked.undo entry hmissing, ?_, ?_, ?_, ?_, ?_⟩
  · intro entry' hmem
    rw [undo_entries] at hmem
    exact (covers_undo j entry' entry).mpr (h.covers entry' hmem)
  · intro a htaken
    rw [view_undo hcovers]
    cases entry with
    | account a' previous =>
      show Taken (if a' = a then previous else j.view.accounts a)
      by_cases ha : a' = a
      · subst ha
        rw [if_pos rfl]
        exact hstands a' previous rfl htaken
      · rw [if_neg ha]
        exact h.stands a htaken
    | _ => exact h.stands a htaken
  · intro a previous hmem
    rw [undo_entries] at hmem
    exact h.undoneStands a previous hmem
  · intro hash hmem
    rw [undo_codes]
    refine h.queued hash ?_
    cases entry with
    | code hash' => exact Std.ExtTreeSet.mem_of_mem_erase hmem
    | account a previous => simp only [Journal.undo] at hmem; split at hmem <;> exact hmem
    | storage s previous => simp only [Journal.undo] at hmem; split at hmem <;> exact hmem
    | _ => exact hmem
  · intro a hmem
    rw [undo_accounts, Option.isSome_map]
    refine h.marked a ?_
    cases entry with
    | destroyed a' => exact Std.ExtTreeSet.mem_of_mem_erase hmem
    | account a previous => simp only [Journal.undo] at hmem; split at hmem <;> exact hmem
    | storage s previous => simp only [Journal.undo] at hmem; split at hmem <;> exact hmem
    | _ => exact hmem

/-- The newest entry is taken off and undone. -/
theorem undoHead (h : Upright db j) {entry : Undo} {rest : List Undo}
    (hentries : j.entries = entry :: rest) :
    Upright db ({ j with entries := rest }.undo entry) ∧
      ({ j with entries := rest }.undo entry).view =
        ({ j.view with entries := rest }.undo entry) := by
  have hmem : ∀ entry', entry' ∈ rest → entry' ∈ j.entries := by
    intro entry' hmem
    rw [hentries]
    exact List.mem_cons_of_mem entry hmem
  have hhead : entry ∈ j.entries := by
    rw [hentries]
    exact List.mem_cons_self
  have hpopped : Upright db { j with entries := rest } :=
    ⟨{ h.toLinked with undone := fun a ha => h.undone a (hmem _ ha) },
      fun entry' hmem' => (covers_withEntries j rest entry').mpr (h.covers entry' (hmem _ hmem')),
      h.stands, fun a previous ha => h.undoneStands a previous (hmem _ ha), h.queued, h.marked⟩
  have hcovers : ({ j with entries := rest } : Journal Database).Covers entry :=
    (covers_withEntries j rest entry).mpr (h.covers entry hhead)
  refine ⟨hpopped.undo hcovers ?_ ?_, view_undo hcovers⟩
  · rintro a rfl
    exact h.undone a hhead
  · rintro a previous rfl
    exact h.undoneStands a previous hhead

end Upright

end Journal

end Evm
