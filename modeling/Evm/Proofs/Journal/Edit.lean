import Evm.Proofs.EndState
import Evm.Proofs.Journal.Revert
import Mathlib.Logic.Relation

/-! # Atomic changes of the state

    Every operation on the state is a sequence of a few kinds of atomic
    changes: something is read into the cache, or one thing is written and
    noted in the journal. An `Edit` names such a change and says as much of
    it as its effects on others depend on.

    What an operation may do is then a set of edits (`Edits ok op`), whether
    the operation succeeds or fails, and a property of the state that every
    edit of the set keeps is kept by the operation. The one property that all
    edits have is that they can be undone (`Changes.revertsTo`).
-/

namespace Evm

/-! ## Edits -/

/-- One atomic change of the state. -/
inductive Edit where
  /-- An account is read from the store. -/
  | readAccount (a : Address)
  /-- A slot is read from the store. -/
  | readSlot (s : Slot)
  /-- A code becomes known. -/
  | learnCode (hash : Hash) (code : Bytes)
  | account (a : Address) (previous : Option Account) (new : Account)
  | storage (s : Slot) (new : Word)
  | transient (s : Slot) (new : Word)
  | warmAddress (a : Address)
  | warmSlot (s : Slot)
  | log (entry : Log)
  /-- Code is put on the list of codes to write. -/
  | queueCode (hash : Hash)
  | created (a : Address)
  | destroyed (a : Address)

namespace Edit

/-- The set of all edits. -/
def Any (_ : Edit) : Prop := True

/-- The edits that add to the cache only. -/
def IsRead : Edit → Prop
  | .readAccount _ | .readSlot _ | .learnCode _ _ => True
  | _ => False

variable {β : Type} [Backend β]

/-- The edit takes the first state to the second. -/
inductive Applies : Edit → Journal β → Journal β → Prop where
  | readAccount {j : Journal β} {a : Address} {found : Option Account} :
    j.accounts[a]? = none → Backend.account? j.backend a = .ok found →
    Applies (.readAccount a) j { j with accounts := j.accounts.insert a ⟨found, found⟩ }
  | readSlot {j : Journal β} {s : Slot} {value : Word} :
    j.slots[s]? = none → j.storedValue s = .ok value →
    Applies (.readSlot s) j { j with slots := j.slots.insert s ⟨value, value⟩ }
  | learnCode {j : Journal β} (hash : Hash) (code : Bytes) :
    Applies (.learnCode hash code) j { j with codes := j.codes.insert hash code }
  | account {j : Journal β} {a : Address} {cached : CachedAccount} (new : Account) :
    j.accounts[a]? = some cached →
    Applies (.account a cached.present new) j
      ({ j with accounts := j.accounts.insert a { cached with present := some new } }.note
        (.account a cached.present))
  | storage {j : Journal β} {s : Slot} {value : SlotValue} (new : Word) :
    j.slots[s]? = some value →
    Applies (.storage s new) j
      ({ j with slots := j.slots.insert s { value with present := new } }.note
        (.storage s value.present))
  | transient {j : Journal β} (s : Slot) (new : Word) :
    Applies (.transient s new) j (j.tstore s new)
  | warmAddress {j : Journal β} {a : Address} :
    a ∉ j.warmAddresses →
    Applies (.warmAddress a) j
      ({ j with warmAddresses := j.warmAddresses.insert a }.note (.warmAddress a))
  | warmSlot {j : Journal β} {s : Slot} :
    s ∉ j.warmSlots →
    Applies (.warmSlot s) j ({ j with warmSlots := j.warmSlots.insert s }.note (.warmSlot s))
  | log {j : Journal β} (entry : Log) : Applies (.log entry) j (j.addLog entry)
  | queueCode {j : Journal β} {hash : Hash} :
    hash ∉ j.newCode →
    Applies (.queueCode hash) j ({ j with newCode := j.newCode.insert hash }.note (.code hash))
  | created {j : Journal β} {a : Address} :
    a ∉ j.created →
    Applies (.created a) j ({ j with created := j.created.insert a }.note (.created a))
  | destroyed {j : Journal β} {a : Address} :
    a ∉ j.destroyed →
    Applies (.destroyed a) j ({ j with destroyed := j.destroyed.insert a }.note (.destroyed a))

end Edit

/-! ## What an edit leaves alone -/

/-- A part of the state that an edit may be of. -/
inductive Part where
  | accounts | slots | codes | newCode | transient | warmAddresses | warmSlots | logs | created
  | destroyed

/-- Two states agree in a part. -/
def Part.Same {β : Type} (j j' : Journal β) : Part → Prop
  | .accounts => j'.accounts = j.accounts
  | .slots => j'.slots = j.slots
  | .codes => j'.codes = j.codes
  | .newCode => j'.newCode = j.newCode
  | .transient => j'.transient = j.transient
  | .warmAddresses => j'.warmAddresses = j.warmAddresses
  | .warmSlots => j'.warmSlots = j.warmSlots
  | .logs => j'.logs = j.logs
  | .created => j'.created = j.created
  | .destroyed => j'.destroyed = j.destroyed

theorem Part.Same.refl {β : Type} (p : Part) (j : Journal β) : p.Same j j := by
  cases p <;> rfl

theorem Part.Same.trans {β : Type} {p : Part} {j j' j'' : Journal β} (h : p.Same j j')
    (h' : p.Same j' j'') : p.Same j j'' := by
  cases p <;> exact Eq.trans h' h

namespace Edit

/-- The part of the state that an edit is of. -/
def part : Edit → Part
  | .readAccount _ | .account _ _ _ => .accounts
  | .readSlot _ | .storage _ _ => .slots
  | .learnCode _ _ => .codes
  | .queueCode _ => .newCode
  | .transient _ _ => .transient
  | .warmAddress _ => .warmAddresses
  | .warmSlot _ => .warmSlots
  | .log _ => .logs
  | .created _ => .created
  | .destroyed _ => .destroyed

variable {β : Type} [Backend β] {j j' : Journal β} {e : Edit}

/-- An edit leaves every other part of the state alone. -/
theorem Applies.same (h : e.Applies j j') {p : Part} (hp : e.part ≠ p) : p.Same j j' := by
  cases h <;> cases p <;> first | rfl | exact absurd rfl hp

/-- The store is not edited. -/
theorem Applies.backend (h : e.Applies j j') : j'.backend = j.backend := by
  cases h <;> rfl

/-- An account is seen to change only by an edit of that account. -/
theorem Applies.presentAccount_of_ne (h : e.Applies j j') {a : Address}
    (hne : ∀ previous new, e ≠ .account a previous new) :
    j'.presentAccount a = j.presentAccount a := by
  cases h with
  | @readAccount _ a' found hnone hread =>
    unfold Journal.presentAccount
    by_cases ha : a' = a
    · -- what is cached now is what the store has
      subst ha
      rw [Std.ExtTreeMap.getElem?_insert_self, hnone]
      exact hread.symm
    · rw [getElem?_insert_of_ne _ ha]
  | @account _ a' cached new hcached =>
    have ha : a' ≠ a := by
      rintro rfl
      exact hne cached.present new rfl
    unfold Journal.presentAccount Journal.note
    rw [getElem?_insert_of_ne _ ha]
  | _ => exact Journal.presentAccount_congr rfl rfl a

theorem Applies.presentAccount {a : Address} {previous : Option Account} {new : Account}
    (h : (Edit.account a previous new).Applies j j') :
    j.presentAccount a = .ok previous ∧ j'.presentAccount a = .ok (some new) := by
  cases h with
  | account new hcached =>
    unfold Journal.presentAccount Journal.note
    rw [hcached, Std.ExtTreeMap.getElem?_insert_self]
    exact ⟨rfl, rfl⟩

/-- A slot that is not cached reads alike as long as its account does not come
    into being. -/
theorem Applies.presentStorage_of_ne (h : e.Applies j j') {s : Slot}
    (hne : ∀ new, e ≠ .storage s new) (hcreated : e ≠ .created s.address) :
    j'.presentStorage s = j.presentStorage s := by
  cases h with
  | @readSlot _ s' value hnone hread =>
    unfold Journal.presentStorage
    by_cases hs : s' = s
    · subst hs
      rw [Std.ExtTreeMap.getElem?_insert_self, hnone]
      exact hread.symm
    · rw [getElem?_insert_of_ne _ hs]
      rfl
  | @storage _ s' value new hvalue =>
    have hs : s' ≠ s := by
      rintro rfl
      exact hne new rfl
    unfold Journal.presentStorage Journal.note
    rw [getElem?_insert_of_ne _ hs]
    rfl
  | @created _ a hnew =>
    have hne' : a ≠ s.address := fun heq => hcreated (by rw [heq])
    unfold Journal.presentStorage Journal.note Journal.storedValue
    simp only [contains_insert_of_ne _ hne']
  | _ => rfl

end Edit

/-! ## Transient storage -/

namespace TransientStorage

theorem ext_values {t t' : TransientStorage} (h : t.values = t'.values) : t = t' := by
  cases t
  cases t'
  simp_all

theorem values_write (t : TransientStorage) (s r : Slot) (value : Word) :
    (t.write s value).values[r]? =
      if s = r then (if value = 0 then none else some value) else t.values[r]? := by
  unfold write
  split
  · by_cases hr : s = r <;> simp [Std.ExtTreeMap.getElem?_erase, hr]
  · by_cases hr : s = r <;> simp [Std.ExtTreeMap.getElem?_insert, hr]

/-- Writing back what was read undoes a write. -/
theorem write_write_read (t : TransientStorage) (s : Slot) (value : Word) :
    (t.write s value).write s (t.read s) = t := by
  apply ext_values
  apply Std.ExtTreeMap.ext_getElem?
  intro r
  rw [values_write, values_write]
  split
  · next hr =>
    subst hr
    unfold read
    rw [Std.ExtTreeMap.getD_eq_getD_getElem?]
    -- a slot without a value reads as zero, and zero is written by erasing
    cases hs : t.values[s]? with
    | none => simp
    | some w =>
      have hw : w ≠ 0 := fun h0 => t.nonzero s (h0 ▸ hs)
      rw [Option.getD_some, if_neg hw]
  · rfl

end TransientStorage

/-! ## Every edit can be undone -/

namespace Edit

variable {β : Type} [Backend β] {j j' : Journal β} {e : Edit}

open Journal

/-- A read adds to the cache only. -/
theorem restored_of_read_account {a : Address} {found : Option Account}
    (hnone : j.accounts[a]? = none) (hread : Backend.account? j.backend a = .ok found) :
    Restored j { j with accounts := j.accounts.insert a ⟨found, found⟩ } := by
  have hother : ∀ a', j.accounts[a']? ≠ none → a ≠ a' := by
    rintro a' hcached rfl
    exact hcached hnone
  refine { Restored.refl j with accounts := ?_, readAccounts := ?_ }
  · intro a' cached h
    have hne : a ≠ a' := hother a' (by rw [h]; nofun)
    rw [getElem?_insert_of_ne _ hne, h]
  · intro a' cached hnone' h
    by_cases ha : a = a'
    · subst ha
      rw [Std.ExtTreeMap.getElem?_insert_self] at h
      cases h
      exact ⟨rfl, hread⟩
    · rw [getElem?_insert_of_ne _ ha, hnone'] at h
      cases h

theorem restored_of_read_slot {s : Slot} {value : Word} (hnone : j.slots[s]? = none) :
    Restored j { j with slots := j.slots.insert s ⟨value, value⟩ } := by
  have hother : ∀ s', j.slots[s']? ≠ none → s ≠ s' := by
    rintro s' hcached rfl
    exact hcached hnone
  refine { Restored.refl j with slots := ?_, readSlots := ?_ }
  · intro s' v h
    have hne : s ≠ s' := hother s' (by rw [h]; nofun)
    rw [getElem?_insert_of_ne _ hne, h]
  · intro s' v hnone' h
    by_cases hs : s = s'
    · subst hs
      rw [Std.ExtTreeMap.getElem?_insert_self] at h
      cases h
      rfl
    · rw [getElem?_insert_of_ne _ hs, hnone'] at h
      cases h

/-- A write is undone by its entry in the journal. -/
theorem revertsTo_of_note {w : Journal β} {entry : Undo} (hentries : w.entries = j.entries)
    (hcovers : w.Covers entry) (hundo : w.undo entry = j) : RevertsTo j (w.note entry) := by
  -- reverting to `j` undoes just the one entry
  have hlength : (w.note entry).entries.length - j.entries.length = 1 := by
    simp only [note, hentries, List.length_cons]
    omega
  refine ⟨?_, ?_, ?_⟩
  · simp only [note, hentries, List.length_cons]
    omega
  · rw [hlength]
    intro e he
    simp only [note, List.take_succ_cons, List.take_zero, List.mem_singleton] at he
    subst he
    exact (covers_withEntries w _ e).mpr hcovers
  · have hrevert : (w.note entry).revert j.checkpoint = j := by
      unfold revert checkpoint
      rw [hlength]
      exact hundo
    rw [hrevert]
    exact Restored.refl j

theorem restored_of_learn_code (hash : Hash) (code : Bytes) :
    Restored j { j with codes := j.codes.insert hash code } :=
  { Restored.refl j with }

theorem IsRead.restored (hread : e.IsRead) (h : e.Applies j j') : Restored j j' := by
  cases h with
  | readAccount hnone hstore => exact restored_of_read_account hnone hstore
  | readSlot hnone _ => exact restored_of_read_slot hnone
  | learnCode hash code => exact restored_of_learn_code hash code
  | _ => exact hread.elim

/-- **Every edit can be undone.** -/
theorem Applies.revertsTo (h : e.Applies j j') : RevertsTo j j' := by
  cases h with
  | readAccount hnone hread => exact (restored_of_read_account hnone hread).revertsTo
  | readSlot hnone _ => exact (restored_of_read_slot hnone).revertsTo
  | learnCode hash code => exact (restored_of_learn_code hash code).revertsTo
  -- a write to the cache puts back the value that it wrote over
  | account new hcached =>
    refine revertsTo_of_note rfl ?_ ?_
    · simp only [Covers, Std.ExtTreeMap.getElem?_insert_self, Option.isSome_some]
    · simp only [undo, Std.ExtTreeMap.getElem?_insert_self, insert_insert_of_getElem? _ hcached]
  | storage new hvalue =>
    refine revertsTo_of_note rfl ?_ ?_
    · simp only [Covers, Std.ExtTreeMap.getElem?_insert_self, Option.isSome_some]
    · simp only [undo, Std.ExtTreeMap.getElem?_insert_self, insert_insert_of_getElem? _ hvalue]
  | transient s new =>
    refine revertsTo_of_note rfl trivial ?_
    simp only [undo, putTransient, tload, TransientStorage.write_write_read]
  -- a mark is noted only if it is new, so undoing may take it out
  | warmAddress h =>
    refine revertsTo_of_note rfl trivial ?_
    simp only [undo, erase_insert_of_not_mem _ h]
  | warmSlot h =>
    refine revertsTo_of_note rfl trivial ?_
    simp only [undo, erase_insert_of_not_mem _ h]
  | log entry => exact revertsTo_of_note rfl trivial rfl
  | queueCode h =>
    refine revertsTo_of_note rfl trivial ?_
    simp only [undo, erase_insert_of_not_mem _ h]
  | created h =>
    refine revertsTo_of_note rfl trivial ?_
    simp only [undo, erase_insert_of_not_mem _ h]
  | destroyed h =>
    refine revertsTo_of_note rfl trivial ?_
    simp only [undo, erase_insert_of_not_mem _ h]

end Edit

/-! ## Sequences of edits -/

namespace Journal

variable {β : Type} [Backend β] {ok ok' : Edit → Prop} {j j' j'' : Journal β}

/-- A sequence of edits out of a set takes the first state to the second. -/
def Changes (ok : Edit → Prop) : Journal β → Journal β → Prop :=
  Relation.ReflTransGen fun j j' => ∃ e : Edit, ok e ∧ e.Applies j j'

namespace Changes

theorem refl (j : Journal β) : Changes ok j j := Relation.ReflTransGen.refl

theorem single {e : Edit} (hok : ok e) (h : e.Applies j j') : Changes ok j j' :=
  Relation.ReflTransGen.single ⟨e, hok, h⟩

theorem trans (h : Changes ok j j') (h' : Changes ok j' j'') : Changes ok j j'' :=
  Relation.ReflTransGen.trans h h'

theorem mono (himp : ∀ e, ok e → ok' e) (h : Changes ok j j') : Changes ok' j j' := by
  induction h with
  | refl => exact refl j
  | tail _ hstep ih =>
    obtain ⟨e, he, happ⟩ := hstep
    exact ih.trans (single (himp e he) happ)

/-- What every edit of a set keeps is kept by a sequence of them. -/
theorem invariant {P : Journal β → Prop}
    (hedit : ∀ e j j', ok e → e.Applies j j' → P j → P j') (h : Changes ok j j') (hj : P j) :
    P j' := by
  induction h with
  | refl => exact hj
  | tail _ hstep ih =>
    obtain ⟨e, he, happ⟩ := hstep
    exact hedit e _ _ he happ ih

/-- A sequence of edits leaves alone every part that none of them is of. -/
theorem same {p : Part} (hp : ∀ e, ok e → e.part ≠ p) (h : Changes ok j j') : p.Same j j' := by
  induction h with
  | refl => exact .refl p j
  | tail _ hstep ih =>
    obtain ⟨e, he, happ⟩ := hstep
    exact ih.trans (happ.same (hp e he))

theorem backend (h : Changes ok j j') : j'.backend = j.backend := by
  induction h with
  | refl => rfl
  | tail _ hstep ih =>
    obtain ⟨e, _, happ⟩ := hstep
    exact happ.backend.trans ih

/-- Reads add to the cache only. -/
theorem restored (h : Changes Edit.IsRead j j') : Restored j j' := by
  induction h with
  | refl => exact Restored.refl j
  | tail _ hstep ih =>
    obtain ⟨e, hread, happ⟩ := hstep
    exact ih.trans (hread.restored happ)

/-- A write after reads is of the account as it was seen before them. -/
theorem previous_eq {a : Address} {old previous : Option Account} {new : Account}
    (h : Changes Edit.IsRead j j') (hold : j.presentAccount a = .ok old)
    (happ : (Edit.account a previous new).Applies j' j'') : previous = old := by
  have hseen := h.restored.presentAccount_eq a
  rw [happ.presentAccount.1, hold] at hseen
  exact Except.ok.inj hseen

/-- A sequence of edits can be undone. -/
theorem revertsTo (h : Changes ok j j') : RevertsTo j j' := by
  induction h with
  | refl => exact RevertsTo.refl j
  | tail _ hstep ih =>
    obtain ⟨e, _, happ⟩ := hstep
    exact ih.trans happ.revertsTo

end Changes

end Journal

end Evm
