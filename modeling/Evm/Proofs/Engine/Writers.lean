import Evm.Proofs.Database
import Evm.Proofs.Engine.Invariant
import Evm.Proofs.Engine.Session
import Evm.Proofs.Engine.Static
import Evm.Proofs.Journal.Settlement

/-! # Writers of storage

    The storage of an account is written by frames that act for it and may
    write, and by nobody else. So a slot of a database that a transaction leaves
    with another value, and not with zero, belongs to an account that such a
    frame acted for (`transact_writer`). Zero is left without a writer where the
    account is deleted, since its slots go with it.

    The invariant is `Unwritten A`: what is cached of the slots of `A` is as it
    was read, and what the database has of them is as before or gone. It is kept
    by every edit but a write to `A`, by undoing, and by every round of a
    settlement, which writes only slots that changed.
-/

namespace Evm

open Journal

variable {A : Address} {db : Database} {j j' : Journal Database}

/-- Nobody has written to the slots of an account since the database was `db`. -/
structure Unwritten (A : Address) (db : Database) (j : Journal Database) : Prop where
  slots : ∀ (s : Slot) (value : SlotValue), s.address = A → j.slots[s]? = some value →
    value.present = value.initial
  stored : ∀ s : Slot, s.address = A →
    j.backend.storageValue s = db.storageValue s ∨ j.backend.storageValue s = 0

namespace Unwritten

theorem start (A : Address) (db : Database) : Unwritten A db (.ofBackend db) where
  slots s value _ hvalue := by cases hvalue
  stored _ _ := .inl rfl

/-! ## While frames run -/

/-- **Undoing keeps it**: a slot that was read since has not changed since it
    was read. -/
theorem undoable (A : Address) (db : Database) : Undoable (Unwritten A db) := by
  intro b j j' hb _ hrestored _
  constructor
  · intro s value hs hvalue
    cases hbefore : b.slots[s]? with
    | none => exact hrestored.readSlots s value hbefore hvalue
    | some old =>
      have hsame := hrestored.slots s old hbefore
      rw [hvalue] at hsame
      cases hsame
      exact hb.slots s value hs hbefore
  · rw [hrestored.backend]
    exact hb.stored

/-- **An edit keeps it** unless it writes to a slot of the account. -/
theorem kept (A : Address) (db : Database) :
    KeptBy (Unwritten A db) fun edit => ∀ s new, edit = .storage s new → s.address ≠ A := by
  intro edit j j' hedit happ hj
  refine ⟨?_, happ.backend ▸ hj.stored⟩
  intro s value hs hvalue
  cases happ with
  | readSlot hnone hread =>
    rcases getElem?_insert_eq_some _ hvalue with ⟨_, rfl⟩ | hbefore
    · rfl
    · exact hj.slots s value hs hbefore
  | @storage _ r _ new hcached =>
    rcases getElem?_insert_eq_some _ hvalue with ⟨rfl, _⟩ | hbefore
    · exact absurd hs (hedit r new rfl)
    · exact hj.slots s value hs hbefore
  | _ => exact hj.slots s value hs hvalue

/-- What is done on behalf of another account, or of one that may not write. -/
theorem kept_by {self : Address} {isStatic : Bool} (h : self = A → isStatic = true)
    (db : Database) : KeptBy (Unwritten A db) (Edit.By self isStatic) := by
  refine (kept A db).mono ?_
  rintro edit hedit s new rfl hs
  obtain ⟨hself, hwritable⟩ := hedit
  have hstatic := h (hself.symm.trans hs)
  rw [hwritable] at hstatic
  cases hstatic

/-! ## When a transaction is settled -/

theorem settleSlot (s : Slot) : Preserves (Unwritten A db) (settleSlot s) := by
  intro j hj
  unfold Journal.settleSlot
  simp only [bind_apply, get_apply]
  cases hvalue : j.slots[s]? with
  | none => exact hj
  | some value =>
    -- whatever is put in the cache is as if it had been read
    have hslots : ∀ (w : Word) (r : Slot) (cached : SlotValue), r.address = A →
        (j.slots.insert s ⟨w, w⟩)[r]? = some cached → cached.present = cached.initial := by
      intro w r cached hr hcached
      rcases getElem?_insert_eq_some _ hcached with ⟨_, rfl⟩ | hbefore
      · rfl
      · exact hj.slots r cached hr hbefore
    by_cases hgone : j.isDestroyed s.address
    · simp only [if_pos hgone]
      exact ⟨hslots 0, hj.stored⟩
    by_cases hsame : value.present = value.initial
    · simp only [if_neg hgone, if_pos hsame]
      exact hj
    simp only [if_neg hgone, if_neg hsame]
    refine ⟨hslots value.present, ?_⟩
    intro r hr
    -- a slot that changed is not one of this account
    have hne : s ≠ r := by
      rintro rfl
      exact hsame (hj.slots s value hr hvalue)
    show (j.backend.insertStorage s value.present).storageValue r = _ ∨
      (j.backend.insertStorage s value.present).storageValue r = 0
    rw [Database.storageValue_insertStorage, if_neg hne]
    exact hj.stored r hr

theorem settleCode (hash : Hash) : Preserves (Unwritten A db) (settleCode hash) := by
  intro j hj
  unfold Journal.settleCode
  simp only [bind_apply, get_apply]
  cases j.codes[hash]? with
  | none => exact hj
  | some code =>
    refine ⟨hj.slots, ?_⟩
    show ∀ s : Slot, s.address = A →
      (j.backend.insertCode hash code).storageValue s = _ ∨
        (j.backend.insertCode hash code).storageValue s = 0
    unfold Database.insertCode
    split <;> exact hj.stored

/-- An account that is deleted takes its slots with it. -/
theorem settleAccount (a : Address) : Preserves (Unwritten A db) (settleAccount a) := by
  intro j hj
  unfold Journal.settleAccount
  simp only [bind_apply, get_apply]
  cases j.accounts[a]? with
  | none => exact hj
  | some cached =>
    by_cases hsame : cached.present = cached.loaded
    · simp only [if_pos hsame]
      exact hj
    simp only [if_neg hsame]
    cases cached.present.filter fun account => !account.isEmpty with
    | some account => exact ⟨hj.slots, hj.stored⟩
    | none =>
      refine ⟨hj.slots, ?_⟩
      intro s hs
      show (j.backend.eraseAccount a).storageValue s = _ ∨
        (j.backend.eraseAccount a).storageValue s = 0
      rw [Database.storageValue_eraseAccount]
      by_cases ha : s.address = a
      · exact .inr (if_pos ha)
      · rw [if_neg ha]
        exact hj.stored s hs

theorem settle : Preserves (Unwritten A db) settle :=
  .settle (fun _ hj => ⟨hj.slots, hj.stored⟩) settleSlot settleCode settleAccount
    fun _ hj => ⟨hj.slots, hj.stored⟩

end Unwritten

namespace Engine

variable {e : Engine Database} {tx : Transaction} {callee : Address}

/-! ## The whole transaction -/

/-- The call of a transaction leaves the slots of an account alone if no frame
    that acts for it may write. -/
theorem call_unwritten {message : CallMessage} (h : Unwritten A db e.journal)
    (hframes : ∀ m, CallVisits message e m → m.current.frame.context.address = A →
      m.current.frame.context.isStatic = true) :
    Unwritten A db (call message e).2.journal := by
  have hopens : KeptBy (Unwritten A db) message.Opens := by
    refine (Unwritten.kept A db).mono ?_
    rintro edit hedit s new rfl
    exact hedit.elim
  exact (call_keeps (Unwritten.undoable A db) h hopens fun m hm =>
    Unwritten.kept_by (hframes m hm) db).1

/-- **Who writes storage.** If a slot of the database is neither zero after a
    call nor what it was before, a frame that could write acted for its
    account. -/
theorem transact_writer (hkind : tx.kind = .call callee) (hnew : e.journal = .ofBackend db)
    {s : Slot} (hne : (transact tx e).2.journal.backend.storageValue s ≠ 0)
    (hchanged : (transact tx e).2.journal.backend.storageValue s ≠ db.storageValue s) :
    ∃ m, tx.Ticks e m ∧ m.current.frame.context.address = s.address ∧
      m.current.frame.context.isStatic = false := by
  by_contra hnobody
  have hstatic : ∀ m, tx.Ticks e m → m.current.frame.context.address = s.address →
      m.current.frame.context.isStatic = true := by
    intro m hticks haddress
    apply Bool.eq_true_of_not_eq_false
    intro hwritable
    exact hnobody ⟨m, hticks, haddress, hwritable⟩
  have hstart : Unwritten s.address db e.journal := hnew ▸ .start s.address db
  -- so whatever becomes of the transaction, the slot is as it was or zero
  suffices hsame : ∀ e', Transacted tx e e' →
      e'.journal.backend.storageValue s = db.storageValue s ∨
        e'.journal.backend.storageValue s = 0 by
    rcases hsame _ (transact_spec tx e) with hbefore | hzero
    · exact hchanged hbefore
    · exact hne hzero
  have hchanges := prepare_changes tx e
  have hprepared : Unwritten s.address db (prepare tx e).2.journal := by
    refine ((Unwritten.kept s.address db).mono ?_).changes hchanges hstart
    rintro edit hedit r new rfl
    exact hedit.elim
  intro after htransacted
  cases htransacted with
  | rejected _ => exact hstart.stored s rfl
  | @unprepared _ e' hprepare =>
    rw [hprepare] at hprepared
    rw [discard_backend]
    exact hprepared.stored s rfl
  | @ran e' _ hgas hprepare hfinished =>
    rw [hprepare] at hprepared
    have hperformed : Unwritten s.address db
        ((tx.request (tx.gasLimit - intrinsicGas e.config tx)).perform e').2.journal := by
      have hticks : ∀ m, (tx.request (tx.gasLimit - intrinsicGas e.config tx)).Ticks e' m →
          tx.Ticks e m := fun m hm => ⟨hgas, e', hprepare, hm⟩
      unfold Transaction.request at hticks ⊢
      rw [hkind] at hticks ⊢
      refine call_unwritten hprepared ?_
      rintro m ⟨act, e'', hstarted, hvisits⟩
      exact hstatic m (hticks m ⟨act, e'', hstarted, Machine.ticks_of_visits hvisits⟩)
    cases hfinished with
    | discarded _ =>
      rw [discard_backend]
      exact hperformed.stored s rfl
    | settled _ hsettle =>
      have hsettled := Unwritten.settle _ hperformed
      rw [hsettle] at hsettled
      exact hsettled.stored s rfl
    | refused _ hsettle =>
      have hsettled := Unwritten.settle _ hperformed
      rw [hsettle] at hsettled
      rw [discard_backend]
      exact hsettled.stored s rfl

end Engine

end Evm
