import Evm.Proofs.Engine.Invariant
import Evm.State.Database

/-! # Foreign accounts

    Only a frame that acts for an account can write its storage, spend its
    balance, count its nonce up, give it code or have it deleted. All that
    others can do to it is to add to its balance.

    The invariant is `Foreign A`. It is kept by every edit on behalf of
    another account, and by undoing since nobody but `A` reads the slots of
    `A`.
-/

namespace Evm

open Journal

variable {β : Type} [Backend β]

/-- The second account is the first with nothing done to it but credits. A
    missing account counts as the empty one. -/
def Grown (old new : Option Account) : Prop :=
  (new.getD .empty).nonce = (old.getD .empty).nonce ∧
    (new.getD .empty).codeHash = (old.getD .empty).codeHash ∧
    (old.getD .empty).balance.toNat ≤ (new.getD .empty).balance.toNat

theorem Grown.refl (account : Option Account) : Grown account account :=
  ⟨rfl, rfl, Nat.le_refl _⟩

theorem Grown.trans {old mid new : Option Account} (h : Grown old mid) (h' : Grown mid new) :
    Grown old new :=
  ⟨h'.1.trans h.1, h'.2.1.trans h.2.1, Nat.le_trans h.2.2 h'.2.2⟩

/-- A credit that does not overflow adds to the balance. -/
theorem grown_of_credited {amount : Word} {previous : Option Account} {new : Account}
    (h : Credited amount previous new) : Grown previous (some new) := by
  obtain ⟨hmax, rfl⟩ := h
  refine ⟨rfl, rfl, ?_⟩
  have hbound : Word.max.toNat = 2 ^ 256 - 1 := by decide
  show (previous.getD .empty).balance.toNat ≤ ((previous.getD .empty).balance + amount).toNat
  rw [BitVec.toNat_add, Nat.mod_eq_of_lt (by omega)]
  omega

/-- What an account keeps while others run: its storage, persistent and
    transient, its nonce and its code, and its balance does not fall. It is
    marked as it was. -/
structure Unharmed (A : Address) (b j : Journal β) : Prop where
  storage : ∀ key, j.presentStorage ⟨A, key⟩ = b.presentStorage ⟨A, key⟩
  transient : ∀ key, j.tload ⟨A, key⟩ = b.tload ⟨A, key⟩
  account : ∀ old, b.presentAccount A = .ok old →
    ∃ new, j.presentAccount A = .ok new ∧ Grown old new
  created : j.isCreated A = b.isCreated A
  destroyed : j.isDestroyed A = b.isDestroyed A

/-- Only others acted since `b`: the account is unharmed, and its slots have
    not even been read. -/
structure Foreign (A : Address) (b j : Journal β) : Prop extends Unharmed A b j where
  backend : j.backend = b.backend
  slots : ∀ s : Slot, s.address = A → j.slots[s]? = b.slots[s]?

variable {A : Address} {b j : Journal β}

theorem Foreign.refl (A : Address) (b : Journal β) : Foreign A b b where
  storage _ := rfl
  transient _ := rfl
  account old hold := ⟨old, hold, .refl old⟩
  created := rfl
  destroyed := rfl
  backend := rfl
  slots _ _ := rfl

theorem presentStorage_congr {j' : Journal β} {s : Slot} (hslots : j'.slots[s]? = j.slots[s]?)
    (hcreated : j'.isCreated s.address = j.isCreated s.address)
    (hbackend : j'.backend = j.backend) :
    j'.presentStorage s = j.presentStorage s := by
  unfold isCreated at hcreated
  unfold presentStorage storedValue
  rw [hslots, hcreated, hbackend]

/-- **Undoing keeps it.** -/
theorem foreign_undoable (A : Address) (b : Journal β) : Undoable (Foreign A b) := by
  intro k j j' hk hj hrestored hinitial
  have hcreated : j'.isCreated A = b.isCreated A := by
    rw [← hk.created]
    unfold isCreated
    rw [hrestored.created]
  have hbackend : j'.backend = b.backend := hrestored.backend.trans hk.backend
  have hslots : ∀ s : Slot, s.address = A → j'.slots[s]? = b.slots[s]? := by
    intro s hs
    cases hb : b.slots[s]? with
    | some value =>
      have hks := hk.slots s hs
      rw [hb] at hks
      exact hrestored.slots s value hks
    | none =>
      -- nobody has read the slot, so undoing has nothing to show
      have hmap := hinitial s
      rw [hj.slots s hs, hb, Option.map_none, Option.map_eq_none_iff] at hmap
      exact hmap
  refine ⟨⟨?_, ?_, ?_, hcreated, ?_⟩, hbackend, hslots⟩
  · intro key
    exact presentStorage_congr (hslots ⟨A, key⟩ rfl) hcreated hbackend
  · intro key
    rw [← hk.transient key]
    unfold tload
    rw [hrestored.transient]
  · intro old hold
    rw [hrestored.presentAccount_eq]
    exact hk.account old hold
  · rw [← hk.destroyed]
    unfold isDestroyed
    rw [hrestored.destroyed]

omit [Backend β] in
/-- Transient storage of one account is not seen to change by writes of
    another. -/
theorem tload_tstore_of_ne {s r : Slot} (h : s ≠ r) (value : Word) :
    (j.tstore s value).tload r = j.tload r := by
  show ((j.transient.write s value).read r) = j.transient.read r
  unfold TransientStorage.read
  rw [Std.ExtTreeMap.getD_eq_getD_getElem?, Std.ExtTreeMap.getD_eq_getD_getElem?,
    TransientStorage.values_write, if_neg h]

/-- **What is done on behalf of another account** can only credit this one. -/
theorem foreign_kept {self : Address} (hself : self ≠ A) (b : Journal β) (isStatic : Bool) :
    KeptBy (Foreign A b) (Edit.By self isStatic) := by
  intro e j j' he happ hj
  have hother : ∀ a, a = self → a ≠ A := by
    rintro a rfl
    exact hself
  refine ⟨⟨?_, ?_, ?_, ?_, ?_⟩, happ.backend.trans hj.backend, ?_⟩
  · -- slots are written, and marks made, at the acting account only
    intro key
    rw [← hj.storage key]
    apply happ.presentStorage_of_ne
    · rintro new rfl
      exact hother A he.1 rfl
    · rintro rfl
      exact hother A he.1 rfl
  · intro key
    rw [← hj.transient key]
    cases happ with
    | transient s new =>
      refine tload_tstore_of_ne ?_ new
      rintro rfl
      exact hother A he.1 rfl
    | _ => rfl
  · -- only an edit of `A` itself shows there, and it is a credit
    intro old hold
    obtain ⟨mid, hmid, hgrown⟩ := hj.account old hold
    by_cases hedit : ∃ previous new, e = .account A previous new
    · obtain ⟨previous, new, rfl⟩ := hedit
      obtain ⟨hprevious, hnew⟩ := happ.presentAccount
      rw [hmid] at hprevious
      cases hprevious
      rcases he.2 with howner | ⟨amount, hcredited⟩
      · exact absurd rfl (hother A howner)
      · exact ⟨some new, hnew, hgrown.trans (grown_of_credited hcredited)⟩
    · refine ⟨mid, ?_, hgrown⟩
      rw [← hmid]
      apply happ.presentAccount_of_ne
      intro previous new heq
      exact hedit ⟨previous, new, heq⟩
  · rw [← hj.created]
    cases happ with
    | @created _ a _ => exact contains_insert_of_ne _ (hother a he.1)
    | _ => rfl
  · rw [← hj.destroyed]
    cases happ with
    | @destroyed _ a _ => exact contains_insert_of_ne _ (hother a he.1)
    | _ => rfl
  · intro s hs
    rw [← hj.slots s hs]
    have hne : ∀ r : Slot, r.address = self → r ≠ s := by
      rintro r hr rfl
      exact hother _ hr hs
    cases happ with
    | @readSlot _ r _ _ _ => exact getElem?_insert_of_ne _ (hne r he) _
    | @storage _ r _ new _ => exact getElem?_insert_of_ne _ (hne r he.1) _
    | _ => rfl

namespace Engine

variable {e : Engine β}

/-- Opening a call is done on behalf of its caller. -/
theorem opens_by_caller {message : CallMessage} {edit : Edit} (h : message.Opens edit) :
    Edit.By message.caller false edit := by
  cases edit with
  | account a previous new =>
    obtain ⟨_, _, ⟨ha, _⟩ | ⟨_, hcredited⟩⟩ := h
    · exact ⟨rfl, .inl ha⟩
    · exact ⟨rfl, .inr ⟨_, hcredited⟩⟩
  | readAccount _ => trivial
  | learnCode _ _ => trivial
  | _ => exact h.elim

/-- **Only a frame that acts for an account can harm it.** After a call or
    creation by someone else, with no frame that acts for `A`, the account `A`
    has its storage, nonce and code, is marked as before, and is not poorer. -/
theorem foreign_account_unharmed (A : Address) (e : Engine β) :
    (∀ message : CallMessage, A ≠ message.caller →
      (∀ m, CallVisits message e m → m.current.frame.context.address ≠ A) →
      Unharmed A e.journal (call message e).2.journal) ∧
    (∀ message : CreateMessage, A ≠ message.caller →
      (∀ m, CreateVisits message e m → m.current.frame.context.address ≠ A) →
      Unharmed A e.journal (create message e).2.journal) := by
  have hundoable := foreign_undoable A e.journal
  have hstart := Foreign.refl A e.journal
  constructor
  · intro message hcaller hframes
    have hopens : KeptBy (Foreign A e.journal) message.Opens :=
      (foreign_kept hcaller.symm e.journal false).mono fun _ h => opens_by_caller h
    have hkept := call_keeps hundoable hstart hopens fun m hm =>
      foreign_kept (hframes m hm) e.journal _
    exact hkept.1.toUnharmed
  · intro message hcaller hframes
    have hkept := create_keeps hundoable hstart (foreign_kept hcaller.symm e.journal false)
      fun m hm => foreign_kept (hframes m hm) e.journal _
    exact hkept.1.toUnharmed

/-- A call with one frame, of a contract that sets a slot of its own, and a
    creation that is refused. -/
theorem foreign_account_unharmed_bystander :
    let code : Bytes := ⟨#[0x60, 1, 0x60, 0, 0x55]⟩
    let store : Database :=
      { Database.empty with
        accounts := Std.ExtTreeMap.empty.insert (.ofNat 77) ⟨1, 0, ⟨1⟩⟩
        code := Std.ExtTreeMap.empty.insert ⟨1⟩ code }
    let engine := new store .default (.ofHardfork .cancun)
    let bystander := Address.ofNat 20
    let message : CallMessage :=
      ⟨.call, .ofNat 33, .ofNat 77, .ofNat 77, .transfer 0, ByteArray.empty, 50000, false, 0⟩
    let creation : CreateMessage := ⟨.ofNat 33, .create, 1, ByteArray.empty, 50000, 0⟩
    bystander ≠ message.caller ∧
      (∀ m, CallVisits message engine m → m.current.frame.context.address ≠ bystander) ∧
      Unharmed bystander engine.journal (call message engine).2.journal ∧
      bystander ≠ creation.caller ∧
      (∀ m, CreateVisits creation engine m → m.current.frame.context.address ≠ bystander) ∧
      Unharmed bystander engine.journal (create creation engine).2.journal := by
  intro code store engine bystander message creation
  have hcaller : bystander ≠ message.caller := by decide
  -- the first frame ends without asking for another one
  have hends : ∀ act e', startCall message engine = (.run act, e') →
      ∀ m, (⟨e', act, [], none⟩ : Machine Database).advance ≠ .running m := by
    have hcompute : (match startCall message engine with
        | (.run act, e') =>
          match (⟨e', act, [], none⟩ : Machine Database).advance with
          | .running _ => false
          | .finished _ _ => true
        | _ => false) = true := by decide +kernel
    intro act e' hstart m hadvance
    rw [hstart] at hcompute
    simp only [hadvance] at hcompute
    cases hcompute
  have hcalls : ∀ m, CallVisits message engine m →
      m.current.frame.context.address ≠ bystander := by
    rintro m ⟨act, e', hstart, hvisits⟩
    have hfirst := hends act e' hstart
    rcases Relation.ReflTransGen.cases_head hvisits with rfl | ⟨next, hnext, _⟩
    · have hspec := startCall_spec message engine
      rw [hstart] at hspec
      cases hspec with
      | opened _ => exact (by decide : Address.ofNat 77 ≠ Address.ofNat 20)
    · exact absurd hnext (hfirst next)
  have hcreates : ∀ m, CreateVisits creation engine m →
      m.current.frame.context.address ≠ bystander := by
    rintro m ⟨act, e', hstart, _⟩
    have hrefused : (match (startCreate creation engine).1 with
        | .run _ => false
        | .done _ => true) = true := by decide +kernel
    rw [hstart] at hrefused
    cases hrefused
  exact ⟨hcaller, hcalls, (foreign_account_unharmed bystander engine).1 message hcaller hcalls,
    hcaller, hcreates, (foreign_account_unharmed bystander engine).2 creation hcaller hcreates⟩

end Engine

end Evm
