import Evm.Proofs.Journal.Footprint

/-! # Accounts that stay

    An account that has a nonce or code is taken: no creation takes it over.
    Nothing that is done to the state takes such an account away, lowers its
    nonce or gives it other code; only undoing its creation does (`Endures`).

    This is said first of one account before and after a change, then of all
    accounts of a state, and then derived for every sequence of edits that are
    mild in this sense (`Edit.Enduring`).
-/

namespace Evm

/-! ## One account -/

/-- An account that no creation may take over: it has a nonce or code. -/
def Taken (account : Option Account) : Prop :=
  (account.getD .empty).nonce ≠ 0 ∨ (account.getD .empty).hasCode = true

theorem not_taken_none : ¬Taken none := by
  simp [Taken, Account.empty, Account.hasCode]

theorem taken_not_empty {account : Account} (h : Taken (some account)) : ¬account.isEmpty := by
  rcases h with h | h <;> simp_all [Account.isEmpty]

/-- An account has not lost anything that makes it taken: its nonce has not
    become smaller, and if it was taken its code is the same. -/
structure Endures (old new : Option Account) : Prop where
  nonce : (old.getD .empty).nonce ≤ (new.getD .empty).nonce
  code : Taken old → (new.getD .empty).codeHash = (old.getD .empty).codeHash

namespace Endures

variable {old mid new : Option Account}

theorem refl (account : Option Account) : Endures account account := ⟨Nat.le_refl _, fun _ => rfl⟩

/-- A change that keeps the code, and does not lower the nonce. -/
theorem of_code (hnonce : (old.getD .empty).nonce ≤ (new.getD .empty).nonce)
    (hcode : (new.getD .empty).codeHash = (old.getD .empty).codeHash) : Endures old new :=
  ⟨hnonce, fun _ => hcode⟩

/-- An account that is not taken may be given any code. -/
theorem of_free (hfree : ¬Taken old) : Endures old new := by
  have hzero : (old.getD .empty).nonce = 0 := by
    apply Decidable.byContradiction
    exact fun hne => hfree (.inl hne)
  exact ⟨by omega, fun htaken => absurd htaken hfree⟩

/-- What is taken stays taken. -/
theorem taken (h : Endures old new) (htaken : Taken old) : Taken new := by
  have hcode := h.code htaken
  rcases htaken with hnonce | hhas
  · have hle := h.nonce
    exact .inl (by omega)
  · refine .inr ?_
    simp only [Account.hasCode] at hhas ⊢
    rwa [hcode]

theorem trans (h : Endures old mid) (h' : Endures mid new) : Endures old new :=
  ⟨Nat.le_trans h.nonce h'.nonce, fun htaken => (h'.code (h.taken htaken)).trans (h.code htaken)⟩

end Endures

/-! ## All accounts of a state -/

/-- An edit that takes nothing away from an account that is taken. -/
def Edit.Enduring : Edit → Prop
  | .account _ previous new => Endures previous (some new)
  | _ => True

namespace Journal

variable {β : Type} [Backend β] {b j j' : Journal β}

/-- Every account of one state endures in another one. -/
def Endures (b j : Journal β) : Prop :=
  ∀ a old, b.presentAccount a = .ok old →
    ∃ new, j.presentAccount a = .ok new ∧ Evm.Endures old new

namespace Endures

theorem refl (j : Journal β) : j.Endures j := fun _ old hold => ⟨old, hold, .refl old⟩

theorem trans (h : b.Endures j) (h' : j.Endures j') : b.Endures j' := by
  intro a old hold
  obtain ⟨mid, hmid, hbefore⟩ := h a old hold
  obtain ⟨new, hnew, hafter⟩ := h' a mid hmid
  exact ⟨new, hnew, hbefore.trans hafter⟩

/-- What is seen of the accounts is the same. -/
theorem of_same (h : ∀ a, j.presentAccount a = b.presentAccount a) : b.Endures j :=
  fun a old hold => ⟨old, (h a).trans hold, .refl old⟩

theorem of_restored (h : Restored b j) : b.Endures j := of_same h.presentAccount_eq

/-- An edit of one account. -/
theorem of_account {a : Address} {previous : Option Account} {new : Account}
    (happ : (Edit.account a previous new).Applies j j') (h : Evm.Endures previous (some new)) :
    j.Endures j' := by
  intro a' old hold
  by_cases ha : a' = a
  · subst ha
    obtain ⟨hbefore, hafter⟩ := happ.presentAccount
    rw [hold] at hbefore
    cases hbefore
    exact ⟨some new, hafter, h⟩
  · refine ⟨old, ?_, .refl old⟩
    rw [happ.presentAccount_of_ne, hold]
    intro previous' new' heq
    cases heq
    exact ha rfl

theorem of_changes (h : Changes Edit.Enduring j j') : j.Endures j' := by
  refine h.invariant (P := fun k => j.Endures k) ?_ (refl j)
  intro e k k' he happ hk
  refine hk.trans ?_
  cases e with
  | account a previous new => exact of_account happ he
  | _ => exact of_same fun a => happ.presentAccount_of_ne nofun

end Endures

/-! ## Taken and free addresses -/

/-- The account at an address is taken. -/
def Stands (j : Journal β) (a : Address) : Prop :=
  ∃ account, j.presentAccount a = .ok account ∧ Taken account

/-- There is nothing at an address that keeps a creation from it. -/
def Free (j : Journal β) (a : Address) : Prop :=
  ∃ old, j.presentAccount a = .ok old ∧ ¬Taken old

theorem Endures.stands (h : b.Endures j) {a : Address} (hstands : b.Stands a) : j.Stands a := by
  obtain ⟨old, hold, htaken⟩ := hstands
  obtain ⟨new, hnew, hendures⟩ := h a old hold
  exact ⟨new, hnew, hendures.taken htaken⟩

/-- Where an address is free, no account is taken. -/
theorem Free.not_stands {a : Address} (h : j.Free a) : ¬j.Stands a := by
  rintro ⟨account, haccount, htaken⟩
  obtain ⟨old, hold, hfree⟩ := h
  rw [haccount] at hold
  cases hold
  exact hfree htaken

/-- Where no account was taken anything may be put. -/
theorem Endures.of_not_stands {a : Address} {previous : Option Account} {new : Account}
    (h : b.Endures j) (hnone : ¬b.Stands a) (happ : (Edit.account a previous new).Applies j j') :
    b.Endures j' := by
  intro a' old hold
  by_cases ha : a' = a
  · subst ha
    have hfree : ¬Taken old := fun htaken => hnone ⟨old, hold, htaken⟩
    exact ⟨some new, happ.presentAccount.2, .of_free hfree⟩
  · obtain ⟨mid, hmid, hendures⟩ := h a' old hold
    refine ⟨mid, ?_, hendures⟩
    rw [happ.presentAccount_of_ne, hmid]
    intro previous' new' heq
    cases heq
    exact ha rfl

/-- At an address that was free anything may be put. -/
theorem Endures.of_free {a : Address} {previous : Option Account} {new : Account}
    (h : b.Endures j) (hfree : b.Free a) (happ : (Edit.account a previous new).Applies j j') :
    b.Endures j' :=
  h.of_not_stands hfree.not_stands happ

/-! ## Operations -/

/-- A transfer changes nothing of an account but its balance. -/
theorem transfer_enduring (source target : Address) (amount : Word) :
    Edits Edit.Enduring (transfer source target amount : JournalM β Unit) := by
  refine transfer_edits (fun _ => trivial) ?_ ?_
  · rintro _ _ previous _ ⟨_, rfl⟩
    exact .of_code (Nat.le_refl _) rfl
  · rintro _ _ previous _ ⟨_, rfl⟩
    exact .of_code (Nat.le_refl _) rfl

/-- Where code is found, the account is taken. -/
theorem code_stands {a : Address} {c : Bytes} {hash : Hash} (h : code a j = .ok (c, hash) j')
    (hc : c.isEmpty = false) : j.Stands a := by
  unfold code at h
  obtain ⟨account, j1, haccount, h⟩ := bind_ok h
  obtain ⟨old, hold, rfl, _⟩ := account_ok haccount
  refine ⟨old, hold, .inr ?_⟩
  by_cases hnone : (old.getD .empty).codeHash = emptyCodeHash ∨ (old.getD .empty).codeHash.isZero
  · rw [if_pos hnone] at h
    cases h
    cases hc
  · simpa [Account.hasCode, not_or] using hnone

end Journal

end Evm
