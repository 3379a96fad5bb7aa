import Evm.Proofs.Journal.Failure
import Mathlib.Algebra.BigOperators.Group.Finset.Basic
import Mathlib.Algebra.Order.BigOperators.Group.Finset
import Mathlib.Data.Fintype.EquivFin

/-! # The sum of all balances

    A debit takes its amount from the sum over all addresses, a credit adds
    it, and nothing else moves the sum. A transfer that succeeds is one of
    each. A single balance is part of the sum, so while the sum fits into a
    word a credit of what was debited before does not overflow.
-/

namespace Evm

/-- There are `2 ^ 160` addresses. -/
noncomputable instance : Fintype Address :=
  Fintype.ofInjective (fun a : Address => a.bits.toFin) fun a b h => by
    cases a
    cases b
    exact congrArg Address.mk (BitVec.eq_of_toFin_eq h)

/-- The balance of an account, none if it is missing. -/
def balanceOf (acc : Option Account) : Nat := (acc.getD .empty).balance.toNat

/-- An edit that leaves all balances as they are. -/
def Edit.KeepsBalance : Edit → Prop
  | .account _ previous new => new.balance.toNat = balanceOf previous
  | _ => True

/-- An edit that changes no account. -/
def Edit.SparesAccounts : Edit → Prop
  | .account _ _ _ => False
  | _ => True

namespace Journal

variable {β : Type} [Backend β] {j j' j'' : Journal β} {ok : Edit → Prop}

/-- The balance at an address as execution sees it. An account that the store
    cannot read has none that could be moved. -/
def balanceAt (j : Journal β) (a : Address) : Nat :=
  match j.presentAccount a with
  | .ok acc => balanceOf acc
  | .error _ => 0

/-- The sum of the balances at all addresses. -/
noncomputable def total (j : Journal β) : Nat := ∑ a : Address, j.balanceAt a

theorem balanceAt_of_ok {a : Address} {acc : Option Account}
    (h : j.presentAccount a = .ok acc) : j.balanceAt a = balanceOf acc := by
  unfold balanceAt
  rw [h]

theorem balanceAt_congr {a : Address} (h : j'.presentAccount a = j.presentAccount a) :
    j'.balanceAt a = j.balanceAt a := by
  unfold balanceAt
  rw [h]

/-! ## Sums -/

theorem total_congr (h : ∀ a, j'.presentAccount a = j.presentAccount a) :
    j'.total = j.total :=
  Finset.sum_congr rfl fun a _ => balanceAt_congr (h a)

theorem Restored.total_eq (h : Restored j j') : j'.total = j.total :=
  total_congr h.presentAccount_eq

/-- Changing one balance changes the sum by the new one minus the old one. -/
theorem total_change {a : Address} (h : ∀ a', a' ≠ a → j'.balanceAt a' = j.balanceAt a') :
    j'.total + j.balanceAt a = j.total + j'.balanceAt a := by
  have hj := Finset.add_sum_erase Finset.univ j.balanceAt (Finset.mem_univ a)
  have hj' := Finset.add_sum_erase Finset.univ j'.balanceAt (Finset.mem_univ a)
  have hrest : ∑ x ∈ Finset.univ.erase a, j'.balanceAt x =
      ∑ x ∈ Finset.univ.erase a, j.balanceAt x :=
    Finset.sum_congr rfl fun x hx => h x (Finset.ne_of_mem_erase hx)
  unfold total
  omega

/-- A single balance is part of the sum. -/
theorem balanceAt_le_total (j : Journal β) (a : Address) : j.balanceAt a ≤ j.total :=
  Finset.single_le_sum (fun _ _ => Nat.zero_le _) (Finset.mem_univ a)

/-- The sum is that of the addresses that have a balance. -/
theorem total_eq_sum (funded : Finset Address) (h : ∀ a, a ∉ funded → j.balanceAt a = 0) :
    j.total = ∑ a ∈ funded, j.balanceAt a :=
  (Finset.sum_subset (Finset.subset_univ funded) fun a _ ha => h a ha).symm

/-! ## Edits -/

/-- What writing an account does to the balances. -/
structure Rebalanced (a : Address) (before after : Nat) (j j' : Journal β) : Prop where
  before : j.balanceAt a = before
  after : j'.balanceAt a = after
  others : ∀ a', a' ≠ a → j'.balanceAt a' = j.balanceAt a'

theorem Rebalanced.total {a : Address} {before after : Nat}
    (h : Rebalanced a before after j j') : j'.total + before = j.total + after := by
  have hchange := total_change h.others
  rwa [h.before, h.after] at hchange

theorem applies_rebalanced {a : Address} {previous : Option Account} {new : Account}
    (h : (Edit.account a previous new).Applies j j') :
    Rebalanced a (balanceOf previous) new.balance.toNat j j' where
  before := balanceAt_of_ok h.presentAccount.1
  after := balanceAt_of_ok h.presentAccount.2
  others a' ha := by
    apply balanceAt_congr
    apply h.presentAccount_of_ne
    rintro previous' new' heq
    cases heq
    exact ha rfl

theorem applies_total {e : Edit} (h : e.Applies j j') (he : e.KeepsBalance) :
    j'.total = j.total := by
  cases e with
  | account a previous new =>
    have htotal := (applies_rebalanced h).total
    have hsame : new.balance.toNat = balanceOf previous := he
    omega
  | _ => exact total_congr fun a => h.presentAccount_of_ne nofun

/-- **Edits that leave the balances alone** leave the sum alone. -/
theorem Changes.total_eq (h : Changes ok j j') (hok : ∀ e, ok e → e.KeepsBalance) :
    j'.total = j.total := by
  refine h.invariant (P := fun k => k.total = j.total) ?_ rfl
  intro e k k' he happ hk
  exact (applies_total happ (hok e he)).trans hk

theorem Edits.total_eq {α : Type} {op : JournalM β α} (h : Edits Edit.KeepsBalance op)
    (j : Journal β) : (endState (op j)).total = j.total :=
  (h j).total_eq fun _ he => he

/-- **Edits of no account** leave every balance alone. -/
theorem Changes.balanceAt_eq (h : Changes Edit.SparesAccounts j j') (a : Address) :
    j'.balanceAt a = j.balanceAt a := by
  apply balanceAt_congr
  refine h.invariant (P := fun k => k.presentAccount a = j.presentAccount a) ?_ rfl
  intro e k k' hspares happ hk
  rw [← hk]
  apply happ.presentAccount_of_ne
  rintro previous new rfl
  exact hspares

/-! ## Debits and credits -/

section Accounts

variable {a source target : Address} {amount : Word} {u : Unit} {err : StateError}

/-- Writing an account, as far as balances go. -/
theorem modifyAccount_rebalanced {f : Account → Except StateError Account}
    (h : modifyAccount a f j = .ok u j') :
    ∃ previous new, f (previous.getD .empty) = .ok new ∧
      Rebalanced a (balanceOf previous) new.balance.toNat j j' := by
  have hmodified := modifyAccount_spec a f j
  rw [h] at hmodified
  cases hmodified with
  | @written previous new j1 _ hreads hf happ =>
    have hsame : ∀ a', j1.balanceAt a' = j.balanceAt a' := by
      refine Changes.balanceAt_eq (hreads.mono ?_)
      rintro e rfl
      trivial
    have hwritten := applies_rebalanced happ
    refine ⟨previous, new, hf, (hsame a).symm.trans hwritten.before, hwritten.after, ?_⟩
    exact fun a' ha => (hwritten.others a' ha).trans (hsame a')

/-- Reading a balance. -/
theorem balance_ok (h : balance a j = .ok amount j') : amount.toNat = j.balanceAt a := by
  unfold balance at h
  obtain ⟨acc, j1, hacc, hok⟩ := bind_ok h
  obtain ⟨old, hold, rfl, _⟩ := account_ok hacc
  cases hok
  exact (balanceAt_of_ok hold).symm

/-- Taking all that an account has. -/
theorem setBalance_zero_ok (h : setBalance a 0 j = .ok u j') :
    j'.total + j.balanceAt a = j.total := by
  obtain ⟨previous, new, hnew, hrebalanced⟩ := modifyAccount_rebalanced h
  cases hnew
  rw [hrebalanced.before]
  exact hrebalanced.total

/-- A debit takes its amount. -/
theorem subBalance_ok (h : subBalance a amount j = .ok u j') :
    ∃ before, amount.toNat ≤ before ∧ Rebalanced a before (before - amount.toNat) j j' := by
  obtain ⟨previous, new, hf, hrebalanced⟩ := modifyAccount_rebalanced h
  split at hf
  · cases hf
  · next henough =>
    cases hf
    refine ⟨balanceOf previous, Nat.le_of_not_lt henough, ?_⟩
    have hafter : ((previous.getD .empty).balance - amount).toNat =
        balanceOf previous - amount.toNat := by
      rw [BitVec.toNat_sub_of_le (Nat.le_of_not_lt henough)]
      rfl
    rwa [← hafter]

/-- A credit adds its amount. -/
theorem addBalance_ok (h : addBalance a amount j = .ok u j') :
    ∃ before, Rebalanced a before (before + amount.toNat) j j' := by
  obtain ⟨previous, new, hf, hrebalanced⟩ := modifyAccount_rebalanced h
  split at hf
  · cases hf
  · next hfits =>
    cases hf
    refine ⟨balanceOf previous, ?_⟩
    have hafter : ((previous.getD .empty).balance + amount).toNat =
        balanceOf previous + amount.toNat := by
      have hmax : Word.max.toNat = 2 ^ 256 - 1 := by decide
      rw [BitVec.toNat_add_of_lt (by omega)]
      rfl
    rwa [← hafter]

/-- Reading an account and failing to write it leaves all balances alone. -/
theorem modifyAccount_error {f : Account → Except StateError Account}
    (h : modifyAccount a f j = .error err j') : j'.total = j.total := by
  have hmodified := modifyAccount_spec a f j
  rw [h] at hmodified
  cases hmodified with
  | failed hreads =>
    refine hreads.total_eq ?_
    rintro e rfl
    trivial

/-- A credit that fails with an overflow is one that 256 bits do not hold. -/
theorem addBalance_error (h : addBalance a amount j = .error err j') :
    j.balanceAt a + amount.toNat < 2 ^ 256 → NoOverflow j.backend err := by
  intro hfits
  unfold addBalance modifyAccount at h
  rw [bind_apply] at h
  cases hload : loadAccount a j with
  | error err' j1 =>
    rw [hload] at h
    cases h
    exact (Mild.loadAccount a).failure hload
  | ok cached j1 =>
    have hbalance := balanceAt_of_ok (loadAccount_ok hload).2
    have hmax : Word.max.toNat = 2 ^ 256 - 1 := by decide
    have henough : ¬Word.max.toNat <
        (cached.present.getD .empty).balance.toNat + amount.toNat := by
      unfold balanceOf at hbalance
      omega
    rw [hload] at h
    simp only [if_neg henough] at h
    cases h

/-! ## Transfers -/

/-- **A transfer moves no more than it takes**: if it succeeds the sum is the
    same, and the source is poorer by the amount unless it is the target. -/
theorem transfer_ok (h : transfer source target amount j = .ok u j') :
    j'.total = j.total ∧
      (source ≠ target → j'.balanceAt source + amount.toNat = j.balanceAt source) := by
  unfold transfer at h
  by_cases hamount : amount = 0
  · rw [if_pos hamount] at h
    cases h
    simp [hamount]
  rw [if_neg hamount] at h
  obtain ⟨available, j1, hbalance, hrest⟩ := bind_ok h
  have hread : Edits Edit.IsRead (balance source : JournalM β Word) := balance_edits trivial
  have hrestored : Restored j j1 := by
    have hchanges := hread j
    rw [hbalance] at hchanges
    exact Changes.restored hchanges
  have hbefore : j1.balanceAt source = j.balanceAt source :=
    balanceAt_congr (hrestored.presentAccount_eq source)
  by_cases hpoor : available.toNat < amount.toNat
  · rw [if_pos hpoor] at hrest
    cases hrest
  rw [if_neg hpoor] at hrest
  by_cases hself : source = target
  · rw [if_pos hself] at hrest
    cases hrest
    exact ⟨hrestored.total_eq, fun hne => absurd hself hne⟩
  rw [if_neg hself] at hrest
  obtain ⟨u', j2, hsub, hadd⟩ := bind_ok hrest
  obtain ⟨before, henough, hdebit⟩ := subBalance_ok hsub
  obtain ⟨before', hcredit⟩ := addBalance_ok hadd
  have htotal := hrestored.total_eq
  have htotal1 := hdebit.total
  have htotal2 := hcredit.total
  refine ⟨by omega, fun _ => ?_⟩
  -- the credit is of another account
  rw [hcredit.others source hself, hdebit.after, ← hbefore, hdebit.before]
  omega

/-- A transfer that fails has added nothing, and does not fail with an overflow
    as long as 256 bits hold the sum. -/
theorem transfer_error (h : transfer source target amount j = .error err j') :
    j'.total ≤ j.total ∧ (j.total < 2 ^ 256 → NoOverflow j.backend err) := by
  unfold transfer at h
  by_cases hamount : amount = 0
  · rw [if_pos hamount] at h
    cases h
  rw [if_neg hamount, bind_apply] at h
  have hread : Edits Edit.IsRead (balance source : JournalM β Word) := balance_edits trivial
  have hchanges := hread j
  cases hbalance : balance source j with
  | error err' j1 =>
    rw [hbalance] at h hchanges
    cases h
    exact ⟨(Changes.restored hchanges).total_eq.le, fun _ => (Mild.balance source).failure hbalance⟩
  | ok available j1 =>
    rw [hbalance] at hchanges
    simp only [hbalance] at h
    have htotal := (Changes.restored hchanges).total_eq
    have hbackend := hchanges.backend
    rw [endState_ok] at htotal hbackend
    by_cases hpoor : available.toNat < amount.toNat
    · rw [if_pos hpoor] at h
      cases h
      exact ⟨htotal.le, fun _ => nofun⟩
    rw [if_neg hpoor] at h
    by_cases hself : source = target
    · rw [if_pos hself] at h
      cases h
    rw [if_neg hself, bind_apply] at h
    cases hsub : subBalance source amount j1 with
    | error err' j2 =>
      rw [hsub] at h
      cases h
      have hnone := (Mild.subBalance source amount).failure hsub
      rw [hbackend] at hnone
      exact ⟨((modifyAccount_error hsub).trans htotal).le, fun _ => hnone⟩
    | ok u' j2 =>
      simp only [hsub] at h
      obtain ⟨before, henough, hdebit⟩ := subBalance_ok hsub
      have hdebited := hdebit.total
      have hbackend2 := (Mild.subBalance source amount).backend j1
      rw [hsub, endState_ok] at hbackend2
      refine ⟨?_, fun hfits => ?_⟩
      · rw [modifyAccount_error h]
        omega
      · -- what was debited makes room for the credit
        have hpart := balanceAt_le_total j2 target
        have hnone := addBalance_error h (by omega)
        rwa [hbackend2, hbackend] at hnone

end Accounts

end Journal

end Evm
