import Evm.Proofs.Journal.Ledger

/-! # What a history of writes costs

    A write to a slot has a price and moves the refund counter, and both
    depend on the value at the start of the transaction, on the one before the
    write and on the one after it. Only taken together, over all the writes to
    the slot, do they mean something.

    The measure of it is what a slot *stands at*: the price of its present
    value in place of the initial one, less the refund if it was cleared. A
    write to a warm slot costs, refunds taken off, one access and what the slot
    stands at more than before (`sstore_less_refund`). Over a history the
    differences add up, and nothing is left of the values in between
    (`writes_path_independent`).
-/

namespace Evm.Gas

/-! ## Histories -/

/-- The price of writing some values to a warm slot, one after another. -/
def writesCost (initial : Word) : (present : Word) → (writes : List Word) → Nat
  | _, [] => 0
  | present, new :: later => sstore initial present new false + writesCost initial new later

/-- What writing them adds to the refund counter. -/
def writesRefund (fork : Hardfork) (initial : Word) : (present : Word) → (writes : List Word) → Int
  | _, [] => 0
  | present, new :: later =>
    sstoreRefund fork initial present new + writesRefund fork initial new later

/-! ## One write -/

/-- The price of the first change of a slot, over that of an access. -/
def changePrice (initial : Word) : Int :=
  if initial = 0 then sstoreSet - warmAccess else sstoreReset - warmAccess

/-- **What a slot stands at**: what has been paid for its present value beyond
    the accesses, and was not refunded. -/
def standing (fork : Hardfork) (initial present : Word) : Int :=
  (if present = initial then 0 else changePrice initial) - SlotValue.owed fork ⟨initial, present⟩

/-- What a slot is owed for, in terms of its two values. -/
theorem owed_eq (fork : Hardfork) (initial present : Word) :
    SlotValue.owed fork ⟨initial, present⟩ =
      if initial ≠ 0 ∧ present = 0 then fork.clearRefund else 0 := by
  simp only [SlotValue.owed, SlotValue.isCleared, decide_eq_true_eq]

/-- A slot as it was at first is owed for nothing. -/
theorem owed_unchanged (fork : Hardfork) (initial : Word) :
    SlotValue.owed fork ⟨initial, initial⟩ = 0 := by
  rw [owed_eq, if_neg fun h => h.1 h.2]

theorem owed_slot_nonneg (fork : Hardfork) (initial present : Word) :
    0 ≤ SlotValue.owed fork ⟨initial, present⟩ := by
  rw [owed_eq]
  split
  · exact fork.clearRefund_nonneg
  · exact Int.le_refl _

theorem standing_initial (fork : Hardfork) (initial : Word) :
    standing fork initial initial = 0 := by
  rw [standing, if_pos rfl, owed_unchanged, Int.sub_zero]

/-- A write that changes nothing is an access. -/
theorem sstore_same (fork : Hardfork) (initial present : Word) :
    sstore initial present present false = warmAccess ∧
      sstoreRefund fork initial present present = 0 := by
  simp [sstore, sstoreRefund]

/-- The first change of a slot is paid for, and refunded only if it clears it. -/
theorem sstore_first (fork : Hardfork) {initial new : Word} (hnew : new ≠ initial) :
    (sstore initial initial new false : Int) = warmAccess + changePrice initial ∧
      sstoreRefund fork initial initial new = SlotValue.owed fork ⟨initial, new⟩ := by
  constructor
  · have hdear : sstore initial initial new false =
        if initial = 0 then sstoreSet else sstoreReset := by
      simp only [sstore, ne_eq, hnew, not_false_eq_true, and_self, if_true, Bool.false_eq_true,
        if_false]
    rw [hdear, changePrice]
    split <;> rfl
  · rw [owed_eq, sstoreRefund, if_neg hnew, if_pos rfl]

/-- A later change is an access. It is refunded what the slot is owed for more
    than before, and the price of the first change if it takes that back. -/
theorem sstore_later (fork : Hardfork) {initial present new : Word} (hchanged : present ≠ initial)
    (hnew : new ≠ present) :
    sstore initial present new false = warmAccess ∧
      sstoreRefund fork initial present new =
        SlotValue.owed fork ⟨initial, new⟩ - SlotValue.owed fork ⟨initial, present⟩ +
          (if new = initial then changePrice initial else 0) := by
  have hinitial : initial ≠ present := hchanged.symm
  constructor
  · simp only [sstore, hinitial, and_false, if_false, Bool.false_eq_true]
  · have hback : (if initial = new then changePrice initial else 0) =
        if new = initial then changePrice initial else 0 := by
      simp only [eq_comm]
    have hcleared : (if initial = 0 then 0 else if present = 0 then -fork.clearRefund else
          if new = 0 then fork.clearRefund else 0) =
        SlotValue.owed fork ⟨initial, new⟩ - SlotValue.owed fork ⟨initial, present⟩ := by
      simp only [owed_eq, ne_eq]
      by_cases hzero : initial = 0
      · -- such a slot is never owed for
        simp only [hzero, not_true_eq_false, false_and, if_true, if_false, Int.sub_zero]
      by_cases hfull : present = 0
      · have hset : new ≠ 0 := fun h => hnew (h.trans hfull.symm)
        simp only [hzero, hfull, hset, not_false_eq_true, and_self, and_false, if_true, if_false,
          Int.zero_sub]
      · simp only [hzero, hfull, not_false_eq_true, true_and, if_false, Int.sub_zero]
    rw [← hback, ← hcleared, sstoreRefund, if_neg hnew, if_neg hinitial]
    rfl

/-- **A write costs an access and what the slot stands at more than before**,
    its refund taken off. -/
theorem sstore_less_refund (fork : Hardfork) (initial present new : Word) :
    (sstore initial present new false : Int) - sstoreRefund fork initial present new =
      warmAccess + standing fork initial new - standing fork initial present := by
  by_cases hsame : new = present
  · subst hsame
    obtain ⟨hcost, hrefund⟩ := sstore_same fork initial new
    rw [hcost, hrefund]
    omega
  by_cases hchanged : present = initial
  · subst hchanged
    obtain ⟨hcost, hrefund⟩ := sstore_first fork hsame
    rw [hcost, hrefund, standing_initial, standing, if_neg hsame]
    omega
  · obtain ⟨hcost, hrefund⟩ := sstore_later fork hchanged hsame
    rw [hcost, hrefund]
    unfold standing
    rw [if_neg hchanged]
    by_cases hback : new = initial
    · rw [if_pos hback, if_pos hback]
      omega
    · rw [if_neg hback, if_neg hback]
      omega

/-! ## All writes -/

/-- What the writes cost depends on the last value alone. -/
theorem writes_telescope (fork : Hardfork) (initial present : Word) (writes : List Word) :
    (writesCost initial present writes : Int) - writesRefund fork initial present writes =
      warmAccess * writes.length + standing fork initial (writes.getLastD present) -
        standing fork initial present := by
  induction writes generalizing present with
  | nil => simp [writesCost, writesRefund]
  | cons new later ih =>
    have hfirst := sstore_less_refund fork initial present new
    have hlater := ih new
    have hlength : (warmAccess : Int) * ((new :: later).length : Nat) =
        warmAccess * later.length + warmAccess := by
      rw [List.length_cons, Int.natCast_succ, Int.mul_add, Int.mul_one]
    rw [writesCost, writesRefund, List.getLastD_cons, hlength, Int.natCast_add]
    omega

/-- Whatever is taken back of the refunds was given before. -/
theorem writesRefund_covers (fork : Hardfork) (initial present : Word) (writes : List Word) :
    SlotValue.owed fork ⟨initial, writes.getLastD present⟩ ≤
      SlotValue.owed fork ⟨initial, present⟩ + writesRefund fork initial present writes := by
  induction writes generalizing present with
  | nil => simp [writesRefund]
  | cons new later ih =>
    have hfirst := sstoreRefund_covers fork initial present new
    have hlater := ih new
    rw [writesRefund, List.getLastD_cons]
    omega

/-- **Pricing of writes is path-independent.** Under any rules, all the writes
    of a transaction to a warm slot, refunds taken off, cost an access each, the
    price of the change if the last value is not the initial one, and less the
    refund for clearing if it clears the slot. What the writes add to the refund
    counter is never below zero. -/
theorem writes_path_independent (fork : Hardfork) (initial : Word) (writes : List Word) :
    let last := writes.getLastD initial
    ((writesCost initial initial writes : Int) - writesRefund fork initial initial writes =
      100 * writes.length
        + (if last ≠ initial then (if initial = 0 then 20000 - 100 else 2900 - 100) else 0)
        - (if initial ≠ 0 ∧ last = 0 then fork.clearRefund else 0)) ∧
      0 ≤ writesRefund fork initial initial writes := by
  intro last
  constructor
  · rw [writes_telescope, standing_initial, standing]
    have hprice : changePrice initial = if initial = 0 then 20000 - 100 else 2900 - 100 := rfl
    have hswap : (if last = initial then 0 else changePrice initial) =
        if last ≠ initial then changePrice initial else 0 := (ite_not _ _ _).symm
    have hwarm : (warmAccess : Int) = 100 := rfl
    rw [owed_eq fork initial last, hswap, hprice, hwarm]
    omega
  · have hcovers := writesRefund_covers fork initial initial writes
    have hstart := owed_unchanged fork initial
    have hend := owed_slot_nonneg fork initial (writes.getLastD initial)
    omega

end Evm.Gas
