import Evm.Proofs.Journal.Edit
import Evm.Gas.Schedule

/-! # What refunds are owed for

    A slot that was not zero when the transaction began and is zero now has
    earned a refund, and before London so has an account that is to be deleted.
    The refunds for all of them together are what the state owes
    (`Journal.owed`).

    Two kinds of edits move it. A write to a slot does so by what that slot is
    owed for, which is never more than what the write adds to a refund counter
    (`sstoreRefund_covers`); an account that is marked does so once. Whatever is
    read leaves it alone, so a state that is restored owes what it owed.
-/

namespace Evm

/-! ## Slots -/

namespace SlotValue

/-- Whether the slot was cleared in this transaction. -/
def isCleared (value : SlotValue) : Bool := value.initial ≠ 0 ∧ value.present = 0

/-- The refund that is owed for a slot. -/
def owed (fork : Hardfork) (value : SlotValue) : Int :=
  if value.isCleared then fork.clearRefund else 0

end SlotValue

theorem Hardfork.clearRefund_nonneg (fork : Hardfork) : 0 ≤ fork.clearRefund := by
  cases fork <;> decide

/-- **A write adds to the refund counter what the slot is owed for after it and
    was not owed for before it.** It may add more, when it brings back the value
    from the start of the transaction. -/
theorem Gas.sstoreRefund_covers (fork : Hardfork) (initial present new : Word) :
    SlotValue.owed fork ⟨initial, new⟩ ≤
      SlotValue.owed fork ⟨initial, present⟩ + Gas.sstoreRefund fork initial present new := by
  have hclear := fork.clearRefund_nonneg
  unfold SlotValue.owed SlotValue.isCleared Gas.sstoreRefund
  by_cases hsame : new = present
  · rw [if_pos hsame, hsame]
    omega
  rw [if_neg hsame]
  by_cases hfirst : initial = present
  · -- the first change: the slot was not cleared before
    subst hfirst
    rw [if_pos rfl]
    by_cases hzero : initial = 0 <;> simp [hzero]
  · rw [if_neg hfirst]
    by_cases hzero : initial = 0
    · -- nothing is owed for a slot that was zero
      simp only [hzero, ne_eq, not_true_eq_false, false_and, decide_false, if_true,
        Bool.false_eq_true, if_false]
      split <;> simp [Gas.sstoreSet, Gas.warmAccess]
    · have hback : (0 : Int) ≤
          if initial = new then (Gas.sstoreReset : Int) - Gas.warmAccess else 0 := by
        split <;> decide
      simp only [hzero, ne_eq, not_false_eq_true, true_and, if_false, decide_eq_true_eq]
      by_cases hcleared : present = 0
      · rw [if_pos hcleared, if_pos hcleared, if_neg fun hnew => hsame (hnew.trans hcleared.symm)]
        omega
      · rw [if_neg hcleared, if_neg hcleared]
        split <;> omega

namespace Journal

variable {β : Type}

/-! ## The whole state -/

/-- How many slots in the cache were cleared in this transaction. -/
def clearedSlots (j : Journal β) : Nat := (j.slots.filter fun _ value => value.isCleared).size

/-- What is owed for the slots that were cleared, and before London for the
    accounts that are to be deleted. -/
def owed (fork : Hardfork) (j : Journal β) : Int :=
  fork.clearRefund * j.clearedSlots +
    if fork.includes .london then 0 else Gas.selfDestructRefund * j.destroyed.size

theorem owed_nonneg (fork : Hardfork) (j : Journal β) : 0 ≤ j.owed fork := by
  have hslots : 0 ≤ fork.clearRefund * j.clearedSlots :=
    Int.mul_nonneg fork.clearRefund_nonneg (Int.natCast_nonneg _)
  unfold owed
  split
  · omega
  · unfold Gas.selfDestructRefund
    omega

/-- Nothing is owed before anything is done. -/
theorem owed_ofBackend (fork : Hardfork) (store : β) : (ofBackend store).owed fork = 0 := by
  cases fork <;> rfl

theorem owed_congr {j j' : Journal β} (fork : Hardfork) (hslots : j'.clearedSlots = j.clearedSlots)
    (hdestroyed : j'.destroyed = j.destroyed) : j'.owed fork = j.owed fork := by
  unfold owed
  rw [hslots, hdestroyed]

end Journal

/-! ## Edits -/

namespace Journal

variable {β : Type}

/-- Putting a slot into the cache counts it, and what was there before no
    longer. -/
theorem clearedSlots_insert (j : Journal β) (s : Slot) (value : SlotValue) :
    { j with slots := j.slots.insert s value }.clearedSlots +
        (if (j.slots[s]?).any SlotValue.isCleared then 1 else 0) =
      j.clearedSlots + if value.isCleared then 1 else 0 :=
  size_filter_insert _ _ _ _

end Journal

namespace Edit

variable {β : Type} [Backend β] {edit : Edit} {j j' : Journal β}

/-- The edits that move what is owed. -/
def MovesOwed : Edit → Prop
  | .storage _ _ | .destroyed _ => True
  | _ => False

theorem Applies.owed_eq (h : edit.Applies j j') (hnone : ¬edit.MovesOwed) (fork : Hardfork) :
    j'.owed fork = j.owed fork := by
  cases h with
  | @readSlot _ s value habsent _ =>
    refine Journal.owed_congr fork ?_ rfl
    -- a slot that was just read is what it was at the start
    have hcount := j.clearedSlots_insert s ⟨value, value⟩
    have hfresh : SlotValue.isCleared ⟨value, value⟩ = false := by
      simp [SlotValue.isCleared]
    rw [habsent, hfresh] at hcount
    exact hcount
  | storage _ _ => exact absurd trivial hnone
  | destroyed _ => exact absurd trivial hnone
  | _ => exact Journal.owed_congr fork rfl rfl

/-- A write to a slot moves what is owed by what that slot is owed for. -/
theorem Applies.storage_owed {s : Slot} {new : Word} {value : SlotValue}
    (h : (Edit.storage s new).Applies j j') (hvalue : j.slots[s]? = some value)
    (fork : Hardfork) :
    j'.owed fork + value.owed fork = j.owed fork + SlotValue.owed fork ⟨value.initial, new⟩ := by
  cases h with
  | @storage _ _ old _ hold =>
    obtain rfl : old = value := Option.some.inj (hold.symm.trans hvalue)
    have hcount := j.clearedSlots_insert s ⟨old.initial, new⟩
    rw [hold, Option.any_some] at hcount
    -- a price for each slot that is counted
    have hprice : ∀ cleared : Bool, (if cleared then fork.clearRefund else 0) =
        fork.clearRefund * ((if cleared then 1 else 0 : Nat) : Int) := by
      intro cleared
      cases cleared <;> simp
    have hslots := congrArg (fun n : Nat => fork.clearRefund * (n : Int)) hcount
    simp only [Int.natCast_add, Int.mul_add, ← hprice] at hslots
    unfold Journal.owed SlotValue.owed
    have hsame : Journal.clearedSlots ({ j with
        slots := j.slots.insert s { old with present := new } }.note (.storage s old.present)) =
      { j with slots := j.slots.insert s ⟨old.initial, new⟩ }.clearedSlots := rfl
    rw [hsame]
    simp only [Journal.note]
    omega

end Edit

namespace Journal

variable {β : Type} [Backend β] {ok : Edit → Prop} {b j j' : Journal β}

theorem Changes.owed_eq (h : Changes ok j j') (hok : ∀ edit, ok edit → ¬edit.MovesOwed)
    (fork : Hardfork) : j'.owed fork = j.owed fork :=
  h.invariant (P := fun k => k.owed fork = j.owed fork)
    (fun _ _ _ hedit happ hk => (happ.owed_eq (hok _ hedit) fork).trans hk) rfl

theorem Changes.destroyed_eq (h : Changes ok j j') (hok : ∀ edit, ok edit → ¬edit.MovesOwed) :
    j'.destroyed = j.destroyed := by
  refine h.same (p := .destroyed) fun edit hedit => ?_
  have hnone := hok edit hedit
  cases edit <;> first | exact absurd trivial hnone | nofun

/-- **A state that is restored owes what it owed.** A slot that was read since is
    shown as it was read. -/
theorem Restored.owed_eq (h : Restored b j) (fork : Hardfork) : j.owed fork = b.owed fork := by
  refine owed_congr fork ?_ h.destroyed
  have hcleared : (j.slots.filter fun _ value => value.isCleared) =
      b.slots.filter fun _ value => value.isCleared := by
    apply Std.ExtTreeMap.ext_getElem?
    intro s
    rw [Std.ExtTreeMap.getElem?_filter', Std.ExtTreeMap.getElem?_filter']
    cases hb : b.slots[s]? with
    | some value => rw [h.slots s value hb]
    | none =>
      cases hj : j.slots[s]? with
      | none => rfl
      | some value =>
        have hread := h.readSlots s value hb hj
        have hsame : value.isCleared = false := by
          unfold SlotValue.isCleared
          rw [hread]
          simp
        rw [Option.filter_some, hsame]
        rfl
  unfold clearedSlots
  rw [hcleared]

omit [Backend β] in
/-- An account that is marked as to be deleted is owed for from then on, and one
    that was marked already no more than before. -/
theorem markDestroyed_owed (j : Journal β) (a : Address) (fork : Hardfork) :
    (j.markDestroyed a).owed fork ≤ j.owed fork +
      if !fork.includes .london && !j.isDestroyed a then Gas.selfDestructRefund else 0 := by
  unfold markDestroyed
  cases hmarked : j.isDestroyed a with
  | true => simp
  | false =>
    let marked := { j with destroyed := j.destroyed.insert a }.note (.destroyed a)
    have hslots : marked.clearedSlots = j.clearedSlots := rfl
    have hsize : marked.destroyed.size = j.destroyed.size + 1 := by
      have hnew : ¬j.destroyed.contains a = true := Bool.eq_false_iff.mp hmarked
      show (j.destroyed.insert a).size = _
      rw [Std.ExtTreeSet.size_insert]
      exact if_neg hnew
    show marked.owed fork ≤ _
    unfold owed
    rw [hslots, hsize]
    cases fork.includes .london <;> simp [Gas.selfDestructRefund]
    omega

end Journal

end Evm
