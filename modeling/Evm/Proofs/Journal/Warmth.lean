import Evm.Proofs.Journal.Footprint

/-! # What counts as accessed

    The first access to an account or a slot is dearer than later ones. What was
    accessed is warm. Of all edits only accesses make anything warm, each of
    them one thing, and going back to a checkpoint makes it cold again.
-/

namespace Evm

/-- What can be accessed: an account or a slot. -/
inductive AccessKey where
  | account (a : Address)
  | slot (s : Slot)
  deriving DecidableEq

/-- An edit that is no access. -/
def Edit.SparesWarmth (edit : Edit) : Prop :=
  edit.part ≠ .warmAddresses ∧ edit.part ≠ .warmSlots

namespace Journal

variable {β : Type}

/-- Whether something was accessed. -/
def IsWarm (j : Journal β) : AccessKey → Prop
  | .account a => a ∈ j.warmAddresses
  | .slot s => s ∈ j.warmSlots

theorem isWarm_congr {j j' : Journal β} (haddresses : j'.warmAddresses = j.warmAddresses)
    (hslots : j'.warmSlots = j.warmSlots) : j'.IsWarm = j.IsWarm := by
  funext key
  cases key with
  | account a => exact congrArg (a ∈ ·) haddresses
  | slot s => exact congrArg (s ∈ ·) hslots

section Marks

variable (j : Journal β) (key : AccessKey)

/-- An access to an address makes it warm. -/
theorem warmAddress_isWarm (a : Address) :
    (j.warmAddress a).2.IsWarm key ↔ j.IsWarm key ∨ key = .account a := by
  have hslots : (j.warmAddress a).2.warmSlots = j.warmSlots := by
    unfold warmAddress
    split <;> rfl
  cases key with
  | account b =>
    show b ∈ (j.warmAddress a).2.warmAddresses ↔ b ∈ j.warmAddresses ∨ _
    rw [warmAddress_warm, Std.ExtTreeSet.mem_insert, AccessKey.account.injEq, Or.comm,
      Std.LawfulEqCmp.compare_eq_iff_eq, eq_comm]
  | slot s =>
    show s ∈ (j.warmAddress a).2.warmSlots ↔ s ∈ j.warmSlots ∨ _
    simp [hslots]

/-- An access to a slot makes it warm. -/
theorem warmSlot_isWarm (s : Slot) :
    (j.warmSlot s).2.IsWarm key ↔ j.IsWarm key ∨ key = .slot s := by
  have haddresses : (j.warmSlot s).2.warmAddresses = j.warmAddresses := by
    unfold warmSlot
    split <;> rfl
  have hslots : (j.warmSlot s).2.warmSlots = j.warmSlots.insert s := by
    unfold warmSlot
    split
    · next h => exact (insert_of_mem _ (Std.ExtTreeSet.contains_iff_mem.mp h)).symm
    · rfl
  cases key with
  | account a =>
    show a ∈ (j.warmSlot s).2.warmAddresses ↔ a ∈ j.warmAddresses ∨ _
    simp [haddresses]
  | slot t =>
    show t ∈ (j.warmSlot s).2.warmSlots ↔ t ∈ j.warmSlots ∨ _
    rw [hslots, Std.ExtTreeSet.mem_insert, AccessKey.slot.injEq, Or.comm,
      Std.LawfulEqCmp.compare_eq_iff_eq, eq_comm]

/-- It is told to be the first one if the address was not warm. -/
theorem warmAddress_isCold (a : Address) :
    (j.warmAddress a).1 = true ↔ ¬j.IsWarm (.account a) := by
  show _ ↔ ¬a ∈ j.warmAddresses
  unfold warmAddress
  by_cases h : j.isWarmAddress a
  · simp [h, Std.ExtTreeSet.contains_iff_mem.mp h]
  · have hcold : a ∉ j.warmAddresses := mt Std.ExtTreeSet.contains_iff_mem.mpr h
    simp [h, hcold]

theorem warmSlot_isCold (s : Slot) : (j.warmSlot s).1 = true ↔ ¬j.IsWarm (.slot s) := by
  show _ ↔ ¬s ∈ j.warmSlots
  unfold warmSlot
  by_cases h : j.isWarmSlot s
  · simp [h, Std.ExtTreeSet.contains_iff_mem.mp h]
  · have hcold : s ∉ j.warmSlots := mt Std.ExtTreeSet.contains_iff_mem.mpr h
    simp [h, hcold]

end Marks

/-! ## Changes -/

variable [Backend β] {j j' : Journal β}

/-- What makes no access leaves warm what was. -/
theorem Changes.isWarm (h : Changes Edit.SparesWarmth j j') : j'.IsWarm = j.IsWarm :=
  isWarm_congr (h.same (p := .warmAddresses) fun _ hedit => hedit.1)
    (h.same (p := .warmSlots) fun _ hedit => hedit.2)

/-- A state that was restored has warm what was warm then. -/
theorem Restored.isWarm (h : Restored j j') : j'.IsWarm = j.IsWarm :=
  isWarm_congr h.warmAddresses h.warmSlots

end Journal

end Evm
