import Evm.Proofs.Containers
import Evm.State.Database

/-! # Reading a database after a write

    What a database answers after one write, at the place that was written and
    at the others.
-/

namespace Evm.Database

variable (db : Database)

/-! ## Slots -/

theorem storageValue_insertStorage (s r : Slot) (value : Word) :
    (db.insertStorage s value).storageValue r = if s = r then value else db.storageValue r := by
  unfold insertStorage storageValue
  by_cases hzero : value = 0
  · rw [if_pos hzero, Std.ExtTreeMap.getD_eq_getD_getElem?, Std.ExtTreeMap.getD_eq_getD_getElem?]
    by_cases hs : s = r
    · subst hs
      rw [if_pos rfl, Std.ExtTreeMap.getElem?_erase_self, hzero]
      rfl
    · rw [if_neg hs, getElem?_erase_of_ne _ hs]
  · rw [if_neg hzero, Std.ExtTreeMap.getD_eq_getD_getElem?, Std.ExtTreeMap.getD_eq_getD_getElem?]
    by_cases hs : s = r
    · subst hs
      rw [if_pos rfl, Std.ExtTreeMap.getElem?_insert_self]
      rfl
    · rw [if_neg hs, getElem?_insert_of_ne _ hs]

/-- A slot that is not kept holds zero. -/
theorem storageValue_of_not_mem {s : Slot} (h : ∀ value, (s, value) ∉ db.storage.toList) :
    db.storageValue s = 0 := by
  unfold storageValue
  rw [Std.ExtTreeMap.getD_eq_getD_getElem?]
  cases hvalue : db.storage[s]? with
  | none => rfl
  | some value => exact absurd (Std.ExtTreeMap.mem_toList_iff_getElem?_eq_some.mpr hvalue) (h value)

/-- An account takes its slots with it. -/
theorem storageValue_eraseAccount (a : Address) (s : Slot) :
    (db.eraseAccount a).storageValue s = if s.address = a then 0 else db.storageValue s := by
  unfold eraseAccount storageValue
  rw [Std.ExtTreeMap.getD_eq_getD_getElem?, Std.ExtTreeMap.getD_eq_getD_getElem?,
    getElem?_filter_keys _ fun s : Slot => s.address != a]
  by_cases hs : s.address = a
  · rw [if_pos hs, hs, bne_self_eq_false, if_neg Bool.false_ne_true]
    rfl
  · rw [if_neg hs, if_pos (bne_iff_ne.mpr hs)]

/-! ## Codes -/

/-- Code is found under its hash; the hash of no code is left alone. -/
theorem code?_insertCode (hash hash' : Hash) (c : Bytes) (hne : hash ≠ emptyCodeHash) :
    (db.insertCode hash c).code? hash' = if hash = hash' then some c else db.code? hash' := by
  unfold insertCode code?
  rw [if_neg hne]
  by_cases hh : hash = hash'
  · subst hh
    rw [if_neg hne, if_pos rfl, Std.ExtTreeMap.getElem?_insert_self]
  · rw [if_neg hh, getElem?_insert_of_ne _ hh]

end Evm.Database
