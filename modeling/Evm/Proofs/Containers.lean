import Std.Data.ExtTreeMap
import Std.Data.ExtTreeSet

/-! # Putting in and taking out

    How a set or a map looks after one thing was put in, at that thing and at
    others, and when taking it out again gives back what there was.
-/

namespace Evm

variable {κ : Type} [Ord κ] [Std.TransOrd κ] [Std.LawfulEqOrd κ]

/-! ## Sets -/

section Sets

variable (t : Std.ExtTreeSet κ compare) {k l : κ}

theorem erase_insert_of_not_mem (h : k ∉ t) : (t.insert k).erase k = t := by
  ext x
  rw [Std.ExtTreeSet.mem_erase, Std.ExtTreeSet.mem_insert]
  constructor
  · rintro ⟨hne, heq | hmem⟩
    · exact absurd heq hne
    · exact hmem
  · intro hmem
    refine ⟨?_, Or.inr hmem⟩
    -- `x` is in the set and `k` is not
    intro heq
    rw [Std.LawfulEqOrd.eq_of_compare heq] at h
    exact h hmem

theorem insert_of_mem (h : k ∈ t) : t.insert k = t := by
  ext x
  rw [Std.ExtTreeSet.mem_insert]
  constructor
  · rintro (heq | hmem)
    · rwa [← Std.LawfulEqOrd.eq_of_compare heq]
    · exact hmem
  · exact Or.inr

theorem contains_insert_of_ne (h : k ≠ l) : (t.insert k).contains l = t.contains l := by
  have hne : (compare k l == .eq) = false := by
    rw [beq_eq_false_iff_ne]
    intro heq
    exact h (Std.LawfulEqOrd.eq_of_compare heq)
  rw [Std.ExtTreeSet.contains_insert, hne, Bool.false_or]

omit [Std.LawfulEqOrd κ] in
theorem nodup_toList : t.toList.Nodup := by
  refine List.Pairwise.imp ?_ Std.ExtTreeSet.distinct_toList
  intro k l hne heq
  exact hne (heq ▸ Std.ReflCmp.compare_self)

end Sets

/-! ## Maps -/

section Maps

variable {α : Type} (t : Std.ExtTreeMap κ α compare) {k l : κ}

/-- Putting in one thing does not show at another. -/
theorem getElem?_insert_of_ne (h : k ≠ l) (a : α) : (t.insert k a)[l]? = t[l]? := by
  rw [Std.ExtTreeMap.getElem?_insert, if_neg]
  intro heq
  exact h (Std.LawfulEqOrd.eq_of_compare heq)

omit [Std.LawfulEqOrd κ] in
/-- What was there stays there. -/
theorem isSome_insert {a : α} (h : (t[l]?).isSome) : ((t.insert k a)[l]?).isSome := by
  rw [Std.ExtTreeMap.getElem?_insert]
  split
  · rfl
  · exact h

/-- What is there afterwards was put in, or was there before. -/
theorem getElem?_insert_eq_some {a b : α} (h : (t.insert k a)[l]? = some b) :
    k = l ∧ b = a ∨ t[l]? = some b := by
  by_cases hl : k = l
  · subst hl
    rw [Std.ExtTreeMap.getElem?_insert_self] at h
    cases h
    exact .inl ⟨rfl, rfl⟩
  · rw [getElem?_insert_of_ne _ hl] at h
    exact .inr h

/-- What is not there afterwards was not put in, and was not there before. -/
theorem getElem?_insert_eq_none {a : α} (h : (t.insert k a)[l]? = none) :
    k ≠ l ∧ t[l]? = none := by
  by_cases hl : k = l
  · subst hl
    rw [Std.ExtTreeMap.getElem?_insert_self] at h
    cases h
  · rw [getElem?_insert_of_ne _ hl] at h
    exact ⟨hl, h⟩

/-- A map that has all that another has still has it all when the same thing is
    put into both. -/
theorem getElem?_insert_of_imp {t' : Std.ExtTreeMap κ α compare}
    (h : ∀ (l : κ) (b : α), t[l]? = some b → t'[l]? = some b) (k : κ) (a : α) (l : κ) (b : α)
    (hl : (t.insert k a)[l]? = some b) : (t'.insert k a)[l]? = some b := by
  by_cases hkl : k = l
  · subst hkl
    rw [Std.ExtTreeMap.getElem?_insert_self] at hl ⊢
    exact hl
  · rw [getElem?_insert_of_ne _ hkl] at hl ⊢
    exact h l b hl

/-- Taking out one thing does not show at another. -/
theorem getElem?_erase_of_ne (h : k ≠ l) : (t.erase k)[l]? = t[l]? := by
  rw [Std.ExtTreeMap.getElem?_erase, if_neg]
  intro heq
  exact h (Std.LawfulEqOrd.eq_of_compare heq)

/-- Taking out by keys. -/
theorem getElem?_filter_keys (p : κ → Bool) :
    (t.filter fun k _ => p k)[l]? = if p l then t[l]? else none := by
  rw [Std.ExtTreeMap.getElem?_filter]
  simp only [Std.ExtTreeMap.getKey_eq]
  generalize t[l]? = found
  cases found <;> cases p l <;> simp

/-- Putting in what is there already. -/
theorem insert_of_getElem? {a : α} (h : t[k]? = some a) : t.insert k a = t := by
  apply Std.ExtTreeMap.ext_getElem?
  intro x
  by_cases hx : k = x
  · subst hx
    rw [Std.ExtTreeMap.getElem?_insert_self, h]
  · rw [getElem?_insert_of_ne _ hx]

/-- Of two things put in one place the second one is there. -/
theorem insert_insert (k : κ) (a b : α) : (t.insert k a).insert k b = t.insert k b := by
  apply Std.ExtTreeMap.ext_getElem?
  intro x
  by_cases hx : k = x
  · subst hx
    rw [Std.ExtTreeMap.getElem?_insert_self, Std.ExtTreeMap.getElem?_insert_self]
  · rw [getElem?_insert_of_ne _ hx, getElem?_insert_of_ne _ hx, getElem?_insert_of_ne _ hx]

/-- Putting back what was there. -/
theorem insert_insert_of_getElem? {a : α} (h : t[k]? = some a) (a' : α) :
    (t.insert k a').insert k a = t := by
  rw [insert_insert, insert_of_getElem? _ h]

/-- The keys of a map are those of a larger one that are in it. -/
theorem keys_eq_filter {t' : Std.ExtTreeMap κ α compare}
    (h : ∀ (l : κ) (b : α), t[l]? = some b → t'[l]? = some b) :
    t.keys = t'.keys.filter t.contains := by
  rw [← Std.ExtTreeMap.keys_filter_key]
  congr 1
  apply Std.ExtTreeMap.ext_getElem?
  intro l
  rw [getElem?_filter_keys, Std.ExtTreeMap.contains_eq_isSome_getElem?]
  cases hl : t[l]? with
  | none => rfl
  | some b => exact (h l b hl).symm

/-- How many things with a property there are after one was put in. What was in
    its place counts no longer. -/
theorem size_filter_insert (p : α → Bool) (k : κ) (a : α) :
    ((t.insert k a).filter fun _ b => p b).size + (if (t[k]?).any p then 1 else 0) =
      (t.filter fun _ b => p b).size + (if p a then 1 else 0) := by
  have hcounted : (t.filter fun _ b => p b).contains k = (t[k]?).any p := by
    rw [Std.ExtTreeMap.contains_eq_isSome_getElem?, Std.ExtTreeMap.getElem?_filter',
      Option.isSome_filter]
  cases ha : p a with
  | true =>
    have hput : (t.insert k a).filter (fun _ b => p b) =
        (t.filter fun _ b => p b).insert k a := by
      apply Std.ExtTreeMap.ext_getElem?
      intro x
      by_cases hx : k = x
      · subst hx
        simp only [Std.ExtTreeMap.getElem?_filter', Std.ExtTreeMap.getElem?_insert_self,
          Option.filter_some, ha, if_true]
      · simp only [Std.ExtTreeMap.getElem?_filter', getElem?_insert_of_ne _ hx]
    rw [hput, Std.ExtTreeMap.size_insert, hcounted]
    cases (t[k]?).any p <;> simp
  | false =>
    have htaken : (t.insert k a).filter (fun _ b => p b) =
        (t.filter fun _ b => p b).erase k := by
      apply Std.ExtTreeMap.ext_getElem?
      intro x
      by_cases hx : k = x
      · subst hx
        simp [ha]
      · simp only [Std.ExtTreeMap.getElem?_filter', getElem?_insert_of_ne _ hx,
          getElem?_erase_of_ne _ hx]
    rw [htaken, Std.ExtTreeMap.size_erase, hcounted]
    cases hany : (t[k]?).any p with
    | false => rfl
    | true =>
      -- what is taken out was counted, so there was something to count
      have hsome : (t.filter fun _ b => p b).size ≠ 0 := by
        intro hzero
        rw [← Std.ExtTreeMap.eq_empty_iff_size_eq_zero] at hzero
        rw [hzero, hany] at hcounted
        simp at hcounted
      simp only [if_true, Bool.false_eq_true, if_false]
      omega

end Maps

end Evm
