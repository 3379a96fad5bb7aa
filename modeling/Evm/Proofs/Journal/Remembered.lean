import Evm.Proofs.Database
import Evm.Proofs.Journal.Coded
import Evm.Proofs.Journal.Settlement

/-! # A code that stays known

    A code in the cache stays there. It is undone by nothing, a look at a code
    adds another one only if it is missing, and setting a code adds that one
    under its own hash (`Remembers`). A settlement writes codes out of the
    cache, so a code that is in the cache and in the database stays in both
    (`Holds.settle`).
-/

namespace Evm

open Journal

variable {β : Type} [Backend β] {hash : Hash} {c : Bytes}

/-! ## In the cache -/

namespace Journal

variable {j j' : Journal β}

/-- The code with a hash is in the cache. -/
def Remembers (hash : Hash) (c : Bytes) (j : Journal β) : Prop := j.codes[hash]? = some c

namespace Remembers

omit [Backend β] in
theorem congr (h : Remembers hash c j) (hcodes : j'.codes = j.codes) : Remembers hash c j' := by
  unfold Remembers
  rw [hcodes]
  exact h

theorem changes (h : Remembers hash c j) (hchanges : Changes Edit.OfNoCode j j') :
    Remembers hash c j' :=
  h.congr (hchanges.same (p := .codes) fun _ he => he.1)

omit [Backend β] in
/-- Another code may be learned. -/
theorem learn (h : Remembers hash c j) {hash' : Hash} {c' : Bytes}
    (hcodes : j'.codes = j.codes.insert hash' c') (hc : hash' = hash → c' = c) :
    Remembers hash c j' := by
  unfold Remembers
  rw [hcodes]
  by_cases heq : hash' = hash
  · rw [heq, hc heq, Std.ExtTreeMap.getElem?_insert_self]
  · rw [getElem?_insert_of_ne _ heq]
    exact h

/-- A code is looked up in the store only if it is not in the cache, and with
    the hash this code is found. -/
theorem code (h : Remembers hash c j) (a : Address) :
    Remembers hash c (endState (Journal.code a j)) ∧
      ∀ found j', Journal.code a j = .ok found j' → found.1.isEmpty = false →
        found.2 = hash → found.1 = c := by
  have hlooked := h.changes (NoCode.account a j)
  unfold Journal.code
  rw [bind_apply]
  cases haccount : Journal.account a j with
  | error e j1 =>
    rw [haccount] at hlooked
    exact ⟨hlooked, nofun⟩
  | ok account j1 =>
    rw [haccount] at hlooked
    simp only
    by_cases hnone : account.codeHash = emptyCodeHash ∨ account.codeHash.isZero = true
    · rw [if_pos hnone]
      refine ⟨hlooked, ?_⟩
      rintro found j' ⟨⟩ hcode
      cases hcode
    rw [if_neg hnone, bind_apply, get_apply]
    simp only
    cases hcached : j1.codes[account.codeHash]? with
    | some c' =>
      refine ⟨hlooked, ?_⟩
      rintro found j' ⟨⟩ _ hsame
      have hc : j1.codes[hash]? = some c' := by rw [← hsame]; exact hcached
      rw [show j1.codes[hash]? = some c from hlooked] at hc
      exact (Option.some.inj hc).symm
    | none =>
      -- so the code has another hash
      have hother : account.codeHash ≠ hash := by
        intro heq
        rw [heq, show j1.codes[hash]? = some c from hlooked] at hcached
        cases hcached
      cases Backend.code? j1.backend account.codeHash with
      | error e => exact ⟨hlooked, nofun⟩
      | ok answer =>
        cases answer with
        | none => exact ⟨hlooked, nofun⟩
        | some c' =>
          refine ⟨hlooked.learn rfl fun heq => absurd heq hother, ?_⟩
          rintro found j' ⟨⟩ _ heq
          exact absurd heq hother

/-- Setting a code keeps the other one known, if they are not two of one hash. -/
theorem setCode (h : Remembers hash c j) (a : Address) {c' : Bytes}
    (hc : c'.isEmpty = false → keccak256 c' = hash → c' = c) :
    Remembers hash c (endState (Journal.setCode a c' j)) := by
  rw [setCode_run]
  by_cases hempty : c'.isEmpty
  · rw [if_pos hempty]
    exact h.changes (NoCode.setCodeHash a _ j)
  · rw [if_neg hempty]
    have hqueued : Remembers hash c (endState (queueCode (keccak256 c') c' j)) :=
      h.learn (queueCode_run (keccak256 c') c' j).1 (hc (Bool.eq_false_iff.mpr hempty))
    exact hqueued.changes (NoCode.setCodeHash a _ _)

end Remembers

end Journal

/-! ## In the cache and in the database -/

namespace Journal

/-- The code with a hash is in the cache and in the database. -/
structure Holds (hash : Hash) (c : Bytes) (j : Journal Database) : Prop where
  cached : Remembers hash c j
  stored : j.backend.code? hash = some c

namespace Holds

variable {j : Journal Database}

theorem settleSlot (h : Holds hash c j) (s : Slot) : Holds hash c (endState (settleSlot s j)) := by
  unfold Journal.settleSlot
  simp only [bind_apply, get_apply]
  cases j.slots[s]? with
  | none => exact h
  | some value =>
    by_cases hgone : j.isDestroyed s.address
    · simp only [if_pos hgone]
      exact ⟨h.cached, h.stored⟩
    by_cases hsame : value.present = value.initial
    · simp only [if_neg hgone, if_pos hsame]
      exact h
    simp only [if_neg hgone, if_neg hsame]
    refine ⟨h.cached, ?_⟩
    show (j.backend.insertStorage s value.present).code? hash = some c
    unfold Database.insertStorage
    split <;> exact h.stored

/-- If the code is written again, it is the same. -/
theorem settleCode (h : Holds hash c j) (hash' : Hash) :
    Holds hash c (endState (settleCode hash' j)) := by
  unfold Journal.settleCode
  simp only [bind_apply, get_apply]
  cases hknown : j.codes[hash']? with
  | none => exact h
  | some c' =>
    refine ⟨h.cached, ?_⟩
    show (j.backend.insertCode hash' c').code? hash = some c
    by_cases hempty : hash' = emptyCodeHash
    · unfold Database.insertCode
      rw [if_pos hempty]
      exact h.stored
    rw [Database.code?_insertCode _ _ _ _ hempty]
    by_cases heq : hash' = hash
    · rw [if_pos heq, ← hknown, heq]
      exact h.cached
    · rw [if_neg heq]
      exact h.stored

theorem settleAccount (h : Holds hash c j) (a : Address) :
    Holds hash c (endState (settleAccount a j)) := by
  unfold Journal.settleAccount
  simp only [bind_apply, get_apply]
  cases j.accounts[a]? with
  | none => exact h
  | some cached =>
    by_cases hsame : cached.present = cached.loaded
    · simp only [if_pos hsame]
      exact h
    simp only [if_neg hsame]
    cases cached.present.filter fun account => !account.isEmpty with
    | none => exact ⟨h.cached, h.stored⟩
    | some account => exact ⟨h.cached, h.stored⟩

/-- **A settlement does not lose the code.** -/
theorem settle (h : Holds hash c j) {logs : List Log} {j' : Journal Database}
    (hsettle : settle j = .ok logs j') : Holds hash c j' := by
  have hkept : Preserves (Holds hash c) Journal.settle :=
    .settle (fun _ hj => ⟨hj.cached, hj.stored⟩) (fun s _ hj => hj.settleSlot s)
      (fun hash' _ hj => hj.settleCode hash') (fun a _ hj => hj.settleAccount a)
      fun _ hj => ⟨hj.cached, hj.stored⟩
  have hleft := hkept j h
  rw [hsettle] at hleft
  exact hleft

end Holds

end Journal

end Evm
