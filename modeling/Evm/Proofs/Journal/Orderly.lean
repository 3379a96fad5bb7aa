import Evm.Proofs.Journal.Codes
import Evm.Proofs.Journal.Standing

/-! # Slots that have an account

    A slot that is not zero belongs to an account that is taken: that is so in
    an orderly store, and it stays so as long as storage is written only at
    accounts that are taken. Likewise the code of every account can be found,
    in the store or on the list of codes to write (`Orderly`).

    Both are kept by edits that write storage at such accounts only and leave
    the code of accounts alone (`Edit.Tidy`), and by giving code to an account
    with a nonce once the code is on the list. Undoing keeps them because what
    was read since is as it is in the store (`Sourced`).
-/

namespace Evm

/-- An edit that writes storage only at some addresses, and leaves the code of
    every account as it is. -/
def Edit.Tidy (owned : Address → Prop) : Edit → Prop
  | .account _ previous new => new.codeHash = (previous.getD .empty).codeHash
  | .storage s _ => owned s.address
  | _ => True

/-- An edit that writes no storage, and leaves the code of every account as it
    is. -/
abbrev Edit.Quiet : Edit → Prop := Edit.Tidy fun _ => False

namespace Journal

variable {β : Type} [Backend β] {b j j' : Journal β} {e : Edit}

/-! ## Where initial values come from -/

/-- The initial value of a slot is zero or that of the store. -/
def Sourced (j : Journal β) : Prop :=
  ∀ (s : Slot) (value : SlotValue), j.slots[s]? = some value → value.initial ≠ 0 →
    Backend.storage j.backend s = .ok value.initial

/-- What a slot reads as on first use is zero or that of the store. -/
theorem storedValue_of_ne {s : Slot} {value : Word} (h : j.storedValue s = .ok value)
    (hne : value ≠ 0) : Backend.storage j.backend s = .ok value := by
  unfold Journal.storedValue at h
  split at h
  · cases h
    exact absurd rfl hne
  · exact h

namespace Sourced

theorem applies (h : j.Sourced) (happ : e.Applies j j') : j'.Sourced := by
  cases happ with
  | @readSlot _ s value hnone hread =>
    intro s' value' hvalue' hne
    rcases getElem?_insert_eq_some _ hvalue' with ⟨rfl, rfl⟩ | hbefore
    · exact storedValue_of_ne hread hne
    · exact h s' value' hbefore hne
  | @storage _ s value new hvalue =>
    intro s' value' hvalue' hne
    have hput : (j.slots.insert s { value with present := new })[s']? = some value' := hvalue'
    rcases getElem?_insert_eq_some _ hput with ⟨rfl, rfl⟩ | hbefore
    · exact h s value hvalue hne
    · exact h s' value' hbefore hne
  | _ => exact h

theorem changes {ok : Edit → Prop} (h : j.Sourced) (hchanges : Changes ok j j') : j'.Sourced :=
  hchanges.invariant (fun _ _ _ _ happ hk => hk.applies happ) h

theorem revert (h : j.Sourced) (c : Checkpoint) : (j.revert c).Sourced := by
  intro s value hvalue hne
  have hinitial := revert_initial j c s
  rw [hvalue] at hinitial
  obtain ⟨before, hbefore, hsame⟩ := Option.map_eq_some_iff.mp hinitial.symm
  rw [revert_backend]
  rw [← hsame] at hne ⊢
  exact h s before hbefore hne

end Sourced

/-! ## The invariant -/

/-- The code with some hash can be found: in the store, or on the list. -/
def HasCode (j : Journal β) (hash : Hash) : Prop :=
  (∃ c, Backend.code? j.backend hash = .ok (some c)) ∨ hash ∈ j.newCode

/-- Slots that are not zero belong to accounts that are taken, and the code of
    every account can be found. -/
structure Orderly (j : Journal β) : Prop where
  housed : ∀ (s : Slot) (value : SlotValue), j.slots[s]? = some value → value.present ≠ 0 →
    j.Stands s.address
  sourced : j.Sourced
  rooted : ∀ s value, Backend.storage j.backend s = .ok value → value ≠ 0 → j.Stands s.address
  stocked : ∀ a account, j.presentAccount a = .ok (some account) → account.hasCode = true →
    j.HasCode account.codeHash

/-- A code that can be found is still found after more edits. -/
theorem HasCode.applies {hash : Hash} (h : j.HasCode hash) (happ : e.Applies j j') :
    j'.HasCode hash := by
  rcases h with hstored | hmem
  · rw [← happ.backend] at hstored
    exact .inl hstored
  · refine .inr ?_
    cases happ with
    | queueCode _ => exact Std.ExtTreeSet.mem_insert.mpr (.inr hmem)
    | _ => exact hmem

namespace Orderly

variable {owned : Address → Prop}

/-- The account that an edit was of has code that can be found, if it had
    before. -/
theorem stocked_applies (happ : e.Applies j j') (hcode : ∀ a previous new,
      e = .account a previous new → new.hasCode = true → j.HasCode new.codeHash)
    (h : ∀ a account, j.presentAccount a = .ok (some account) → account.hasCode = true →
      j.HasCode account.codeHash) (a : Address) (account : Account)
    (haccount : j'.presentAccount a = .ok (some account)) (hhas : account.hasCode = true) :
    j'.HasCode account.codeHash := by
  by_cases hedit : ∃ previous new, e = .account a previous new
  · obtain ⟨previous, new, rfl⟩ := hedit
    rw [happ.presentAccount.2] at haccount
    cases haccount
    exact (hcode a previous account rfl hhas).applies happ
  · rw [happ.presentAccount_of_ne fun previous new heq => hedit ⟨previous, new, heq⟩] at haccount
    exact (h a account haccount hhas).applies happ

/-- **Tidy edits keep a state orderly**, if no account is taken away and the
    accounts whose storage is written are taken in the end. -/
theorem tidy (h : j.Orderly) (hchanges : Changes (Edit.Tidy owned) j j')
    (hendures : j.Endures j') (howned : ∀ a, owned a → j'.Stands a) : j'.Orderly := by
  refine ⟨?_, h.sourced.changes hchanges, ?_, ?_⟩
  · have hslots : ∀ (s : Slot) (value : SlotValue), j'.slots[s]? = some value →
        value.present ≠ 0 → j.Stands s.address ∨ owned s.address := by
      refine (hchanges.invariant (P := fun k => k.backend = j.backend ∧
        ∀ (s : Slot) (value : SlotValue), k.slots[s]? = some value → value.present ≠ 0 →
          j.Stands s.address ∨ owned s.address) ?_
        ⟨rfl, fun s value hvalue hne => .inl (h.housed s value hvalue hne)⟩).2
      rintro edit k k' htidy happ ⟨hbackend, hk⟩
      refine ⟨happ.backend.trans hbackend, ?_⟩
      cases happ with
      | @readSlot _ s value hnone hread =>
        intro s' value' hvalue' hne
        rcases getElem?_insert_eq_some _ hvalue' with ⟨rfl, rfl⟩ | hbefore
        · have hstored := storedValue_of_ne hread hne
          rw [hbackend] at hstored
          exact .inl (h.rooted s value hstored hne)
        · exact hk s' value' hbefore hne
      | @storage _ s value new hvalue =>
        intro s' value' hvalue' hne
        have hput : (k.slots.insert s { value with present := new })[s']? = some value' := hvalue'
        rcases getElem?_insert_eq_some _ hput with ⟨rfl, _⟩ | hbefore
        · exact .inr htidy
        · exact hk s' value' hbefore hne
      | _ => exact hk
    intro s value hvalue hne
    exact (hslots s value hvalue hne).elim hendures.stands (howned s.address)
  · intro s value hstored hne
    rw [hchanges.backend] at hstored
    exact hendures.stands (h.rooted s value hstored hne)
  · refine hchanges.invariant (P := fun k => ∀ a account, k.presentAccount a = .ok (some account) →
      account.hasCode = true → k.HasCode account.codeHash) ?_ h.stocked
    intro edit k k' htidy happ hk
    refine stocked_applies happ ?_ hk
    rintro a previous new rfl hhas
    -- the account has the code that it had
    have hsame : new.codeHash = (previous.getD .empty).codeHash := htidy
    cases previous with
    | none => simp [Account.hasCode, hsame, Account.empty] at hhas
    | some old =>
      rw [hsame]
      refine hk a old happ.presentAccount.1 ?_
      simpa only [Account.hasCode, hsame, Option.getD_some] using hhas

/-- Code is given to an account with a nonce. -/
theorem recode (h : j.Orderly) {a : Address} {previous : Option Account} {hash : Hash}
    (happ : (Edit.account a previous { previous.getD .empty with codeHash := hash }).Applies j j')
    (hnonce : (previous.getD .empty).nonce ≠ 0) (hknown : hash = emptyCodeHash ∨ j.HasCode hash) :
    j'.Orderly := by
  have hstands : ∀ a', j.Stands a' → j'.Stands a' := by
    rintro a' ⟨account, haccount, htaken⟩
    by_cases ha : a' = a
    · subst ha
      exact ⟨_, happ.presentAccount.2, .inl hnonce⟩
    · refine ⟨account, ?_, htaken⟩
      rw [happ.presentAccount_of_ne, haccount]
      rintro _ _ ⟨⟩
      exact ha rfl
  have hslots : j'.slots = j.slots := happ.same (p := .slots) nofun
  refine ⟨?_, h.sourced.applies happ, ?_, stocked_applies happ ?_ h.stocked⟩
  · intro s value hvalue hne
    rw [hslots] at hvalue
    exact hstands _ (h.housed s value hvalue hne)
  · intro s value hstored hne
    rw [happ.backend] at hstored
    exact hstands _ (h.rooted s value hstored hne)
  · rintro a' previous' new ⟨⟩ hhas
    refine hknown.resolve_left ?_
    rintro rfl
    simp [Account.hasCode] at hhas

/-- What was restored is orderly if it was so before. -/
theorem restored (h : b.Orderly) (hrestored : Restored b j) (hsourced : j.Sourced) :
    j.Orderly := by
  have hsame := hrestored.presentAccount_eq
  have hstands : ∀ a, b.Stands a → j.Stands a :=
    fun _ => (Endures.of_restored hrestored).stands
  have hrooted : ∀ s value, Backend.storage j.backend s = .ok value → value ≠ 0 →
      j.Stands s.address := by
    intro s value hstored hne
    rw [hrestored.backend] at hstored
    exact hstands _ (h.rooted s value hstored hne)
  refine ⟨?_, hsourced, hrooted, ?_⟩
  · intro s value hvalue hne
    cases hbefore : b.slots[s]? with
    | some old =>
      rw [hrestored.slots s old hbefore] at hvalue
      cases hvalue
      exact hstands _ (h.housed s _ hbefore hne)
    | none =>
      -- a slot that was read since is as it is in the store
      have hread := hrestored.readSlots s value hbefore hvalue
      rw [hread] at hne
      exact hrooted s _ (hsourced s value hvalue hne) hne
  · intro a account haccount hhas
    rw [hsame] at haccount
    unfold HasCode
    rw [hrestored.backend, hrestored.newCode]
    exact h.stocked a account haccount hhas

/-- **Giving code to an account with a nonce keeps a state orderly**: code that
    is not empty is put on the list first. -/
theorem setCode (h : j.Orderly) {a : Address} {account : Option Account}
    (haccount : j.presentAccount a = .ok account) (hnonce : (account.getD .empty).nonce ≠ 0)
    (c : Bytes) : (endState (setCode a c j)).Orderly := by
  have hset : ∀ (hash : Hash) {k : Journal β}, k.Orderly →
      k.presentAccount a = .ok account → (hash = emptyCodeHash ∨ k.HasCode hash) →
      (endState (setCodeHash a hash k)).Orderly := by
    intro hash k hk hseen hknown
    have hread : ∀ {k' : Journal β}, Changes (· = .readAccount a) k k' →
        k'.Orderly ∧ Changes Edit.IsRead k k' := by
      intro k' hreads
      have htidy : ∀ edit : Edit, edit = .readAccount a → edit.Quiet := by
        rintro edit rfl
        trivial
      have hisRead : ∀ edit : Edit, edit = .readAccount a → edit.IsRead := by
        rintro edit rfl
        trivial
      have hrestored := (hreads.mono hisRead).restored
      exact ⟨hk.tidy (hreads.mono htidy) (.of_restored hrestored) nofun, hreads.mono hisRead⟩
    have hmodified := modifyAccount_spec a (fun account => .ok { account with codeHash := hash }) k
    unfold setCodeHash
    generalize modifyAccount a _ k = outcome at hmodified
    cases hmodified with
    | failed hreads => exact (hread hreads).1
    | written hreads hnew happ =>
      cases hnew
      obtain ⟨horderly, hreads⟩ := hread hreads
      obtain rfl := hreads.previous_eq hseen happ
      refine horderly.recode happ hnonce (hknown.imp id fun hhas => ?_)
      unfold HasCode
      rw [hreads.restored.backend, hreads.restored.newCode]
      exact hhas
  rw [setCode_run]
  by_cases hempty : c.isEmpty
  · rw [if_pos hempty, codeHashOf, if_pos hempty]
    exact hset emptyCodeHash h haccount (.inl rfl)
  · rw [if_neg hempty, codeHashOf, if_neg hempty]
    have hqueue : Edits (fun e => e.part = .codes ∨ e.part = .newCode)
        (queueCode (keccak256 c) c : JournalM β Unit) := queueCode_edits (.inl rfl) (.inr rfl)
    have hqueued := hqueue j
    have hsame : ∀ a', (endState (queueCode (keccak256 c) c j)).presentAccount a' =
        j.presentAccount a' := by
      intro a'
      refine presentAccount_congr hqueued.backend ?_ a'
      refine hqueued.same (p := .accounts) ?_
      rintro edit (hpart | hpart) <;> rw [hpart] <;> nofun
    have htidy : Changes Edit.Quiet j (endState (queueCode (keccak256 c) c j)) := by
      refine hqueued.mono ?_
      intro edit hpart
      cases edit <;> first | trivial | (rcases hpart with hpart | hpart <;> cases hpart)
    refine hset _ (h.tidy htidy (.of_same hsame) nofun) ((hsame a).trans haccount) (.inr (.inr ?_))
    rw [(queueCode_run (keccak256 c) c j).2.1]
    exact Std.ExtTreeSet.mem_insert_self

end Orderly

end Journal

end Evm
