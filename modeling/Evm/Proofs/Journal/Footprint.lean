import Evm.Proofs.Journal.Edit

/-! # What each operation on the state may do

    For every operation of the state, the edits that it is made of. An
    operation that fails stops among them, so the statements hold of failures
    as they hold of successes.

    The sets of edits are given as what a set `ok` has to contain. Where an
    operation changes accounts the statement says how the new account follows
    from the old one, since that is what later bounds who can gain or lose.
-/

namespace Evm.Journal

variable {β : Type} {ok : Edit → Prop}

section Edits

variable [Backend β] {α γ : Type}

/-- An operation is made of edits out of a set. -/
def Edits (ok : Edit → Prop) (op : JournalM β α) : Prop :=
  ∀ j, Changes ok j (endState (op j))

namespace Edits

theorem pure (a : α) : Edits ok (pure a : JournalM β α) := fun j => Changes.refl j

theorem throw (e : StateError) : Edits ok (throw e : JournalM β α) := fun j => Changes.refl j

theorem bind {op : JournalM β α} {next : α → JournalM β γ} (hop : Edits ok op)
    (hnext : ∀ a, Edits ok (next a)) : Edits ok (op >>= next) := by
  intro j
  have hchanges := hop j
  rw [bind_apply]
  cases h : op j with
  | ok a j' =>
    rw [h] at hchanges
    exact hchanges.trans (hnext a j')
  | error e j' =>
    rw [h] at hchanges
    exact hchanges

/-- A branch may rely on its condition. -/
theorem ite {p : Prop} [Decidable p] {op op' : JournalM β α} (hthen : p → Edits ok op)
    (helse : ¬p → Edits ok op') : Edits ok (if p then op else op') := by
  by_cases h : p
  · rw [if_pos h]
    exact hthen h
  · rw [if_neg h]
    exact helse h

end Edits

end Edits

/-! ## Reads -/

section Reads

variable [Backend β] {a : Address} {s : Slot} {j j' : Journal β}

/-- Loading an account gives what execution sees and leaves it cached. -/
theorem loadAccount_ok {cached : CachedAccount} (h : loadAccount a j = .ok cached j') :
    j'.accounts[a]? = some cached ∧ j.presentAccount a = .ok cached.present := by
  unfold loadAccount at h
  unfold presentAccount
  simp only [bind_apply, get_apply] at h
  cases hc : j.accounts[a]? with
  | some c =>
    rw [hc] at h
    cases h
    exact ⟨hc, rfl⟩
  | none =>
    rw [hc] at h
    cases hb : Backend.account? j.backend a with
    | error e => rw [hb] at h; cases h
    | ok found =>
      rw [hb] at h
      cases h
      exact ⟨by simp, rfl⟩

theorem loadAccount_edits (hread : ok (.readAccount a)) :
    Edits ok (loadAccount a : JournalM β _) := by
  intro j
  unfold loadAccount
  simp only [bind_apply, get_apply]
  cases hc : j.accounts[a]? with
  | some c => exact Changes.refl j
  | none =>
    cases hb : Backend.account? j.backend a with
    | error e => exact Changes.refl j
    | ok found => exact Changes.single hread (.readAccount hc hb)

theorem loadSlot_edits (hread : ok (.readSlot s)) : Edits ok (loadSlot s : JournalM β _) := by
  intro j
  unfold loadSlot
  simp only [bind_apply, get_apply]
  cases hc : j.slots[s]? with
  | some v => exact Changes.refl j
  | none =>
    cases hb : j.storedValue s with
    | error e => exact Changes.refl j
    | ok value => exact Changes.single hread (.readSlot hc hb)

/-- Loading a slot gives what execution sees and leaves it cached. -/
theorem loadSlot_ok {value : SlotValue} (h : loadSlot s j = .ok value j') :
    j'.slots[s]? = some value ∧ j.presentStorage s = .ok value.present := by
  unfold loadSlot at h
  unfold presentStorage
  simp only [bind_apply, get_apply] at h
  cases hc : j.slots[s]? with
  | some v =>
    rw [hc] at h
    cases h
    exact ⟨hc, rfl⟩
  | none =>
    rw [hc] at h
    cases hb : j.storedValue s with
    | error e => simp only [hb] at h; cases h
    | ok found =>
      simp only [hb] at h
      cases h
      exact ⟨by simp, rfl⟩

theorem account_edits (hread : ok (.readAccount a)) : Edits ok (account a : JournalM β _) :=
  (loadAccount_edits hread).bind fun _ => .pure _

/-- Reading an account gives what execution sees. -/
theorem account_ok {acc : Account} (h : account a j = .ok acc j') :
    ∃ old, j.presentAccount a = .ok old ∧ acc = old.getD .empty ∧ Restored j j' := by
  have hload : Edits Edit.IsRead (loadAccount a : JournalM β CachedAccount) :=
    loadAccount_edits trivial
  have hread := hload j
  obtain ⟨cached, j1, hcached, hok⟩ := bind_ok h
  rw [hcached] at hread
  cases hok
  exact ⟨cached.present, (loadAccount_ok hcached).2, rfl, Changes.restored hread⟩

/-- An account that was read is cached as execution sees it. -/
theorem account_cached {acc : Account} {old : Option Account} (h : account a j = .ok acc j')
    (hold : j.presentAccount a = .ok old) :
    j'.accounts[a]?.map CachedAccount.present = some old := by
  obtain ⟨cached, j1, hload, hok⟩ := bind_ok h
  cases hok
  obtain ⟨hcached, hseen⟩ := loadAccount_ok hload
  rw [hold] at hseen
  cases hseen
  rw [hcached]
  rfl

/-- An account that cannot be read is not seen either. -/
theorem account_error {err : StateError} (h : account a j = .error err j') :
    j.presentAccount a = .error err := by
  unfold account loadAccount at h
  unfold presentAccount
  simp only [bind_apply, get_apply] at h
  cases hcached : j.accounts[a]? with
  | some cached =>
    rw [hcached] at h
    cases h
  | none =>
    rw [hcached] at h
    cases hstored : Backend.account? j.backend a with
    | error cause =>
      rw [hstored] at h
      cases h
      rfl
    | ok found =>
      rw [hstored] at h
      cases h

theorem isPresent_edits (hread : ok (.readAccount a)) :
    Edits ok (isPresent a : JournalM β _) :=
  (loadAccount_edits hread).bind fun _ => .pure _

theorem isEmpty_edits (hread : ok (.readAccount a)) : Edits ok (isEmpty a : JournalM β _) :=
  (account_edits hread).bind fun _ => .pure _

theorem balance_edits (hread : ok (.readAccount a)) : Edits ok (balance a : JournalM β _) :=
  (account_edits hread).bind fun _ => .pure _

theorem nonce_edits (hread : ok (.readAccount a)) : Edits ok (nonce a : JournalM β _) :=
  (account_edits hread).bind fun _ => .pure _

theorem storage_edits (hread : ok (.readSlot s)) : Edits ok (storage s : JournalM β _) :=
  (loadSlot_edits hread).bind fun _ => .pure _

theorem slot_edits (hread : ok (.readSlot s)) : Edits ok (slot s : JournalM β _) :=
  loadSlot_edits hread

theorem code_edits (hread : ok (.readAccount a)) (hlearn : ∀ hash c, ok (.learnCode hash c)) :
    Edits ok (code a : JournalM β _) := by
  unfold code
  refine (account_edits hread).bind fun acc => ?_
  refine .ite (fun _ => .pure _) fun _ => ?_
  -- only code that the store has becomes known
  intro j
  simp only [bind_apply, get_apply]
  cases hc : j.codes[acc.codeHash]? with
  | some c => exact Changes.refl j
  | none =>
    cases hb : Backend.code? j.backend acc.codeHash with
    | error e => exact Changes.refl j
    | ok found =>
      cases found with
      | none => exact Changes.refl j
      | some c => exact Changes.single (hlearn _ _) (.learnCode _ _)

theorem blockHash_edits (n : Nat) : Edits ok (blockHash n : JournalM β _) := by
  intro j
  unfold blockHash
  simp only [bind_apply, get_apply]
  cases Backend.blockHash j.backend n <;> exact Changes.refl j

end Reads

/-! ## Writes to accounts -/

section Accounts

variable [Backend β] {a : Address}

/-- What becomes of a change of an account. It fails with the account read at
    most, or the account that execution sees is replaced. -/
inductive Modified (a : Address) (f : Account → Except StateError Account) (j : Journal β) :
    EStateM.Result StateError (Journal β) Unit → Prop where
  | failed {e : StateError} {j' : Journal β} :
    Changes (· = .readAccount a) j j' → Modified a f j (.error e j')
  | written {previous : Option Account} {new : Account} {j1 j' : Journal β} :
    Changes (· = .readAccount a) j j1 → f (previous.getD .empty) = .ok new →
    (Edit.account a previous new).Applies j1 j' → Modified a f j (.ok () j')

theorem modifyAccount_spec (a : Address) (f : Account → Except StateError Account)
    (j : Journal β) : Modified a f j (modifyAccount a f j) := by
  have hload : Edits (· = .readAccount a) (loadAccount a : JournalM β CachedAccount) :=
    loadAccount_edits rfl
  have hread := hload j
  unfold modifyAccount
  rw [bind_apply]
  cases h : loadAccount a j with
  | error e j1 =>
    rw [h] at hread
    exact .failed hread
  | ok cached j1 =>
    rw [h] at hread
    -- the write is of what was loaded, so it names the account as it was seen
    have hcached : j1.accounts[a]? = some cached := (loadAccount_ok h).1
    cases hf : f (cached.present.getD .empty) with
    | error e =>
      simp only [hf]
      exact .failed hread
    | ok new =>
      simp only [hf]
      exact .written hread hf (.account new hcached)

theorem modifyAccount_edits {f : Account → Except StateError Account}
    (hread : ok (.readAccount a))
    (hwrite : ∀ previous new, f (previous.getD .empty) = .ok new → ok (.account a previous new)) :
    Edits ok (modifyAccount a f : JournalM β _) := by
  intro j
  have hreads : ∀ e : Edit, e = .readAccount a → ok e := by
    rintro e rfl
    exact hread
  have hmodified := modifyAccount_spec a f j
  generalize modifyAccount a f j = outcome at hmodified ⊢
  cases hmodified with
  | failed hchanges => exact hchanges.mono hreads
  | written hchanges hf happ =>
    exact (hchanges.mono hreads).trans (.single (hwrite _ _ hf) happ)

theorem setBalance_edits {balance : Word} (hread : ok (.readAccount a))
    (hwrite : ∀ previous, ok (.account a previous { previous.getD .empty with balance })) :
    Edits ok (setBalance a balance : JournalM β _) := by
  refine modifyAccount_edits hread fun previous new h => ?_
  cases h
  exact hwrite previous

theorem setNonce_edits {n : Nat} (hread : ok (.readAccount a))
    (hwrite : ∀ previous, ok (.account a previous { previous.getD .empty with nonce := n })) :
    Edits ok (setNonce a n : JournalM β _) := by
  refine modifyAccount_edits hread fun previous new h => ?_
  cases h
  exact hwrite previous

theorem setCodeHash_edits {hash : Hash} (hread : ok (.readAccount a))
    (hwrite : ∀ previous, ok (.account a previous { previous.getD .empty with codeHash := hash })) :
    Edits ok (setCodeHash a hash : JournalM β _) := by
  refine modifyAccount_edits hread fun previous new h => ?_
  cases h
  exact hwrite previous

/-- `new` is `previous` with an amount put on its balance. -/
def Credited (amount : Word) (previous : Option Account) (new : Account) : Prop :=
  let old := previous.getD .empty
  old.balance.toNat + amount.toNat ≤ Word.max.toNat ∧
    new = { old with balance := old.balance + amount }

/-- `new` is `previous` with an amount taken from its balance. -/
def Debited (amount : Word) (previous : Option Account) (new : Account) : Prop :=
  let old := previous.getD .empty
  amount.toNat ≤ old.balance.toNat ∧ new = { old with balance := old.balance - amount }

theorem addBalance_edits {amount : Word} (hread : ok (.readAccount a))
    (hwrite : ∀ previous new, Credited amount previous new → ok (.account a previous new)) :
    Edits ok (addBalance a amount : JournalM β _) := by
  refine modifyAccount_edits hread fun previous new h => ?_
  split at h
  · cases h
  · next hle =>
    cases h
    exact hwrite _ _ ⟨Nat.le_of_not_lt hle, rfl⟩

theorem subBalance_edits {amount : Word} (hread : ok (.readAccount a))
    (hwrite : ∀ previous new, Debited amount previous new → ok (.account a previous new)) :
    Edits ok (subBalance a amount : JournalM β _) := by
  refine modifyAccount_edits hread fun previous new h => ?_
  split at h
  · cases h
  · next hle =>
    cases h
    exact hwrite _ _ ⟨Nat.le_of_not_lt hle, rfl⟩

/-- A transfer writes only if an amount is moved, and moved to someone else. -/
theorem transfer_edits {source target : Address} {amount : Word}
    (hread : ∀ a, ok (.readAccount a))
    (hdebit : amount ≠ 0 → source ≠ target → ∀ previous new, Debited amount previous new →
      ok (.account source previous new))
    (hcredit : amount ≠ 0 → source ≠ target → ∀ previous new, Credited amount previous new →
      ok (.account target previous new)) :
    Edits ok (transfer source target amount : JournalM β _) := by
  unfold transfer
  refine .ite (fun _ => .pure _) fun hamount => ?_
  refine (balance_edits (hread source)).bind fun available => ?_
  -- what follows the check of the balance stands behind both of its branches
  refine .ite (fun _ => .bind (.throw _) fun _ => ?_) fun _ => ?_
  all_goals
    refine .ite (fun _ => .pure _) fun hne => ?_
    refine (subBalance_edits (hread source) (hdebit hamount hne)).bind fun _ => ?_
    exact addBalance_edits (hread target) (hcredit hamount hne)

/-- A transfer can be undone, be it a success or a failure. -/
theorem transfer_reverts (source target : Address) (amount : Word) (j : Journal β) :
    RevertsTo j (endState (transfer source target amount j)) := by
  have hmoves : Edits Edit.Any (transfer source target amount : JournalM β Unit) :=
    transfer_edits (fun _ => trivial) (fun _ _ _ _ _ => trivial) fun _ _ _ _ _ => trivial
  exact (hmoves j).revertsTo

/-- What becomes of counting a nonce up. It fails with the account read at
    most, or the nonce changes by one and nothing else of the account. -/
inductive Incremented (a : Address) (j : Journal β) :
    EStateM.Result StateError (Journal β) Nat → Prop where
  | failed {e : StateError} {j' : Journal β} :
    Changes (· = .readAccount a) j j' → Incremented a j (.error e j')
  | counted {old : Option Account} {n : Nat} {j1 j' : Journal β} :
    Changes (· = .readAccount a) j j1 → n = (old.getD .empty).nonce + 1 →
    (Edit.account a old { old.getD .empty with nonce := n }).Applies j1 j' →
    Incremented a j (.ok n j')

theorem incrementNonce_spec (a : Address) (j : Journal β) :
    Incremented a j (incrementNonce a j) := by
  have hnonce : Edits (· = .readAccount a) (nonce a : JournalM β Nat) := nonce_edits rfl
  have hread := hnonce j
  unfold incrementNonce
  rw [bind_apply]
  cases h : nonce a j with
  | error e j1 =>
    rw [h] at hread
    exact .failed hread
  | ok current j1 =>
    rw [h] at hread
    obtain ⟨acc, j2, hacc, hcurrent⟩ := bind_ok h
    obtain ⟨old, hold, rfl, _⟩ := account_ok hacc
    cases hcurrent
    by_cases hlast : (old.getD .empty).nonce = Account.maxNonce
    · simp only [if_pos hlast]
      exact .failed hread
    simp only [if_neg hlast]
    rw [bind_apply]
    have hset := modifyAccount_spec a
      (fun account => .ok { account with nonce := (old.getD .empty).nonce + 1 }) j1
    unfold setNonce
    generalize modifyAccount a _ j1 = outcome at hset ⊢
    cases hset with
    | failed hreread => exact .failed (hread.trans hreread)
    | @written previous new j2 j' hreread hnew happ =>
      have hreads : ∀ e : Edit, e = .readAccount a → e.IsRead := by
        rintro e rfl
        trivial
      -- what is written over is what the nonce was read from
      obtain rfl : previous = old :=
        Changes.previous_eq ((hread.trans hreread).mono hreads) hold happ
      cases hnew
      exact .counted (hread.trans hreread) rfl happ

/-- The nonce of an account that was read can be counted up, unless it is the
    last one. -/
theorem incrementNonce_ok {old : Option Account}
    (hcached : j.accounts[a]?.map CachedAccount.present = some old)
    (hlast : (old.getD .empty).nonce ≠ Account.maxNonce) :
    ∃ (n : Nat) (k : Journal β), incrementNonce a j = .ok n k := by
  obtain ⟨cached, hfound, rfl⟩ := Option.map_eq_some_iff.mp hcached
  have hload : loadAccount a j = .ok cached j := by
    unfold loadAccount
    simp only [bind_apply, get_apply, hfound, pure_apply]
  have hnonce : Journal.nonce a j = .ok (cached.present.getD .empty).nonce j := by
    unfold Journal.nonce Journal.account
    simp only [bind_apply, hload, pure_apply]
  unfold incrementNonce
  rw [bind_apply, hnonce]
  simp only [if_neg hlast, setNonce, modifyAccount, bind_apply, hload]
  exact ⟨_, _, rfl⟩

theorem incrementNonce_edits (hread : ok (.readAccount a))
    (hwrite : ∀ n previous, ok (.account a previous { previous.getD .empty with nonce := n })) :
    Edits ok (incrementNonce a : JournalM β _) := by
  intro j
  have hreads : ∀ e : Edit, e = .readAccount a → ok e := by
    rintro e rfl
    exact hread
  have hincremented := incrementNonce_spec a j
  generalize incrementNonce a j = outcome at hincremented ⊢
  cases hincremented with
  | failed hchanges => exact hchanges.mono hreads
  | counted hchanges _ happ => exact (hchanges.mono hreads).trans (.single (hwrite _ _) happ)

/-- Code becomes known first and is put on the list of codes to write unless
    it is there. -/
theorem queueCode_edits {hash : Hash} {c : Bytes} (hlearn : ok (.learnCode hash c))
    (hqueue : ok (.queueCode hash)) : Edits ok (queueCode hash c : JournalM β _) := by
  intro j
  unfold queueCode
  simp only [modify_apply, endState_ok]
  have hfirst : Changes ok j { j with codes := j.codes.insert hash c } :=
    Changes.single hlearn (.learnCode hash c)
  by_cases hknown : hash ∈ j.newCode
  · -- the code is on the list, and putting it there once more is no change
    have hsame : j.newCode.insert hash = j.newCode := insert_of_mem _ hknown
    simp only [Std.ExtTreeSet.contains_iff_mem.mpr hknown, hsame, if_true]
    exact hfirst
  · have hcontains : j.newCode.contains hash = false :=
      Bool.eq_false_iff.mpr fun h => hknown (Std.ExtTreeSet.contains_iff_mem.mp h)
    simp only [hcontains, Bool.false_eq_true, if_false]
    exact hfirst.trans (Changes.single hqueue (.queueCode hknown))

theorem setCode_edits {c : Bytes} (hread : ok (.readAccount a))
    (hlearn : ∀ hash, ok (.learnCode hash c)) (hqueue : ∀ hash, ok (.queueCode hash))
    (hwrite : ∀ hash previous,
      ok (.account a previous { previous.getD .empty with codeHash := hash })) :
    Edits ok (setCode a c : JournalM β _) := by
  unfold setCode
  refine .ite (fun _ => ?_) fun _ => ?_
  · exact (setCodeHash_edits hread (hwrite _)).bind fun _ => .pure _
  · refine (queueCode_edits (hlearn _) (hqueue _)).bind fun _ => ?_
    exact (setCodeHash_edits hread (hwrite _)).bind fun _ => .pure _

end Accounts

/-! ## Writes to storage, marks and logs -/

section Marks

variable [Backend β] {a : Address} {s : Slot} {value : Word} (j : Journal β)

theorem setStorage_edits (hread : ok (.readSlot s)) (hwrite : ok (.storage s value)) :
    Edits ok (setStorage s value : JournalM β _) := by
  intro j
  unfold setStorage
  have hload := loadSlot_edits (β := β) hread j
  rw [bind_apply]
  cases h : loadSlot s j with
  | error e j' =>
    rw [h] at hload
    exact hload
  | ok cached j' =>
    rw [h] at hload
    exact hload.trans (Changes.single hwrite (.storage value (loadSlot_ok h).1))

theorem tstore_changes (hwrite : ok (.transient s value)) : Changes ok j (j.tstore s value) :=
  Changes.single hwrite (.transient s value)

theorem addLog_changes {entry : Log} (hwrite : ok (.log entry)) :
    Changes ok j (j.addLog entry) :=
  Changes.single hwrite (.log entry)

/-- An access is noted unless it was noted before. -/
theorem warmAddress_changes (hwarm : ok (.warmAddress a)) :
    Changes ok j (j.warmAddress a).2 := by
  unfold warmAddress
  split
  · exact Changes.refl j
  · next h => exact Changes.single hwarm (.warmAddress (mt Std.ExtTreeSet.contains_iff_mem.mpr h))

/-- An access to an address is of no account. -/
theorem warmAddress_same {p : Part} (hp : Part.warmAddresses ≠ p) :
    p.Same j (j.warmAddress a).2 := by
  have hchanges : Changes (fun e => e.part = .warmAddresses) j (j.warmAddress a).2 :=
    warmAddress_changes j rfl
  apply hchanges.same
  intro e he
  rw [he]
  exact hp

omit [Backend β] in
/-- Afterwards the address counts as accessed. -/
theorem warmAddress_warm : (j.warmAddress a).2.warmAddresses = j.warmAddresses.insert a := by
  unfold warmAddress
  split
  · next h => exact (insert_of_mem _ (Std.ExtTreeSet.contains_iff_mem.mp h)).symm
  · rfl

theorem warmSlot_changes (hwarm : ok (.warmSlot s)) : Changes ok j (j.warmSlot s).2 := by
  unfold warmSlot
  split
  · exact Changes.refl j
  · next h => exact Changes.single hwarm (.warmSlot (mt Std.ExtTreeSet.contains_iff_mem.mpr h))

theorem markCreated_changes (hmark : ok (.created a)) : Changes ok j (j.markCreated a) := by
  unfold markCreated
  split
  · exact Changes.refl j
  · next h => exact Changes.single hmark (.created (mt Std.ExtTreeSet.contains_iff_mem.mpr h))

theorem markDestroyed_changes (hmark : ok (.destroyed a)) :
    Changes ok j (j.markDestroyed a) := by
  unfold markDestroyed
  split
  · exact Changes.refl j
  · next h => exact Changes.single hmark (.destroyed (mt Std.ExtTreeSet.contains_iff_mem.mpr h))

end Marks

end Evm.Journal
