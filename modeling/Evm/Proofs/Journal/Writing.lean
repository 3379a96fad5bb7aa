import Evm.Proofs.Containers
import Evm.Proofs.EndState
import Evm.State.Settlement
import Mathlib.Data.List.Basic

/-! # What a settlement writes

    A settlement does nothing to the store but write to it, one write after
    another. What it writes can be read off the state it starts from
    (`writes`): a round writes only what it is about, and leaves the rest of
    the cache to the later rounds as it was. Where a write is refused the
    settlement stops, and the writes before it stay in the store: a settlement
    is not all or nothing.

    The judgment `Wrote` says so of how an operation ends. Operations one after
    another make one list of writes after the other, so a loop makes those of
    its rounds.
-/

namespace Evm

variable {β : Type}

/-! ## Writes -/

/-- One write to a store. -/
inductive Write where
  | slot (s : Slot) (value : Word)
  | code (hash : Hash) (code : Bytes)
  | account (a : Address) (account : Account)
  | deletion (a : Address)

namespace Write

variable [Backend β]

/-- Make a write. -/
def make (b : β) : Write → Except StateError β
  | .slot s value => Backend.setStorage b s value
  | .code hash c => Backend.setCode b hash c
  | .account a acc => Backend.setAccount b a acc
  | .deletion a => Backend.deleteAccount b a

/-- Make writes one after another, as long as none is refused. -/
def makeAll (b : β) (writes : List Write) : Except StateError β := writes.foldlM make b

theorem makeAll_one {b b' : β} (write : Write) (h : write.make b = .ok b') :
    makeAll b [write] = .ok b' := by
  show (write.make b >>= fun b => makeAll b []) = .ok b'
  rw [h]
  rfl

theorem makeAll_append {b b' : β} {writes : List Write} (h : makeAll b writes = .ok b')
    (more : List Write) : makeAll b (writes ++ more) = makeAll b' more := by
  unfold makeAll at h ⊢
  rw [List.foldlM_append, h]
  rfl

/-- Making the writes stops at one that is refused, for a cause, and those
    before it are made. -/
def Stopped (writes : List Write) (cause : StateError) (b b' : β) : Prop :=
  ∃ (written : List Write) (refused : Write) (rest : List Write),
    writes = written ++ refused :: rest ∧ makeAll b written = .ok b' ∧
      refused.make b' = .error cause

end Write

namespace Journal

/-! ## The writes that are due -/

/-- What is written of a slot: its value, if it changed and does not go with
    its account. -/
def slotWrite? (j : Journal β) (s : Slot) : Option Write :=
  match j.slots[s]? with
  | none => none
  | some value =>
    if j.isDestroyed s.address then none
    else if value.present = value.initial then none
    else some (.slot s value.present)

/-- What is written of a code. -/
def codeWrite? (j : Journal β) (hash : Hash) : Option Write :=
  match j.codes[hash]? with
  | none => none
  | some code => some (.code hash code)

/-- What is written of an account: what became of it, if it changed. -/
def accountWrite? (j : Journal β) (a : Address) : Option Write :=
  match j.accounts[a]? with
  | none => none
  | some cached =>
    if cached.present = cached.loaded then none
    else
      match cached.present.filter fun account => !account.isEmpty with
      | some account => some (.account a account)
      | none => some (.deletion a)

/-- The writes of a settlement in a given order, the destroyed accounts gone. -/
def writesIn (order : WriteOrder) (j : Journal β) : List Write :=
  order.slots.filterMap j.dropDestroyed.slotWrite? ++
    (order.codes.filterMap j.dropDestroyed.codeWrite? ++
      order.accounts.filterMap j.dropDestroyed.accountWrite?)

/-- The writes of a settlement, in its order. -/
def writes (j : Journal β) : List Write := j.writesIn j.ascending

/-! ## Making them -/

variable [Backend β] {α γ : Type}

/-- How it ends to make some writes: all of them were made, or one was refused
    after those before it were made. -/
inductive Wrote (b : β) (writes : List Write) :
    EStateM.Result StateError (Journal β) α → Prop where
  | all {a : α} {j : Journal β} :
    Write.makeAll b writes = .ok j.backend → Wrote b writes (.ok a j)
  | stopped {cause : StateError} {j : Journal β} :
    Write.Stopped writes cause b j.backend → Wrote b writes (.error cause j)

namespace Wrote

variable {b : β}

theorem after {b' : β} {first second : List Write} (hfirst : Write.makeAll b first = .ok b')
    {outcome : EStateM.Result StateError (Journal β) α} (h : Wrote b' second outcome) :
    Wrote b (first ++ second) outcome := by
  cases h with
  | all hsecond => exact .all ((Write.makeAll_append hfirst second).trans hsecond)
  | stopped hstopped =>
    obtain ⟨written, refused, rest, hsecond, hwritten, hrefused⟩ := hstopped
    refine .stopped ⟨first ++ written, refused, rest, ?_, ?_, hrefused⟩
    · rw [hsecond, List.append_assoc]
    · exact (Write.makeAll_append hfirst written).trans hwritten

theorem bind {op : JournalM β α} {next : α → JournalM β γ} {j : Journal β}
    {first second : List Write} (hop : Wrote b first (op j))
    (hnext : ∀ a j', op j = .ok a j' → Wrote j'.backend second (next a j')) :
    Wrote b (first ++ second) ((op >>= next) j) := by
  rw [bind_apply]
  cases h : op j with
  | ok a j' =>
    rw [h] at hop
    cases hop with
    | all hfirst => exact (hnext a j' h).after hfirst
  | error cause j' =>
    rw [h] at hop
    cases hop with
    | stopped hstopped =>
      obtain ⟨written, refused, rest, hfirst, hwritten, hrefused⟩ := hstopped
      refine .stopped ⟨written, refused, rest ++ second, ?_, hwritten, hrefused⟩
      rw [hfirst, List.append_assoc, List.cons_append]

end Wrote

/-! ## Rounds -/

/-- How a round of a settlement ends: the write that is due is made, if there is
    one, and what is left is `kept`; or the write is refused. -/
inductive Round (due : Option Write) (kept : Journal β → Prop) (j : Journal β) :
    EStateM.Result StateError (Journal β) Unit → Prop where
  | made {j' : Journal β} :
    Write.makeAll j.backend due.toList = .ok j'.backend → kept j' → Round due kept j (.ok () j')
  | refused {cause : StateError} (write : Write) :
    due = some write → write.make j.backend = .error cause → Round due kept j (.error cause j)

namespace Round

variable {due : Option Write} {kept : Journal β → Prop} {j : Journal β}

theorem wrote {outcome : EStateM.Result StateError (Journal β) Unit}
    (h : Round due kept j outcome) : Wrote j.backend due.toList outcome := by
  cases h with
  | made hmade _ => exact .all hmade
  | refused write hdue hrefused =>
    rw [hdue]
    exact .stopped ⟨[], write, [], rfl, rfl, hrefused⟩

theorem kept_of_ok {j' : Journal β} (h : Round due kept j (.ok () j')) : kept j' := by
  cases h with
  | made _ hkept => exact hkept

/-- **A loop makes the writes of its rounds**, all of them due when it starts,
    if no round changes what is due in another and no key comes up twice. -/
theorem forM {κ : Type} {f : κ → JournalM β Unit} {write? : Journal β → κ → Option Write}
    {kept : κ → Journal β → Journal β → Prop}
    (hround : ∀ k j, Round (write? j k) (kept k j) j (f k j))
    (hdue : ∀ k j j', kept k j j' → ∀ k', k' ≠ k → write? j' k' = write? j k')
    {keys : List κ} (hnodup : keys.Nodup) (j : Journal β) :
    Wrote j.backend (keys.filterMap (write? j)) (keys.forM f j) := by
  induction keys generalizing j with
  | nil => exact .all rfl
  | cons k keys ih =>
    obtain ⟨hfresh, hnodup⟩ := List.nodup_cons.mp hnodup
    have hsplit : (k :: keys).filterMap (write? j) =
        (write? j k).toList ++ keys.filterMap (write? j) := by
      rw [List.filterMap_cons]
      cases write? j k <;> rfl
    rw [hsplit]
    refine (hround k j).wrote.bind fun _ j' hj' => ?_
    -- the first key does not come up again, so the other writes are due as before
    have hkept : kept k j j' := (hj' ▸ hround k j).kept_of_ok
    have hsame : keys.filterMap (write? j) = keys.filterMap (write? j') :=
      List.filterMap_congr fun k' hk' =>
        (hdue k j j' hkept k' (ne_of_mem_of_not_mem hk' hfresh)).symm
    rw [hsame]
    exact ih hnodup j'

/-- What every round keeps, the loop keeps. -/
theorem forM_kept {κ : Type} {f : κ → JournalM β Unit} {write? : Journal β → κ → Option Write}
    {kept : κ → Journal β → Journal β → Prop}
    (hround : ∀ k j, Round (write? j k) (kept k j) j (f k j)) {P : Journal β → Prop}
    (hP : ∀ k j j', kept k j j' → P j → P j') {keys : List κ} {j j' : Journal β} (hj : P j)
    (h : keys.forM f j = .ok () j') : P j' := by
  induction keys generalizing j with
  | nil =>
    cases h
    exact hj
  | cons k keys ih =>
    obtain ⟨_, j'', hk, hrest⟩ := bind_ok h
    exact ih (hP k j j'' (hk ▸ hround k j).kept_of_ok hj) hrest

end Round

/-- A round about a slot changes no other slot, and of the rest the store. -/
def KeptBySlot (s : Slot) (j j' : Journal β) : Prop :=
  ∃ backend slots, j' = { j with backend, slots } ∧ ∀ s', s' ≠ s → slots[s']? = j.slots[s']?

/-- A round about an account changes no other account, and of the rest the
    store. -/
def KeptByAccount (a : Address) (j j' : Journal β) : Prop :=
  ∃ backend accounts, j' = { j with backend, accounts } ∧
    ∀ a', a' ≠ a → accounts[a']? = j.accounts[a']?

theorem settleSlot_round (s : Slot) (j : Journal β) :
    Round (j.slotWrite? s) (KeptBySlot s j) j (settleSlot s j) := by
  unfold settleSlot slotWrite?
  simp only [bind_apply, get_apply]
  cases j.slots[s]? with
  | none => exact .made rfl ⟨j.backend, j.slots, rfl, fun _ _ => rfl⟩
  | some value =>
    by_cases hgone : j.isDestroyed s.address
    · simp only [if_pos hgone]
      exact .made rfl ⟨j.backend, _, rfl, fun _ h => getElem?_insert_of_ne _ h.symm _⟩
    by_cases hsame : value.present = value.initial
    · simp only [if_neg hgone, if_pos hsame]
      exact .made rfl ⟨j.backend, j.slots, rfl, fun _ _ => rfl⟩
    simp only [if_neg hgone, if_neg hsame]
    cases hwrite : Backend.setStorage j.backend s value.present with
    | error cause => exact .refused (.slot s value.present) rfl hwrite
    | ok backend =>
      exact .made (Write.makeAll_one (.slot s value.present) hwrite)
        ⟨backend, _, rfl, fun _ h => getElem?_insert_of_ne _ h.symm _⟩

theorem settleCode_round (hash : Hash) (j : Journal β) :
    Round (j.codeWrite? hash) (fun j' => ∃ backend, j' = { j with backend }) j
      (settleCode hash j) := by
  unfold settleCode codeWrite?
  simp only [bind_apply, get_apply]
  cases j.codes[hash]? with
  | none => exact .made rfl ⟨j.backend, rfl⟩
  | some code =>
    simp only
    cases hwrite : Backend.setCode j.backend hash code with
    | error cause => exact .refused (.code hash code) rfl hwrite
    | ok backend => exact .made (Write.makeAll_one (.code hash code) hwrite) ⟨backend, rfl⟩

theorem settleAccount_round (a : Address) (j : Journal β) :
    Round (j.accountWrite? a) (KeptByAccount a j) j (settleAccount a j) := by
  unfold settleAccount accountWrite?
  simp only [bind_apply, get_apply]
  cases j.accounts[a]? with
  | none => exact .made rfl ⟨j.backend, j.accounts, rfl, fun _ _ => rfl⟩
  | some cached =>
    by_cases hsame : cached.present = cached.loaded
    · simp only [if_pos hsame]
      exact .made rfl ⟨j.backend, j.accounts, rfl, fun _ _ => rfl⟩
    simp only [if_neg hsame]
    -- an account that is kept is written, any other is deleted
    cases cached.present.filter fun account => !account.isEmpty with
    | some account =>
      simp only
      cases hwrite : Backend.setAccount j.backend a account with
      | error cause => exact .refused (.account a account) rfl hwrite
      | ok backend =>
        exact .made (Write.makeAll_one (.account a account) hwrite)
          ⟨backend, _, rfl, fun _ h => getElem?_insert_of_ne _ h.symm _⟩
    | none =>
      simp only
      cases hwrite : Backend.deleteAccount j.backend a with
      | error cause => exact .refused (.deletion a) rfl hwrite
      | ok backend =>
        exact .made (Write.makeAll_one (.deletion a) hwrite)
          ⟨backend, _, rfl, fun _ h => getElem?_insert_of_ne _ h.symm _⟩

/-! ## Settling -/

section Due

omit [Backend β]

variable {j j' : Journal β}

theorem slotWrite?_of_kept {s s' : Slot} (h : KeptBySlot s j j') (hne : s' ≠ s) :
    j'.slotWrite? s' = j.slotWrite? s' := by
  obtain ⟨_, slots, rfl, hslots⟩ := h
  unfold slotWrite?
  rw [hslots s' hne]
  rfl

theorem accountWrite?_of_kept {a a' : Address} (h : KeptByAccount a j j') (hne : a' ≠ a) :
    j'.accountWrite? a' = j.accountWrite? a' := by
  obtain ⟨_, accounts, rfl, haccounts⟩ := h
  unfold accountWrite?
  rw [haccounts a' hne]

theorem codeWrite?_of_codes (h : j'.codes = j.codes) : j'.codeWrite? = j.codeWrite? := by
  funext hash
  unfold codeWrite?
  rw [h]

theorem accountWrite?_of_accounts (h : j'.accounts = j.accounts) :
    j'.accountWrite? = j.accountWrite? := by
  funext a
  unfold accountWrite?
  rw [h]

end Due

/-- **A settlement makes the writes that are due when it starts**, in its order,
    and stops at the first one that is refused. -/
theorem settleIn_wrote {order : WriteOrder} (hslots : order.slots.Nodup)
    (hcodes : order.codes.Nodup) (haccounts : order.accounts.Nodup) (j : Journal β) :
    Wrote j.backend (j.writesIn order) (settleIn order j) := by
  unfold settleIn writesIn
  rw [bind_apply, modify_apply]
  show Wrote j.dropDestroyed.backend _ _
  generalize j.dropDestroyed = j0
  -- the codes and the accounts are left alone until their turn comes
  refine (Round.forM settleSlot_round (fun _ _ _ h _ => slotWrite?_of_kept h) hslots j0).bind
    fun _ j1 hj1 => ?_
  have hleft1 : j1.codes = j0.codes ∧ j1.accounts = j0.accounts := by
    refine Round.forM_kept settleSlot_round
      (P := fun j1 => j1.codes = j0.codes ∧ j1.accounts = j0.accounts) ?_ ⟨rfl, rfl⟩ hj1
    rintro s j j' ⟨_, _, rfl, _⟩ hj
    exact hj
  rw [← codeWrite?_of_codes hleft1.1]
  refine (Round.forM settleCode_round (fun _ _ _ h _ _ => ?_) hcodes j1).bind fun _ j2 hj2 => ?_
  · obtain ⟨_, rfl⟩ := h
    rfl
  have hleft2 : j2.accounts = j0.accounts := by
    refine Round.forM_kept settleCode_round (P := fun j2 => j2.accounts = j0.accounts) ?_
      hleft1.2 hj2
    rintro hash j j' ⟨_, rfl⟩ hj
    exact hj
  rw [← accountWrite?_of_accounts hleft2,
    ← List.append_nil (List.filterMap j2.accountWrite? order.accounts)]
  refine (Round.forM settleAccount_round (fun _ _ _ h _ => accountWrite?_of_kept h) haccounts
    j2).bind fun _ j3 _ => ?_
  exact .all rfl

theorem settle_wrote (j : Journal β) : Wrote j.backend j.writes (settle j) :=
  settleIn_wrote Std.ExtTreeMap.nodup_keys (nodup_toList _) Std.ExtTreeMap.nodup_keys j

end Journal

end Evm
