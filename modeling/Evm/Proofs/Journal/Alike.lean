import Evm.Proofs.Journal.Footprint
import Evm.Proofs.Journal.View
import Evm.Proofs.Lockstep

/-! # States that execution cannot tell apart

    Two states over databases that read alike show the same to execution if
    their views are equal and they know the same codes under the hashes that
    are in use (`Alike`). They may differ in what they have cached. Every
    operation gives the same result in both and leaves them alike, and so does
    reverting: what is cached is not observable.
-/

namespace Evm

/-- Two databases that no read tells apart. -/
structure Database.ReadsAs (db db' : Database) : Prop where
  accounts : ∀ a : Address, db.accounts[a]? = db'.accounts[a]?
  storage : ∀ s, db.storageValue s = db'.storageValue s
  codes : ∀ hash, db.code? hash = db'.code? hash
  blockHashes : ∀ number, db.blockHashes.getD number .zero = db'.blockHashes.getD number .zero

namespace Database.ReadsAs

variable {db db' : Database}

theorem refl (db : Database) : db.ReadsAs db :=
  ⟨fun _ => rfl, fun _ => rfl, fun _ => rfl, fun _ => rfl⟩

end Database.ReadsAs

/-- A hash that an account with code may come to have in a state: that of an
    account now, that of an account before a write that may be undone, or that
    of a code on the list of codes to write. -/
inductive View.Uses (v : View) (hash : Hash) : Prop where
  | present {a : Address} {account : Account} :
    v.accounts a = some account → account.hasCode = true → account.codeHash = hash → v.Uses hash
  | undone {a : Address} {account : Account} :
    .account a (some account) ∈ v.entries → account.hasCode = true → account.codeHash = hash →
    v.Uses hash
  | queued : hash ∈ v.newCode → v.Uses hash

/-- The hash that an edit brings into use. -/
def Edit.Employs (hash : Hash) : Edit → Prop
  | .account _ _ new => new.hasCode = true ∧ new.codeHash = hash
  | .queueCode queued => queued = hash
  | _ => False

namespace Journal

variable {db db' : Database} {j j' k k' : Journal Database} {e : Edit}

/-- The code that is known under a hash: cached, or in the database. -/
def knownCode (j : Journal Database) (hash : Hash) : Option Bytes :=
  (j.codes[hash]?).or (j.backend.code? hash)

/-! ## Reads -/

/-- A read: nothing else shows, and the same codes are known. -/
structure SameSight (db : Database) (j j' : Journal Database) : Prop where
  upright : Upright db j'
  view : j'.view = j.view
  known : ∀ hash, j'.knownCode hash = j.knownCode hash

theorem SameSight.refl (h : Upright db j) : SameSight db j j := ⟨h, rfl, fun _ => rfl⟩

/-- Loading an account gives what is seen, and leaves it cached. -/
theorem loadAccount_run (h : Upright db j) (a : Address) :
    ∃ j', loadAccount a j = .ok ⟨j.view.accounts a, db.accounts[a]?⟩ j' ∧
      j'.accounts[a]? = some ⟨j.view.accounts a, db.accounts[a]?⟩ ∧ SameSight db j j' := by
  unfold loadAccount
  simp only [bind_apply, get_apply]
  cases hcached : j.accounts[a]? with
  | some cached =>
    have hentry : cached = ⟨j.view.accounts a, db.accounts[a]?⟩ := by
      rw [view_account hcached, ← h.loaded a cached hcached]
    refine ⟨j, ?_, ?_, .refl h⟩
    · exact congrArg (EStateM.Result.ok · j) hentry
    · rw [hcached, hentry]
  | none =>
    obtain rfl := h.backend
    have happ : (Edit.readAccount a).Applies j
        { j with
          accounts := j.accounts.insert a ⟨j.backend.accounts[a]?, j.backend.accounts[a]?⟩ } :=
      .readAccount hcached rfl
    have hseen : j.view.accounts a = j.backend.accounts[a]? := by
      simp only [view, hcached]
      rfl
    rw [hseen]
    have hup := h.applies (e := .readAccount a) trivial happ
    exact ⟨_, rfl, by simp, hup, applies_view h.toLinked happ, fun _ => rfl⟩

/-- Loading a slot gives what is seen, and leaves it cached. -/
theorem loadSlot_run (h : Upright db j) (s : Slot) :
    ∃ j', loadSlot s j = .ok ⟨db.storageValue s, j.view.slots s⟩ j' ∧
      j'.slots[s]? = some ⟨db.storageValue s, j.view.slots s⟩ ∧ SameSight db j j' := by
  unfold loadSlot
  simp only [bind_apply, get_apply]
  cases hvalue : j.slots[s]? with
  | some value =>
    have hentry : value = ⟨db.storageValue s, j.view.slots s⟩ := by
      rw [view_slot hvalue, ← h.initial s value hvalue]
    refine ⟨j, ?_, ?_, .refl h⟩
    · exact congrArg (EStateM.Result.ok · j) hentry
    · rw [hvalue, hentry]
  | none =>
    have happ : (Edit.readSlot s).Applies j
        { j with slots := j.slots.insert s ⟨db.storageValue s, db.storageValue s⟩ } :=
      .readSlot hvalue (h.storedValue s)
    have hseen : j.view.slots s = db.storageValue s := by
      rw [← h.backend]
      simp only [view, hvalue]
      rfl
    rw [hseen]
    simp only [h.storedValue]
    have hup := h.applies (e := .readSlot s) trivial happ
    exact ⟨_, rfl, by simp, hup, applies_view h.toLinked happ, fun _ => rfl⟩

/-- A code becomes known that is in the database and was not cached. -/
theorem knownCode_learn {hash : Hash} {code : Bytes} (hnone : j.codes[hash]? = none)
    (hcode : j.backend.code? hash = some code) (hash' : Hash) :
    ({ j with codes := j.codes.insert hash code } : Journal Database).knownCode hash' =
      j.knownCode hash' := by
  unfold knownCode
  by_cases hh : hash = hash'
  · subst hh
    simp [hnone, hcode]
  · rw [getElem?_insert_of_ne _ hh]

/-- What is in use after an edit was in use before, or comes into use by it. -/
theorem uses_of_applies (h : Linked db j) (happ : e.Applies j j') {hash : Hash}
    (huses : j'.view.Uses hash) : j.view.Uses hash ∨ e.Employs hash := by
  rw [applies_view h happ] at huses
  cases huses with
  | @present a account haccount hcode hhash =>
    cases happ with
    | @account _ a' cached new hcached =>
      by_cases ha : a' = a
      · have hnew : some new = some account := by
          simpa only [Edit.onView, View.note, View.setAccount, if_pos ha] using haccount
        cases hnew
        exact .inr ⟨hcode, hhash⟩
      · simp only [Edit.onView, View.note, View.setAccount, if_neg ha] at haccount
        exact .inl (.present haccount hcode hhash)
    | _ => exact .inl (.present haccount hcode hhash)
  | @undone a account hmem hcode hhash =>
    have hold : .account a (some account) ∈ j.view.entries → j.view.Uses hash :=
      fun hmem => .undone hmem hcode hhash
    cases happ with
    | readAccount _ _ => exact .inl (hold hmem)
    | readSlot _ _ => exact .inl (hold hmem)
    | learnCode _ _ => exact .inl (hold hmem)
    | @account _ a' cached new hcached =>
      rcases List.mem_cons.mp hmem with heq | hmem
      · -- the account before the write is the one that was seen
        injection heq with ha hprevious
        refine .inl (.present (a := a') ?_ hcode hhash)
        rw [view_account hcached, hprevious]
      · exact .inl (hold hmem)
    | _ =>
      rcases List.mem_cons.mp hmem with heq | hmem
      · cases heq
      · exact .inl (hold hmem)
  | queued hmem =>
    cases happ with
    | @queueCode _ queued _ =>
      rcases Std.ExtTreeSet.mem_insert.mp hmem with heq | hmem
      · exact .inr (Std.LawfulEqOrd.eq_of_compare heq)
      · exact .inl (.queued hmem)
    | _ => exact .inl (.queued hmem)

/-- What reading the code of an account comes to. -/
def codeSeen (j : Journal Database) (a : Address) : Except StateError (Bytes × Hash) :=
  let account := (j.view.accounts a).getD .empty
  if account.codeHash = emptyCodeHash ∨ account.codeHash.isZero then
    .ok (ByteArray.empty, emptyCodeHash)
  else
    match j.knownCode account.codeHash with
    | some code => .ok (code, account.codeHash)
    | none => .error (.missingCode account.codeHash)

/-- A result, with a state that it leaves. -/
def leaving {α : Type} (j : Journal Database) :
    Except StateError α → EStateM.Result StateError (Journal Database) α
  | .ok a => .ok a j
  | .error e => .error e j

theorem code_run (h : Upright db j) (a : Address) :
    ∃ j', code a j = leaving j' (j.codeSeen a) ∧ SameSight db j j' := by
  obtain ⟨j1, hload, _, hsame⟩ := loadAccount_run h a
  have haccount : account a j = .ok ((j.view.accounts a).getD .empty) j1 := by
    unfold account
    rw [bind_apply, hload]
    rfl
  unfold code codeSeen
  rw [bind_apply, haccount]
  dsimp only
  generalize (j.view.accounts a).getD .empty = seen
  by_cases hno : seen.codeHash = emptyCodeHash ∨ seen.codeHash.isZero
  · rw [if_pos hno, if_pos hno]
    exact ⟨j1, rfl, hsame⟩
  rw [if_neg hno, if_neg hno, ← hsame.known]
  simp only [bind_apply, get_apply, knownCode]
  cases hcode : j1.codes[seen.codeHash]? with
  | some c => exact ⟨j1, rfl, hsame⟩
  | none =>
    cases hstored : j1.backend.code? seen.codeHash with
    | none =>
      have hread : Backend.code? j1.backend seen.codeHash = .ok none := congrArg Except.ok hstored
      simp only [hread]
      exact ⟨j1, rfl, hsame⟩
    | some c =>
      have hread : Backend.code? j1.backend seen.codeHash = .ok (some c) :=
        congrArg Except.ok hstored
      simp only [hread]
      have hup := hsame.upright.applies (e := .learnCode seen.codeHash c) trivial
        (.learnCode seen.codeHash c)
      refine ⟨_, rfl, hup, hsame.view, fun hash => ?_⟩
      exact (knownCode_learn hcode hstored hash).trans (hsame.known hash)

/-! ## States that are alike -/

/-- Execution cannot tell two states apart. -/
structure Alike (db db' : Database) (j k : Journal Database) : Prop where
  stores : db.ReadsAs db'
  left : Upright db j
  right : Upright db' k
  view : j.view = k.view
  codes : ∀ hash, j.view.Uses hash → j.knownCode hash = k.knownCode hash

namespace Alike

/-- Both have read, each something of its own. -/
theorem reads (h : Alike db db' j k) (hj : SameSight db j j') (hk : SameSight db' k k') :
    Alike db db' j' k' where
  stores := h.stores
  left := hj.upright
  right := hk.upright
  view := by rw [hj.view, hk.view, h.view]
  codes hash huses := by
    rw [hj.view] at huses
    rw [hj.known, hk.known, h.codes hash huses]

/-- **The same write on both sides.** The codes that it brings into use must be
    known alike. -/
theorem edit (h : Alike db db' j k) (hj : e.Applies j j') (hk : e.Applies k k')
    (hleft : e.Upholds db j) (hright : e.Upholds db' k)
    (hemploys : ∀ hash, e.Employs hash → j.knownCode hash = k.knownCode hash)
    (hwrites : ¬e.IsRead) : Alike db db' j' k' := by
  have hviewj := applies_view h.left.toLinked hj
  have hviewk := applies_view h.right.toLinked hk
  have hknown : ∀ {l l' : Journal Database}, e.Applies l l' →
      ∀ hash, l'.knownCode hash = l.knownCode hash := by
    intro l l' happ hash
    unfold knownCode
    have hcodes : l'.codes = l.codes := by
      refine happ.same (p := .codes) ?_
      rintro hpart
      cases e <;> cases hpart
      exact hwrites trivial
    rw [hcodes, happ.backend]
  refine ⟨h.stores, h.left.applies hleft hj, h.right.applies hright hk, ?_, ?_⟩
  · rw [hviewj, hviewk, h.view]
  intro hash huses
  rw [hknown hj, hknown hk]
  exact (uses_of_applies h.left.toLinked hj huses).elim (h.codes hash) (hemploys hash)

/-- The same code becomes known on both sides. -/
theorem learn (h : Alike db db' j k) (hash : Hash) (code : Bytes) :
    Alike db db' { j with codes := j.codes.insert hash code }
      { k with codes := k.codes.insert hash code } := by
  refine ⟨h.stores, h.left.applies (e := .learnCode hash code) trivial (.learnCode _ _),
    h.right.applies (e := .learnCode hash code) trivial (.learnCode _ _), h.view, ?_⟩
  intro hash' huses
  have hother := h.codes hash' huses
  unfold knownCode at hother ⊢
  by_cases hh : hash = hash'
  · subst hh
    simp
  · rw [getElem?_insert_of_ne _ hh, getElem?_insert_of_ne _ hh]
    exact hother

/-! ## Reading -/

theorem loadAccount (a : Address) :
    Lockstep (Alike db db') (loadAccount a) (loadAccount a) := by
  intro j k h
  obtain ⟨j', hj, _, hsamej⟩ := loadAccount_run h.left a
  obtain ⟨k', hk, _, hsamek⟩ := loadAccount_run h.right a
  rw [hj, hk, h.view, h.stores.accounts]
  exact .ok _ (h.reads hsamej hsamek)

theorem loadSlot (s : Slot) : Lockstep (Alike db db') (loadSlot s) (loadSlot s) := by
  intro j k h
  obtain ⟨j', hj, _, hsamej⟩ := loadSlot_run h.left s
  obtain ⟨k', hk, _, hsamek⟩ := loadSlot_run h.right s
  rw [hj, hk, h.view, h.stores.storage]
  exact .ok _ (h.reads hsamej hsamek)

theorem account (a : Address) : Lockstep (Alike db db') (account a) (account a) :=
  (loadAccount a).bind fun _ => .pure _

theorem isEmpty (a : Address) : Lockstep (Alike db db') (isEmpty a) (isEmpty a) :=
  (account a).bind fun _ => .pure _

theorem balance (a : Address) : Lockstep (Alike db db') (balance a) (balance a) :=
  (account a).bind fun _ => .pure _

theorem nonce (a : Address) : Lockstep (Alike db db') (nonce a) (nonce a) :=
  (account a).bind fun _ => .pure _

theorem storage (s : Slot) : Lockstep (Alike db db') (storage s) (storage s) :=
  (loadSlot s).bind fun _ => .pure _

theorem blockHash (number : Nat) :
    Lockstep (Alike db db') (blockHash number) (blockHash number) := by
  intro j k h
  have hj : Backend.blockHash j.backend number = .ok (db.blockHashes.getD number .zero) := by
    rw [h.left.backend]
    rfl
  have hk : Backend.blockHash k.backend number = .ok (db.blockHashes.getD number .zero) := by
    rw [h.right.backend, h.stores.blockHashes]
    rfl
  unfold Journal.blockHash
  simp only [bind_apply, get_apply, hj, hk]
  exact .ok _ h

/-- The code of an account is in use, and so it is known alike. -/
theorem codeSeen (h : Alike db db' j k) (a : Address) : j.codeSeen a = k.codeSeen a := by
  unfold Journal.codeSeen
  rw [← h.view]
  dsimp only
  by_cases hno : ((j.view.accounts a).getD .empty).codeHash = emptyCodeHash ∨
      ((j.view.accounts a).getD .empty).codeHash.isZero
  · rw [if_pos hno, if_pos hno]
  · rw [if_neg hno, if_neg hno]
    cases hseen : j.view.accounts a with
    | none =>
      rw [hseen] at hno
      exact absurd (.inl rfl) hno
    | some account =>
      rw [hseen] at hno
      have hcode : account.hasCode = true := by
        simpa [Account.hasCode, not_or] using hno
      rw [Option.getD_some, h.codes _ (.present hseen hcode rfl)]

theorem code (a : Address) : Lockstep (Alike db db') (code a) (code a) := by
  intro j k h
  obtain ⟨j', hj, hsamej⟩ := code_run h.left a
  obtain ⟨k', hk, hsamek⟩ := code_run h.right a
  rw [hj, hk, h.codeSeen a]
  have halike := h.reads hsamej hsamek
  cases k.codeSeen a with
  | ok found => exact .ok found halike
  | error err => exact .error err halike

/-! ## Writing accounts -/

/-- What an account may be changed into: one that is in the database as taken
    stays taken, and its code, if it has any, is one that is in use. -/
structure MayBecome (db : Database) (j : Journal Database) (a : Address) (new : Account) :
    Prop where
  stands : Taken db.accounts[a]? → Taken (some new)
  used : new.hasCode = true → j.view.Uses new.codeHash

/-- A change that keeps the code, and does not set the nonce to zero. -/
theorem mayBecome (h : Alike db db' j k) {a : Address} {new : Account}
    (hcode : new.codeHash = ((j.view.accounts a).getD .empty).codeHash)
    (hnonce : ((j.view.accounts a).getD .empty).nonce ≠ 0 → new.nonce ≠ 0) :
    MayBecome db j a new := by
  have hsame : new.hasCode = ((j.view.accounts a).getD .empty).hasCode := by
    simp only [Account.hasCode, hcode]
  constructor
  · intro htaken
    rcases h.left.stands a htaken with hold | hold
    · exact .inl (hnonce hold)
    · exact .inr (hsame.trans hold)
  · intro hnew
    rw [hsame] at hnew
    cases hseen : j.view.accounts a with
    | none =>
      rw [hseen] at hnew
      simp [Account.empty, Account.hasCode] at hnew
    | some account =>
      rw [hseen] at hnew hcode
      exact .present hseen hnew hcode.symm

theorem modifyAccount (h : Alike db db' j k) (a : Address)
    {f : Account → Except StateError Account}
    (hf : ∀ new, f ((j.view.accounts a).getD .empty) = .ok new → MayBecome db j a new) :
    Matches (Alike db db') (modifyAccount a f j) (modifyAccount a f k) := by
  obtain ⟨j1, hj, hcachedj, hsamej⟩ := loadAccount_run h.left a
  obtain ⟨k1, hk, hcachedk, hsamek⟩ := loadAccount_run h.right a
  have halike := h.reads hsamej hsamek
  unfold Journal.modifyAccount
  rw [bind_apply, hj, bind_apply, hk, ← h.view]
  dsimp only
  cases hnew : f ((j.view.accounts a).getD .empty) with
  | error err => exact .error err halike
  | ok new =>
    obtain ⟨hstands, hused⟩ := hf new hnew
    rw [← h.view] at hcachedk
    refine .ok () (halike.edit (e := .account a (j.view.accounts a) new) (.account new hcachedj)
      (.account new hcachedk) hstands ?_ ?_ id)
    · intro htaken
      rw [← h.stores.accounts] at htaken
      exact hstands htaken
    · rintro hash ⟨hcode, rfl⟩
      rw [hsamej.known, hsamek.known]
      exact h.codes _ (hused hcode)

theorem setBalance (a : Address) (balance : Word) :
    Lockstep (Alike db db') (setBalance a balance) (setBalance a balance) := by
  intro j k h
  refine h.modifyAccount a fun new hnew => ?_
  cases hnew
  exact h.mayBecome rfl id

theorem addBalance (a : Address) (amount : Word) :
    Lockstep (Alike db db') (addBalance a amount) (addBalance a amount) := by
  intro j k h
  refine h.modifyAccount a fun new hnew => ?_
  split at hnew <;> cases hnew
  exact h.mayBecome rfl id

theorem subBalance (a : Address) (amount : Word) :
    Lockstep (Alike db db') (subBalance a amount) (subBalance a amount) := by
  intro j k h
  refine h.modifyAccount a fun new hnew => ?_
  split at hnew <;> cases hnew
  exact h.mayBecome rfl id

theorem transfer (source target : Address) (amount : Word) :
    Lockstep (Alike db db') (transfer source target amount) (transfer source target amount) := by
  unfold Journal.transfer
  refine .ite (.pure _) ?_
  refine (balance source).bind fun available => .ite (.throw _) (.ite (.pure _) ?_)
  exact (subBalance source amount).bind fun _ => addBalance target amount

/-- A nonce is set, but not to zero. -/
theorem setNonce (a : Address) {n : Nat} (hn : n ≠ 0) :
    Lockstep (Alike db db') (setNonce a n) (setNonce a n) := by
  intro j k h
  refine h.modifyAccount a fun new hnew => ?_
  cases hnew
  exact h.mayBecome rfl fun _ => hn

theorem incrementNonce (a : Address) :
    Lockstep (Alike db db') (incrementNonce a) (incrementNonce a) := by
  unfold Journal.incrementNonce
  refine (nonce a).bind fun current => .ite (.throw _) ?_
  exact (setNonce a (Nat.succ_ne_zero current)).bind fun _ => .pure _

/-! ## Marks -/

/-- A mark that is made unless it is there already. -/
theorem mark (h : Alike db db' j k) {m : Journal Database → Journal Database} {p : View → Prop}
    (hthere : ∀ l, p l.view → m l = l) (hnew : ∀ l, ¬p l.view → e.Applies l (m l))
    (hleft : e.Upholds db j) (hright : e.Upholds db' k)
    (hemploys : ∀ hash, e.Employs hash → j.knownCode hash = k.knownCode hash)
    (hwrites : ¬e.IsRead) : Alike db db' (m j) (m k) := by
  by_cases hp : p j.view
  · rwa [hthere j hp, hthere k (h.view ▸ hp)]
  · exact h.edit (hnew j hp) (hnew k (h.view ▸ hp)) hleft hright hemploys hwrites

theorem warmAddress (h : Alike db db' j k) (a : Address) :
    (j.warmAddress a).1 = (k.warmAddress a).1 ∧
      Alike db db' (j.warmAddress a).2 (k.warmAddress a).2 := by
  have hcold : ∀ l : Journal Database, (l.warmAddress a).1 = !l.warmAddresses.contains a := by
    intro l
    unfold Journal.warmAddress isWarmAddress
    cases l.warmAddresses.contains a <;> rfl
  constructor
  · have hsame : j.warmAddresses = k.warmAddresses := congrArg View.warmAddresses h.view
    rw [hcold, hcold, hsame]
  · refine h.mark (e := .warmAddress a) (m := fun l => (l.warmAddress a).2)
      (p := fun v => a ∈ v.warmAddresses) (fun l hmem => ?_) (fun l hmem => ?_) trivial trivial
      (fun _ => False.elim) id
    · exact congrArg Prod.snd (if_pos (Std.ExtTreeSet.contains_iff_mem.mpr hmem))
    · have hnew : a ∉ l.warmAddresses := hmem
      simpa [Journal.warmAddress, isWarmAddress, hnew] using Edit.Applies.warmAddress hnew

theorem warmSlot (h : Alike db db' j k) (s : Slot) :
    (j.warmSlot s).1 = (k.warmSlot s).1 ∧ Alike db db' (j.warmSlot s).2 (k.warmSlot s).2 := by
  have hcold : ∀ l : Journal Database, (l.warmSlot s).1 = !l.warmSlots.contains s := by
    intro l
    unfold Journal.warmSlot isWarmSlot
    cases l.warmSlots.contains s <;> rfl
  constructor
  · rw [hcold, hcold, show j.warmSlots = k.warmSlots from congrArg View.warmSlots h.view]
  · refine h.mark (e := .warmSlot s) (m := fun l => (l.warmSlot s).2)
      (p := fun v => s ∈ v.warmSlots) (fun l hmem => ?_) (fun l hmem => ?_) trivial trivial
      (fun _ => False.elim) id
    · exact congrArg Prod.snd (if_pos (Std.ExtTreeSet.contains_iff_mem.mpr hmem))
    · have hnew : s ∉ l.warmSlots := hmem
      simpa [Journal.warmSlot, isWarmSlot, hnew] using Edit.Applies.warmSlot hnew

/-- An account may be marked as created if no slot of it is in the database. -/
theorem markCreated (h : Alike db db' j k) {a : Address}
    (hfresh : ∀ key, db.storageValue ⟨a, key⟩ = 0) :
    Alike db db' (j.markCreated a) (k.markCreated a) := by
  have hfresh' : ∀ key, db'.storageValue ⟨a, key⟩ = 0 :=
    fun key => (h.stores.storage _).symm.trans (hfresh key)
  refine h.mark (e := .created a) (m := fun l => l.markCreated a) (p := fun v => a ∈ v.created)
    (fun l hmem => ?_) (fun l hmem => ?_) hfresh hfresh' (fun _ => False.elim) id
  · exact if_pos (Std.ExtTreeSet.contains_iff_mem.mpr hmem)
  · have hnew : a ∉ l.created := hmem
    simpa [Journal.markCreated, isCreated, hnew] using Edit.Applies.created hnew

/-- An account may be marked as destroyed once it is cached. -/
theorem markDestroyed (h : Alike db db' j k) {a : Address} (hj : (j.accounts[a]?).isSome)
    (hk : (k.accounts[a]?).isSome) : Alike db db' (j.markDestroyed a) (k.markDestroyed a) := by
  refine h.mark (e := .destroyed a) (m := fun l => l.markDestroyed a)
    (p := fun v => a ∈ v.destroyed) (fun l hmem => ?_) (fun l hmem => ?_) hj hk
    (fun _ => False.elim) id
  · exact if_pos (Std.ExtTreeSet.contains_iff_mem.mpr hmem)
  · have hnew : a ∉ l.destroyed := hmem
    simpa [Journal.markDestroyed, isDestroyed, hnew] using Edit.Applies.destroyed hnew

theorem tload (h : Alike db db' j k) (s : Slot) : j.tload s = k.tload s :=
  congrArg (fun v : View => v.transient.read s) h.view

theorem tstore (h : Alike db db' j k) (s : Slot) (value : Word) :
    Alike db db' (j.tstore s value) (k.tstore s value) :=
  h.edit (e := .transient s value) (.transient s value) (.transient s value) trivial trivial
    (fun _ => False.elim) id

theorem addLog (h : Alike db db' j k) (entry : Log) :
    Alike db db' (j.addLog entry) (k.addLog entry) :=
  h.edit (e := .log entry) (.log entry) (.log entry) trivial trivial (fun _ => False.elim) id

theorem setStorage (s : Slot) (value : Word) :
    Lockstep (Alike db db') (setStorage s value) (setStorage s value) := by
  intro j k h
  obtain ⟨j1, hj, hcachedj, hsamej⟩ := loadSlot_run h.left s
  obtain ⟨k1, hk, hcachedk, hsamek⟩ := loadSlot_run h.right s
  have halike := h.reads hsamej hsamek
  unfold Journal.setStorage
  rw [bind_apply, hj, bind_apply, hk, ← h.view, ← h.stores.storage]
  rw [← h.view, ← h.stores.storage] at hcachedk
  exact .ok _ (halike.edit (e := .storage s value) (.storage value hcachedj)
    (.storage value hcachedk) trivial trivial (fun _ => False.elim) id)

/-! ## Codes -/

theorem queueCode (hash : Hash) (code : Bytes) :
    Lockstep (Alike db db') (queueCode hash code) (queueCode hash code) := by
  intro j k h
  let queue (l : Journal Database) : Journal Database :=
    let queued := { l with newCode := l.newCode.insert hash }
    if l.newCode.contains hash then queued else queued.note (.code hash)
  have hthere : ∀ l : Journal Database, hash ∈ l.newCode → queue l = l := by
    intro l hmem
    simp [queue, hmem, insert_of_mem _ hmem]
  have hnew : ∀ l : Journal Database, hash ∉ l.newCode →
      (Edit.queueCode hash).Applies l (queue l) := by
    intro l hmem
    simpa [queue, hmem] using Edit.Applies.queueCode hmem
  have hsame : ∀ hash', (Edit.queueCode hash).Employs hash' →
      ({ j with codes := j.codes.insert hash code } : Journal Database).knownCode hash' =
        ({ k with codes := k.codes.insert hash code } : Journal Database).knownCode hash' := by
    rintro hash' rfl
    simp [knownCode]
  have halike := (h.learn hash code).mark (m := queue) (p := fun v => hash ∈ v.newCode) hthere hnew
    (by simp [Edit.Upholds]) (by simp [Edit.Upholds]) hsame id
  exact .ok _ halike

/-- Code is set at an account that is not taken in the database, or it is set
    where the nonce keeps the account taken. -/
theorem setCode {a : Address} (code : Bytes) (hfree : ¬Taken db.accounts[a]?) :
    Lockstep (Alike db db') (setCode a code) (setCode a code) := by
  have hset : ∀ (hash : Hash) {j k : Journal Database}, Alike db db' j k →
      (hash = emptyCodeHash ∨ hash ∈ j.newCode) →
      Matches (Alike db db') (setCodeHash a hash j) (setCodeHash a hash k) := by
    intro hash j k h hused
    refine h.modifyAccount a fun new hnew => ⟨fun htaken => absurd htaken hfree, ?_⟩
    cases hnew
    intro hcode
    rcases hused with rfl | hmem
    · simp [Account.hasCode] at hcode
    · exact .queued hmem
  have hqueued : ∀ (hash : Hash) (j j' : Journal Database) (u : Unit),
      Journal.queueCode hash code j = .ok u j' → hash ∈ j'.newCode := by
    intro hash j j' u hj
    unfold Journal.queueCode at hj
    rw [modify_apply] at hj
    cases hj
    dsimp only
    split
    · exact Std.ExtTreeSet.mem_insert_self
    · exact Std.ExtTreeSet.mem_insert_self
  unfold Journal.setCode
  refine .ite ?_ ?_
  · exact fun j k h => (hset emptyCodeHash h (.inl rfl)).bind fun _ _ _ _ _ h' => .ok _ h'
  · intro j k h
    refine (queueCode (keccak256 code) code j k h).bind fun u j1 k1 hj _ h1 => ?_
    have hmem := hqueued (keccak256 code) j j1 u hj
    exact (hset _ h1 (.inr hmem)).bind fun _ _ _ _ _ h' => .ok _ h'

/-! ## Undoing -/

/-- What is in use after undoing was in use before. -/
theorem uses_undo {v : View} {entry : Undo} {rest : List Undo}
    (hentries : v.entries = entry :: rest) {hash : Hash}
    (huses : ({ v with entries := rest }.undo entry).Uses hash) : v.Uses hash := by
  have hundone : ∀ {a : Address} {account : Account},
      .account a (some account) ∈ entry :: rest → account.hasCode = true →
      account.codeHash = hash → v.Uses hash := by
    intro a account hmem
    rw [← hentries] at hmem
    exact .undone hmem
  cases huses with
  | @present a account haccount hcode hhash =>
    cases entry with
    | account a' previous =>
      by_cases ha : a' = a
      · simp only [View.undo, View.setAccount, if_pos ha] at haccount
        subst haccount
        exact hundone List.mem_cons_self hcode hhash
      · simp only [View.undo, View.setAccount, if_neg ha] at haccount
        exact .present haccount hcode hhash
    | _ => exact .present haccount hcode hhash
  | @undone a account hmem hcode hhash =>
    have hrest : .account a (some account) ∈ rest := by
      cases entry <;> exact hmem
    exact hundone (List.mem_cons_of_mem _ hrest) hcode hhash
  | queued hmem =>
    cases entry with
    | code hash' => exact .queued (Std.ExtTreeSet.mem_of_mem_erase hmem)
    | _ => exact .queued hmem

theorem undoNewest (n : Nat) (h : Alike db db' j k) :
    Alike db db' (undoNewest n j) (undoNewest n k) := by
  induction n generalizing j k with
  | zero => exact h
  | succ n ih =>
    have hsame : j.entries = k.entries := congrArg View.entries h.view
    unfold Journal.undoNewest
    rw [← hsame]
    cases hentries : j.entries with
    | nil => exact h
    | cons entry rest =>
      obtain ⟨hleft, hviewj⟩ := h.left.undoHead hentries
      obtain ⟨hright, hviewk⟩ := h.right.undoHead (hsame.symm.trans hentries)
      refine ih ⟨h.stores, hleft, hright, ?_, ?_⟩
      · rw [hviewj, hviewk, h.view]
      · intro hash huses
        rw [hviewj] at huses
        have hknown : ∀ l : Journal Database,
            ({ l with entries := rest }.undo entry).knownCode hash = l.knownCode hash := by
          intro l
          unfold knownCode
          rw [undo_codes, undo_backend]
        rw [hknown, hknown]
        exact h.codes hash (uses_undo hentries huses)

/-- **Reverting** to a checkpoint leaves states alike. -/
theorem revert (h : Alike db db' j k) (c : Checkpoint) :
    Alike db db' (j.revert c) (k.revert c) := by
  have hsame : j.entries = k.entries := congrArg View.entries h.view
  unfold Journal.revert
  rw [← hsame]
  exact h.undoNewest _

end Alike

end Journal

end Evm
