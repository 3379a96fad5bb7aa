import Evm.Proofs.Journal.Linked
import Evm.Proofs.Journal.Nesting

/-! # The codes that a script leaves to write

    A script of operations with nested scopes gives codes to accounts, and some
    of that is undone again. What is left at its end is exactly what was not
    undone: the hashes on the list of codes to write are those of the codes
    that were set by an operation that was kept (`keptOperations`), and an
    account has the hash of the code that was last given to it by one of them.
    The codes themselves stay known even where setting them was undone.

    The invariant along a script is `Recorded`: at every checkpoint of an open
    scope the state there goes with the operations that were kept up to there.
-/

namespace Evm

open Journal

/-! ## Edits that are of no code -/

/-- An edit that neither learns nor queues a code and creates no account, and
    leaves the hash of the code of an account as it is. -/
def Edit.Plain : Edit → Prop
  | .account _ previous new => new.codeHash = (previous.getD .empty).codeHash
  | .learnCode _ _ | .queueCode _ | .created _ => False
  | _ => True

theorem Edit.Plain.fresh {e : Edit} (h : e.Plain) (db : Database) : e.Fresh db := by
  cases e <;> trivial

namespace Journal

/-- The hash that an account has whose code this is. -/
def codeHashOf (c : Bytes) : Hash := if c.isEmpty then emptyCodeHash else keccak256 c

/-- The account at an address is cached, and its code has this hash. -/
def HasCodeHash {β : Type} (j : Journal β) (a : Address) (hash : Hash) : Prop :=
  ∃ cached account, j.accounts[a]? = some cached ∧ cached.present = some account ∧
    account.codeHash = hash

namespace HasCodeHash

variable {β : Type} [Backend β] {j j' : Journal β} {a : Address} {hash : Hash} {e : Edit}

/-- The hash changes only by an edit of the account that changes it. -/
theorem applies (h : j.HasCodeHash a hash) (happ : e.Applies j j')
    (hkeeps : ∀ previous new, e = .account a previous new →
      new.codeHash = (previous.getD .empty).codeHash) : j'.HasCodeHash a hash := by
  obtain ⟨cached, account, hcached, hpresent, hhash⟩ := h
  cases happ with
  | @readAccount _ a' found hnone _ =>
    have hne : a' ≠ a := by
      rintro rfl
      rw [hnone] at hcached
      cases hcached
    exact ⟨cached, account, (getElem?_insert_of_ne _ hne _).trans hcached, hpresent, hhash⟩
  | @account _ a' c new hc =>
    by_cases ha : a' = a
    · subst ha
      rw [hc] at hcached
      cases hcached
      refine ⟨_, new, Std.ExtTreeMap.getElem?_insert_self, rfl, ?_⟩
      rw [hkeeps _ _ rfl, hpresent]
      exact hhash
    · exact ⟨cached, account, (getElem?_insert_of_ne _ ha _).trans hcached, hpresent, hhash⟩
  | _ => exact ⟨cached, account, hcached, hpresent, hhash⟩

theorem changes {ok : Edit → Prop} (h : j.HasCodeHash a hash) (hchanges : Changes ok j j')
    (hkeeps : ∀ previous new, ok (.account a previous new) →
      new.codeHash = (previous.getD .empty).codeHash) : j'.HasCodeHash a hash := by
  refine hchanges.invariant (P := fun k => k.HasCodeHash a hash) ?_ h
  intro e k k' he happ hk
  refine hk.applies happ ?_
  rintro previous new rfl
  exact hkeeps previous new he

theorem restored (h : j.HasCodeHash a hash) (hrestored : Restored j j') :
    j'.HasCodeHash a hash := by
  obtain ⟨cached, account, hcached, hrest⟩ := h
  exact ⟨cached, account, hrestored.accounts a cached hcached, hrest⟩

end HasCodeHash

/-! ## Operations -/

/-- An operation that is of no code and creates no account. -/
def Operation.IsPlain : Operation → Prop
  | .code _ | .setCode _ _ | .markCreated _ => False
  | _ => True

/-- What a plain operation does are plain edits. -/
theorem Operation.run_plain {β : Type} [Backend β] {op : Operation} (h : op.IsPlain)
    (j : Journal β) : Changes Edit.Plain j (op.run j) := by
  have hcredited : ∀ (amount : Word) (a : Address) (previous : Option Account) (new : Account),
      Credited amount previous new → Edit.Plain (.account a previous new) := by
    rintro amount a previous new ⟨_, rfl⟩
    rfl
  have hdebited : ∀ (amount : Word) (a : Address) (previous : Option Account) (new : Account),
      Debited amount previous new → Edit.Plain (.account a previous new) := by
    rintro amount a previous new ⟨_, rfl⟩
    rfl
  have hread : ∀ a, Edit.Plain (.readAccount a) := fun _ => trivial
  have hslot : ∀ s, Edit.Plain (.readSlot s) := fun _ => trivial
  cases op with
  | account a => exact account_edits (hread a) j
  | isPresent a => exact isPresent_edits (hread a) j
  | isEmpty a => exact isEmpty_edits (hread a) j
  | balance a => exact balance_edits (hread a) j
  | nonce a => exact nonce_edits (hread a) j
  | storage s => exact storage_edits (hslot s) j
  | slot s => exact slot_edits (hslot s) j
  | blockHash n => exact blockHash_edits n j
  | tload s => exact .refl j
  | isWarmAddress a => exact .refl j
  | isWarmSlot s => exact .refl j
  | isCreated a => exact .refl j
  | isDestroyed a => exact .refl j
  | emitted => exact .refl j
  | setBalance a b => exact setBalance_edits (hread a) (fun _ => rfl) j
  | addBalance a amount => exact addBalance_edits (hread a) (hcredited amount a) j
  | subBalance a amount => exact subBalance_edits (hread a) (hdebited amount a) j
  | transfer source target amount =>
    exact transfer_edits hread (fun _ _ => hdebited amount source)
      (fun _ _ => hcredited amount target) j
  | setNonce a n => exact setNonce_edits (hread a) (fun _ => rfl) j
  | incrementNonce a => exact incrementNonce_edits (hread a) (fun _ _ => rfl) j
  | setStorage s value =>
    have hwrite : Edit.Plain (.storage s value) := trivial
    exact setStorage_edits (hslot s) hwrite j
  | tstore s value =>
    have hwrite : Edit.Plain (.transient s value) := trivial
    exact tstore_changes j hwrite
  | warmAddress a =>
    have hwarm : Edit.Plain (.warmAddress a) := trivial
    exact warmAddress_changes j hwarm
  | warmSlot s =>
    have hwarm : Edit.Plain (.warmSlot s) := trivial
    exact warmSlot_changes j hwarm
  | addLog log =>
    have hlog : Edit.Plain (.log log) := trivial
    exact addLog_changes j hlog
  | markDestroyed a =>
    have hmark : Edit.Plain (.destroyed a) := trivial
    exact markDestroyed_changes j hmark
  | _ => exact h.elim

section Codes

variable {a : Address} {c : Bytes} {hash : Hash}

/-- Reading code adds a code to those that are known only if it is missing. -/
theorem code_codes {β : Type} [Backend β] (a : Address) (j : Journal β)
    (h : j.codes[hash]? = some c) : (endState (code a j)).codes[hash]? = some c := by
  have haccount : Edits Edit.Plain (account a : JournalM β Account) := account_edits trivial
  have hsame : ∀ j : Journal β, (endState (account a j)).codes = j.codes := by
    intro j
    refine (haccount j).same (p := .codes) ?_
    intro e he hpart
    cases e <;> cases hpart
    exact he
  have hread := hsame j
  unfold Journal.code
  rw [bind_apply]
  cases haccount : account a j with
  | error cause j' =>
    rw [haccount] at hread
    exact (congrArg (·[hash]?) hread).trans h
  | ok acc j' =>
    rw [haccount, endState_ok] at hread
    rw [← hread] at h
    by_cases hnone : acc.codeHash = emptyCodeHash ∨ acc.codeHash.isZero
    · simp only [if_pos hnone]
      exact h
    simp only [if_neg hnone, bind_apply, get_apply]
    cases hknown : j'.codes[acc.codeHash]? with
    | some known => exact h
    | none =>
      rcases Backend.code? j'.backend acc.codeHash with cause | _ | found
      · exact h
      · exact h
      · have hne : acc.codeHash ≠ hash := by
          rintro rfl
          rw [hknown] at h
          cases h
        exact (getElem?_insert_of_ne _ hne _).trans h

/-- An operation that sets no code forgets none and replaces none. -/
theorem Operation.run_codes {β : Type} [Backend β] {op : Operation}
    (hop : ∀ a c, op ≠ .setCode a c) (j : Journal β) (h : j.codes[hash]? = some c) :
    (op.run j).codes[hash]? = some c := by
  have hplain : op.IsPlain → (op.run j).codes[hash]? = some c := by
    intro hplain
    have hsame : Part.codes.Same j (op.run j) := by
      refine (op.run_plain hplain j).same ?_
      intro e he hpart
      cases e <;> cases hpart
      exact he
    exact (congrArg (·[hash]?) hsame).trans h
  cases op with
  | setCode a c => exact absurd rfl (hop a c)
  | code a => exact code_codes a j h
  | markCreated a =>
    show (Journal.markCreated j a).codes[hash]? = some c
    unfold Journal.markCreated
    split <;> exact h
  | _ => exact hplain trivial

/-- A database answers. -/
theorem loadAccount_answers (a : Address) (j : Journal Database) :
    ∃ cached j', loadAccount a j = .ok cached j' := by
  unfold loadAccount
  simp only [bind_apply, get_apply]
  cases j.accounts[a]? with
  | some cached => exact ⟨cached, j, rfl⟩
  | none => exact ⟨_, _, rfl⟩

/-- So over a database the code of an account can always be set. -/
theorem setCodeHash_answers (a : Address) (hash : Hash) (j : Journal Database) :
    ∃ j', setCodeHash a hash j = .ok () j' := by
  obtain ⟨cached, j', hload⟩ := loadAccount_answers a j
  unfold setCodeHash modifyAccount
  rw [bind_apply, hload]
  exact ⟨_, rfl⟩

/-- Setting the hash of the code of an account, over a database. -/
theorem setCodeHash_run (a : Address) (hash : Hash) (j : Journal Database) :
    let j' := endState (setCodeHash a hash j)
    j'.codes = j.codes ∧ j'.newCode = j.newCode ∧ j'.HasCodeHash a hash ∧
      ∀ a' hash', a ≠ a' → j.HasCodeHash a' hash' → j'.HasCodeHash a' hash' := by
  let ok (e : Edit) : Prop := e = .readAccount a ∨ ∃ previous new, e = .account a previous new
  have hedits : Edits ok (setCodeHash a hash : JournalM Database Unit) :=
    setCodeHash_edits (.inl rfl) fun previous => .inr ⟨previous, _, rfl⟩
  have hchanges := hedits j
  have hpart : ∀ p : Part, Part.accounts ≠ p →
      p.Same j (endState (setCodeHash a hash j)) := by
    intro p hp
    refine hchanges.same ?_
    rintro e (rfl | ⟨_, _, rfl⟩) <;> exact hp
  refine ⟨hpart .codes nofun, hpart .newCode nofun, ?_, ?_⟩
  · obtain ⟨j', hset⟩ := setCodeHash_answers a hash j
    have hmodified := modifyAccount_spec a (fun account => .ok { account with codeHash := hash }) j
    rw [show modifyAccount a _ j = .ok () j' from hset] at hmodified
    rw [hset]
    cases hmodified with
    | written _ hnew happ =>
      cases hnew
      cases happ with
      | account new _ => exact ⟨_, _, Std.ExtTreeMap.getElem?_insert_self, rfl, rfl⟩
  · intro a' hash' hne hhas
    refine hhas.changes hchanges ?_
    rintro previous new (hread | ⟨_, _, hwrite⟩)
    · cases hread
    · cases hwrite
      exact absurd rfl hne

/-- The state in which an account gets its code: code that is not empty was
    put on the list first. -/
theorem setCode_run {β : Type} [Backend β] (a : Address) (c : Bytes) (j : Journal β) :
    endState (setCode a c j) =
      endState (setCodeHash a (codeHashOf c)
        (if c.isEmpty then j else endState (queueCode (keccak256 c) c j))) := by
  unfold setCode codeHashOf
  by_cases hempty : c.isEmpty
  · simp only [if_pos hempty]
    rw [bind_apply]
    cases setCodeHash a emptyCodeHash j <;> rfl
  · simp only [if_neg hempty]
    rw [bind_apply]
    simp only [queueCode, modify_apply, endState_ok]
    rw [bind_apply]
    split <;> next hset => rw [hset]; rfl

theorem queueCode_run {β : Type} [Backend β] (hash : Hash) (c : Bytes) (j : Journal β) :
    let j' := endState (queueCode hash c j)
    j'.codes = j.codes.insert hash c ∧ j'.newCode = j.newCode.insert hash ∧
      j'.accounts = j.accounts := by
  unfold queueCode
  simp only [modify_apply, endState_ok]
  split <;> exact ⟨rfl, rfl, rfl⟩

end Codes

/-! ## What is kept -/

/-- The operations that were kept so far, newest first, and those that had been
    at the checkpoints of the open scopes, innermost first. -/
def Event.keep :
    Event → List Operation × List (List Operation) → List Operation × List (List Operation)
  | .operation op, (ops, saved) => (op :: ops, saved)
  | .snapshot, (ops, saved) => (ops, ops :: saved)
  | .commit, (ops, saved) => (ops, saved.tail)
  | .revert, (_, old :: saved) => (old, saved)
  | .revert, (ops, []) => (ops, [])

/-- The operations of a script that were not undone, newest first. -/
def keptOperations (events : List Event) : List Operation :=
  (events.foldl (fun kept event => event.keep kept) ([], [])).1

/-- The code that an operation gives to an account. -/
def Operation.codeFor? (a : Address) : Operation → Option Bytes
  | .setCode a' c => if a' = a then some c else none
  | _ => none

/-- The code that an account was last given by operations, newest first. -/
def lastCode? (ops : List Operation) (a : Address) : Option Bytes :=
  ops.findSome? (Operation.codeFor? a)

/-- Some operation gives code with this hash to an account. -/
def Queues (ops : List Operation) (hash : Hash) : Prop :=
  ∃ a c, .setCode a c ∈ ops ∧ c.isEmpty = false ∧ keccak256 c = hash

/-- The list of codes to write and the hashes of the accounts are those that
    the operations come to. -/
structure CodesOf (ops : List Operation) (j : Journal Database) : Prop where
  queued : ∀ hash, hash ∈ j.newCode ↔ Queues ops hash
  given : ∀ a c, lastCode? ops a = some c → j.HasCodeHash a (codeHashOf c)

namespace CodesOf

variable {ops : List Operation} {j j' : Journal Database}

theorem restored (h : CodesOf ops j) (hrestored : Restored j j') : CodesOf ops j' where
  queued := by
    rw [hrestored.newCode]
    exact h.queued
  given a c hlast := (h.given a c hlast).restored hrestored

/-- An operation that sets no code adds nothing. -/
theorem other (h : CodesOf ops j) {op : Operation} (hop : ∀ a c, op ≠ .setCode a c)
    (hnew : j'.newCode = j.newCode)
    (hhash : ∀ a hash, j.HasCodeHash a hash → j'.HasCodeHash a hash) :
    CodesOf (op :: ops) j' where
  queued hash := by
    rw [hnew, h.queued]
    constructor
    · rintro ⟨a, c, hmem, hrest⟩
      exact ⟨a, c, List.mem_cons_of_mem op hmem, hrest⟩
    · rintro ⟨a, c, hmem, hrest⟩
      rcases List.mem_cons.mp hmem with heq | hmem
      · exact absurd heq.symm (hop a c)
      · exact ⟨a, c, hmem, hrest⟩
  given a c hlast := by
    have hnone : op.codeFor? a = none := by
      cases op with
      | setCode a' c' => exact absurd rfl (hop a' c')
      | _ => rfl
    rw [lastCode?, List.findSome?_cons, hnone] at hlast
    exact hhash a _ (h.given a c hlast)

/-- Setting code puts it on the list, and gives the account its hash. -/
theorem setCode (h : CodesOf ops j) (a : Address) (c : Bytes) :
    CodesOf (.setCode a c :: ops) ((Operation.setCode a c).run j) := by
  obtain ⟨_, hnew, hself, hothers⟩ := setCodeHash_run a (codeHashOf c)
    (if c.isEmpty then j else endState (queueCode (keccak256 c) c j))
  have hrun := setCode_run a c j
  obtain ⟨_, hinsert, haccounts⟩ := queueCode_run (keccak256 c) c j
  rw [← hrun] at hnew hself hothers
  constructor
  · intro hash
    show hash ∈ (endState (Journal.setCode a c j)).newCode ↔ _
    rw [hnew]
    by_cases hempty : c.isEmpty
    · -- empty code is not on the list
      rw [if_pos hempty, h.queued]
      constructor
      · rintro ⟨a', c', hmem, hrest⟩
        exact ⟨a', c', List.mem_cons_of_mem _ hmem, hrest⟩
      · rintro ⟨a', c', hmem, hne, hrest⟩
        rcases List.mem_cons.mp hmem with heq | hmem
        · cases heq
          rw [hempty] at hne
          cases hne
        · exact ⟨a', c', hmem, hne, hrest⟩
    · rw [if_neg hempty, hinsert, Std.ExtTreeSet.mem_insert, h.queued]
      constructor
      · rintro (heq | ⟨a', c', hmem, hrest⟩)
        · exact ⟨a, c, List.mem_cons_self, Bool.eq_false_iff.mpr hempty,
            Std.LawfulEqOrd.eq_of_compare heq⟩
        · exact ⟨a', c', List.mem_cons_of_mem _ hmem, hrest⟩
      · rintro ⟨a', c', hmem, hne, hhash⟩
        rcases List.mem_cons.mp hmem with heq | hmem
        · cases heq
          rw [hhash]
          exact .inl Std.ReflOrd.compare_self
        · exact .inr ⟨a', c', hmem, hne, hhash⟩
  · intro a' c' hlast
    by_cases ha : a = a'
    · subst ha
      rw [lastCode?, List.findSome?_cons] at hlast
      simp only [Operation.codeFor?, if_pos] at hlast
      cases hlast
      exact hself
    · rw [lastCode?, List.findSome?_cons] at hlast
      simp only [Operation.codeFor?, if_neg ha] at hlast
      refine hothers a' _ ha ?_
      have hbefore := h.given a' c' hlast
      by_cases hempty : c.isEmpty
      · rwa [if_pos hempty]
      · rw [if_neg hempty]
        unfold HasCodeHash
        rwa [haccounts]

/-- **One operation.** -/
theorem operation (h : CodesOf ops j) (op : Operation) : CodesOf (op :: ops) (op.run j) := by
  have hplain : op.IsPlain → (∀ a c, op ≠ .setCode a c) →
      CodesOf (op :: ops) (op.run j) := by
    intro hplain hop
    have hchanges := op.run_plain hplain j
    have hnew : Part.newCode.Same j (op.run j) := by
      refine hchanges.same ?_
      intro e he hpart
      cases e <;> cases hpart
      exact he
    exact h.other hop hnew fun a hash hhash => hhash.changes hchanges fun _ _ hkeeps => hkeeps
  cases op with
  | setCode a c => exact h.setCode a c
  | code a =>
    have hreads : Edits Edit.IsRead (Journal.code a : JournalM Database _) :=
      code_edits trivial fun _ _ => trivial
    have hrestored := (hreads j).restored
    exact h.other nofun hrestored.newCode fun _ _ hhash => hhash.restored hrestored
  | markCreated a =>
    have hmarks : Changes (· = .created a) j (j.markCreated a) := markCreated_changes j rfl
    refine h.other nofun ?_ fun a' hash hhash => hhash.changes hmarks nofun
    refine hmarks.same (p := .newCode) ?_
    rintro e rfl
    nofun
  | _ => exact hplain trivial nofun

end CodesOf

/-! ## Along a script -/

/-- At every checkpoint of an open scope, and now, the state goes with the
    operations that were kept. -/
inductive Recorded :
    List Checkpoint → List (List Operation) → List Operation → Journal Database → Prop where
  | outermost {ops : List Operation} {j : Journal Database} : CodesOf ops j → Recorded [] [] ops j
  | inner {marks : List Checkpoint} {saved : List (List Operation)} {old ops : List Operation}
    {m j : Journal Database} :
    Recorded marks saved old m → RevertsTo m j → CodesOf ops j →
    Recorded (m.checkpoint :: marks) (old :: saved) ops j

namespace Recorded

variable {marks : List Checkpoint} {saved : List (List Operation)} {ops ops' : List Operation}
  {j j' : Journal Database}

theorem codesOf (h : Recorded marks saved ops j) : CodesOf ops j := by
  cases h with
  | outermost hcodes => exact hcodes
  | inner _ _ hcodes => exact hcodes

/-- Going on within the innermost scope. -/
theorem goOn (h : Recorded marks saved ops j) (hreverts : RevertsTo j j')
    (hcodes : CodesOf ops' j') : Recorded marks saved ops' j' := by
  cases h with
  | outermost _ => exact .outermost hcodes
  | inner hm hj _ => exact .inner hm (hj.trans hreverts) hcodes

/-- **One event.** -/
theorem event (h : Recorded marks saved ops j) (event : Event) :
    Recorded (event.run (j, marks)).2 (event.keep (ops, saved)).2
      (event.keep (ops, saved)).1 (event.run (j, marks)).1 := by
  cases event with
  | operation op => exact h.goOn (op.run_changes j).revertsTo (h.codesOf.operation op)
  | snapshot => exact .inner h (RevertsTo.refl j) h.codesOf
  | commit =>
    cases h with
    | outermost hcodes => exact .outermost hcodes
    | inner hm hj hcodes => exact hm.goOn hj hcodes
  | revert =>
    cases h with
    | outermost hcodes => exact .outermost hcodes
    | inner hm hj _ =>
      exact hm.goOn hj.restored.revertsTo (hm.codesOf.restored hj.restored)

theorem foldl (h : Recorded marks saved ops j) (events : List Event) :
    Recorded (events.foldl (fun state event => event.run state) (j, marks)).2
      (events.foldl (fun kept event => event.keep kept) (ops, saved)).2
      (events.foldl (fun kept event => event.keep kept) (ops, saved)).1
      (events.foldl (fun state event => event.run state) (j, marks)).1 := by
  induction events generalizing marks saved ops j with
  | nil => exact h
  | cons event events ih => exact ih (h.event event)

end Recorded

/-- **The codes to write after a script are those that were set and kept.** -/
theorem codesOf_script (db : Database) (events : List Event) :
    CodesOf (keptOperations events) (runScript (.ofBackend db) events) := by
  have hstart : CodesOf [] (.ofBackend db) := by
    constructor
    · intro hash
      constructor
      · intro hmem
        exact absurd hmem Std.ExtTreeSet.not_mem_empty
      · rintro ⟨_, _, hmem, _⟩
        cases hmem
    · rintro a c ⟨⟩
  exact ((Recorded.outermost hstart).foldl events).codesOf

/-- What each event keeps, in the light of those before it, holds after a
    script. -/
theorem runScript_invariant {β : Type} [Backend β] {P : List Event → Journal β → Prop}
    {b : Journal β} (hstart : P [] b)
    (hstep : ∀ done event j marks, P done j → P (done ++ [event]) (event.run (j, marks)).1)
    (events : List Event) : P events (runScript b events) := by
  have hfold : ∀ (rest done : List Event) (j : Journal β) (marks : List Checkpoint), P done j →
      P (done ++ rest) (rest.foldl (fun state event => event.run state) (j, marks)).1 := by
    intro rest
    induction rest with
    | nil =>
      intro done j marks h
      rwa [List.append_nil]
    | cons event rest ih =>
      intro done j marks h
      rw [List.append_cons]
      exact ih _ _ _ (hstep done event j marks h)
  exact hfold events [] b [] hstart

/-- Every operation keeps the caches linked to the database. -/
theorem Operation.run_linked {db : Database} {j : Journal Database} (h : Linked db j)
    (op : Operation)
    (hfresh : ∀ a, op = .markCreated a → ∀ key, db.storageValue ⟨a, key⟩ = 0) :
    Linked db (op.run j) := by
  have hplain : op.IsPlain → Linked db (op.run j) :=
    fun hplain => h.changes ((op.run_plain hplain j).mono fun _ he => he.fresh db)
  have hread : ∀ a, Edit.Fresh db (.readAccount a) := fun _ => trivial
  cases op with
  | code a => exact h.changes (code_edits (hread a) (fun _ _ => trivial) j)
  | setCode a c =>
    exact h.changes (setCode_edits (hread a) (fun _ => trivial) (fun _ => trivial)
      (fun _ _ => trivial) j)
  | markCreated a => exact h.changes (markCreated_changes j (hfresh a rfl))
  | _ => exact hplain trivial

/-- A script keeps the caches linked to the database it starts on, if no
    account that it creates has a slot there. -/
theorem linked_script {db : Database} {events : List Event}
    (hfresh : ∀ a, .operation (.markCreated a) ∈ events →
      ∀ key, db.storageValue ⟨a, key⟩ = 0) :
    Linked db (runScript (.ofBackend db) events) := by
  refine runScript_invariant (P := fun done j => (∀ a, .operation (.markCreated a) ∈ done →
    ∀ key, db.storageValue ⟨a, key⟩ = 0) → Linked db j)
    (fun _ => .start db) ?_ events hfresh
  intro done event j marks hbefore hfresh
  have h : Linked db j := hbefore fun a ha => hfresh a (List.mem_append_left _ ha)
  cases event with
  | operation op =>
    refine op.run_linked h ?_
    rintro a rfl
    exact hfresh a (List.mem_append_right done List.mem_cons_self)
  | snapshot => exact h
  | commit => exact h
  | revert =>
    cases marks with
    | nil => exact h
    | cons mark marks => exact h.revert mark

/-- The codes that a script sets do not collide, and none has the hash of no
    code. -/
def NoCollision (events : List Event) : Prop :=
  ∀ a c, .operation (.setCode a c) ∈ events → c.isEmpty = false →
    keccak256 c ≠ emptyCodeHash ∧
    ∀ a' c', .operation (.setCode a' c') ∈ events → c'.isEmpty = false →
      keccak256 c = keccak256 c' → c = c'

/-- A code that was set stays known, also where setting it was undone. -/
theorem known_script {db : Database} {events : List Event} (hcollision : NoCollision events)
    {a : Address} {c : Bytes} (hset : .operation (.setCode a c) ∈ events)
    (hc : c.isEmpty = false) :
    (runScript (.ofBackend db) events).codes[keccak256 c]? = some c := by
  refine runScript_invariant (P := fun done j => (∀ event ∈ done, event ∈ events) →
    ∀ a c, .operation (.setCode a c) ∈ done → c.isEmpty = false →
      j.codes[keccak256 c]? = some c) nofun ?_ events (fun _ => id) a c hset hc
  intro done event j marks hbefore hsub a c hset hc
  have hstill : .operation (.setCode a c) ∈ done → j.codes[keccak256 c]? = some c :=
    fun hmem => hbefore (fun e he => hsub e (List.mem_append_left _ he)) a c hmem hc
  have hnow : .operation (.setCode a c) ∈ done ∨ event = .operation (.setCode a c) := by
    rcases List.mem_append.mp hset with hmem | hmem
    · exact .inl hmem
    · exact .inr (List.mem_singleton.mp hmem).symm
  cases event with
  | operation op =>
    by_cases hcode : ∃ a' c', op = .setCode a' c'
    · obtain ⟨a', c', rfl⟩ := hcode
      show (endState (setCode a' c' j)).codes[keccak256 c]? = some c
      rw [setCode_run, (setCodeHash_run _ _ _).1]
      by_cases hempty : c'.isEmpty
      · rw [if_pos hempty]
        rcases hnow with hmem | heq
        · exact hstill hmem
        · cases heq
          rw [hempty] at hc
          cases hc
      · rw [if_neg hempty, (queueCode_run _ _ _).1]
        by_cases hhash : keccak256 c' = keccak256 c
        · -- the same hash is the hash of the same code
          have hmem' : Event.operation (.setCode a' c') ∈ events :=
            hsub _ (List.mem_append_right done List.mem_cons_self)
          obtain rfl : c' = c := (hcollision a' c' hmem' (Bool.eq_false_iff.mpr hempty)).2 a c
            (hsub _ hset) hc hhash
          exact Std.ExtTreeMap.getElem?_insert_self
        · rw [getElem?_insert_of_ne _ hhash]
          rcases hnow with hmem | heq
          · exact hstill hmem
          · cases heq
            exact absurd rfl hhash
    · have hmem : .operation (.setCode a c) ∈ done := by
        rcases hnow with hmem | heq
        · exact hmem
        · cases heq
          exact absurd ⟨a, c, rfl⟩ hcode
      exact op.run_codes (fun a' c' heq => hcode ⟨a', c', heq⟩) j (hstill hmem)
  | snapshot =>
    rcases hnow with hmem | ⟨⟨⟩⟩
    exact hstill hmem
  | commit =>
    rcases hnow with hmem | ⟨⟨⟩⟩
    exact hstill hmem
  | revert =>
    rcases hnow with hmem | ⟨⟨⟩⟩
    cases marks with
    | nil => exact hstill hmem
    | cons mark marks =>
      show (j.revert mark).codes[keccak256 c]? = some c
      rw [revert_codes]
      exact hstill hmem

end Journal

end Evm
