import Evm.Proofs.Engine.AgreedRuns
import Evm.Proofs.Journal.Synced

/-! # Engines that cannot be told apart

    Two engines over databases that read alike are twins if they are set up in
    the same way and their states are alike; they may have cached different
    things, jump analyses among them. Over an orderly database twins do the same
    and stay twins (`Twins.agree`), as long as the codes which are deployed are
    those of their hashes.
-/

namespace Evm

open Journal

namespace Engine

variable {α : Type} {known : Hash → Option Bytes} {db db' : Database} {e f : Engine Database}

/-! ## Twins -/

/-- What an engine has cached of codes is of the codes that their hashes are
    of. -/
structure Versed (known : Hash → Option Bytes) (e : Engine Database) : Prop where
  coded : Coded known e.journal
  analyzes : e.codeCache.Analyzes known

/-- Two engines that cannot be told apart. -/
structure Twins (known : Hash → Option Bytes) (db db' : Database) (e f : Engine Database) :
    Prop where
  journals : Alike db db' e.journal f.journal
  env : e.env = f.env
  config : e.config = f.config
  precompiles : e.precompiles = f.precompiles
  left : Versed known e
  right : Versed known f

namespace Twins

/-- The states of both engines are changed. -/
theorem withJournals (h : Twins known db db' e f) {j k : Journal Database}
    (hjournals : Alike db db' j k) (hj : Coded known j) (hk : Coded known k) :
    Twins known db db' { e with journal := j } { f with journal := k } where
  journals := hjournals
  env := h.env
  config := h.config
  precompiles := h.precompiles
  left := ⟨hj, h.left.analyzes⟩
  right := ⟨hk, h.right.analyzes⟩

theorem checkpoint (h : Twins known db db' e f) : e.journal.checkpoint = f.journal.checkpoint :=
  congrArg (fun v : View => (⟨v.entries.length⟩ : Checkpoint)) h.journals.view

end Twins

/-! ## Operations of the state -/

/-- An operation of the state that works alike on states that are alike, and
    keeps the codes those of their hashes. -/
structure Steady (known : Hash → Option Bytes) (db db' : Database) (op : JournalM Database α) :
    Prop where
  alike : Lockstep (Alike db db') op op
  coded : ∀ db j, Upright db j → Coded known j → Coded known (endState (op j))

namespace Steady

/-- An operation that is of no code. -/
theorem of_edits {op : JournalM Database α} (halike : Lockstep (Alike db db') op op)
    (hedits : Edits Edit.OfNoCode op) : Steady known db db' op :=
  ⟨halike, fun _ j _ hcoded => hcoded.changes (hedits j)⟩

theorem account (a : Address) : Steady known db db' (Journal.account a) :=
  of_edits (Alike.account a) (NoCode.account a)

theorem isEmpty (a : Address) : Steady known db db' (Journal.isEmpty a) :=
  of_edits (Alike.isEmpty a) (NoCode.isEmpty a)

theorem balance (a : Address) : Steady known db db' (Journal.balance a) :=
  of_edits (Alike.balance a) (NoCode.balance a)

theorem code (a : Address) : Steady known db db' (Journal.code a) :=
  ⟨Alike.code a, fun _ _ hup hcoded => hcoded.code hup a⟩

theorem blockHash (number : Nat) : Steady known db db' (Journal.blockHash number) :=
  of_edits (Alike.blockHash number) (NoCode.blockHash number)

theorem storage (s : Slot) : Steady known db db' (Journal.storage s) :=
  of_edits (Alike.storage s) (NoCode.storage s)

theorem slot (s : Slot) : Steady known db db' (Journal.slot s) :=
  of_edits (Alike.loadSlot s) (NoCode.slot s)

theorem setStorage (s : Slot) (value : Word) :
    Steady known db db' (Journal.setStorage s value) :=
  of_edits (Alike.setStorage s value) (NoCode.setStorage s value)

theorem setBalance (a : Address) (balance : Word) :
    Steady known db db' (Journal.setBalance a balance) :=
  of_edits (Alike.setBalance a balance) (NoCode.setBalance a balance)

theorem transfer (source target : Address) (amount : Word) :
    Steady known db db' (Journal.transfer source target amount) :=
  of_edits (Alike.transfer source target amount) (NoCode.transfer source target amount)

theorem incrementNonce (a : Address) : Steady known db db' (Journal.incrementNonce a) :=
  of_edits (Alike.incrementNonce a) (NoCode.incrementNonce a)

theorem endow (message : CreateMessage) (a : Address) :
    Steady known db db' (Engine.endow message a) :=
  of_edits ((Alike.setNonce a Nat.one_ne_zero).bind fun _ => Alike.transfer _ _ _)
    ((NoCode.setNonce a 1).bind fun _ => NoCode.transfer _ _ _)

/-- Code may be given to an account that is not taken in the database, if it is
    the one of its hash. -/
theorem setCode {a : Address} {c : Bytes} (hfree : ¬Taken db.accounts[a]?)
    (hknown : c.isEmpty = false → known (keccak256 c) = some c) :
    Steady known db db' (Journal.setCode a c) :=
  ⟨Alike.setCode c hfree, fun _ _ _ hcoded => hcoded.setCode a hknown⟩

/-- On twins the operation cannot be told apart. -/
theorem tied {op : JournalM Database α} (h : Steady known db db' op) :
    Tied (Twins known db db') op op := by
  intro e f htwins
  have hop := h.alike _ _ htwins.journals
  have hj := h.coded _ _ htwins.journals.left htwins.left.coded
  have hk := h.coded _ _ htwins.journals.right htwins.right.coded
  generalize op e.journal = result, op f.journal = result' at hop hj hk
  cases hop with
  | ok a hleft => exact .ok a (htwins.withJournals hleft hj hk)
  | error err hleft => exact .error err (htwins.withJournals hleft hj hk)

end Steady

/-! ## Marks -/

namespace Twins

/-- A mark that is of no code. -/
theorem mark (h : Twins known db db' e f) {m : Journal Database → Journal Database}
    (halike : Alike db db' (m e.journal) (m f.journal))
    (hedits : ∀ j, Changes Edit.OfNoCode j (m j)) :
    Twins known db db' (modifyState m e) (modifyState m f) :=
  h.withJournals halike (h.left.coded.changes (hedits _)) (h.right.coded.changes (hedits _))

/-- An account whose balance was set is cached. -/
theorem setBalance_cached {a : Address} {balance : Word} {u : Unit} {j j' : Journal Database}
    (h : Journal.setBalance a balance j = .ok u j') : (j'.accounts[a]?).isSome := by
  have hmodified := modifyAccount_spec a (fun account => .ok { account with balance }) j
  unfold Journal.setBalance at h
  rw [h] at hmodified
  cases hmodified with
  | written _ _ happ =>
    cases happ with
    | account new _ => simp [Journal.note]

/-- Having an account deleted: once its balance was set it is cached on both
    sides. -/
theorem scheduleDeletion (address : Address) :
    Lockstep (Twins known db db') (scheduleDeletion address : HostM (Engine Database) Unit)
      (scheduleDeletion address) := by
  unfold Engine.scheduleDeletion
  refine .get_bind fun e f h => ?_
  have hcreated : e.journal.isCreated address = f.journal.isCreated address :=
    congrArg (fun v : View => v.created.contains address) h.journals.view
  rw [h.config, hcreated]
  refine Lockstep.ite ?_ (.pure _) e f h
  intro e f h
  refine ((Steady.setBalance address 0).tied.onState e f h).bind fun _ e' f' hj hk h' => ?_
  have hcached : ∀ {e e' : Engine Database} {u : Unit},
      onState (Journal.setBalance address 0) e = .ok u e' →
      (e'.journal.accounts[address]?).isSome := by
    intro e e' u hset
    unfold onState at hset
    split at hset
    · next hok =>
      cases hset
      exact setBalance_cached hok
    · cases hset
  exact .ok _ (h'.mark (m := (·.markDestroyed address))
    (h'.journals.markDestroyed (hcached hj) (hcached hk)) fun j =>
      markDestroyed_changes j ⟨nofun, nofun⟩)

/-- Reverting leaves twins twins. -/
theorem revert (c : Checkpoint) : Marks (Twins known db db') (·.revert c) (·.revert c) :=
  fun _ _ h => h.withJournals (h.journals.revert c) (h.left.coded.revert c)
    (h.right.coded.revert c)

/-- An account is marked as created at an address that is not taken in the
    database: where there is no account there are no slots either. -/
theorem markCreated (horderly : db.Orderly) {a : Address} (hfree : ¬Taken db.accounts[a]?) :
    Marks (Twins known db db') (·.markCreated a) (·.markCreated a) := by
  have hzero : ∀ key, db.storageValue ⟨a, key⟩ = 0 := by
    intro key
    apply Decidable.byContradiction
    exact fun hne => hfree (horderly.housed ⟨a, key⟩ hne)
  exact fun e f h => h.mark (h.journals.markCreated hzero) fun j =>
    markCreated_changes j ⟨nofun, nofun⟩

/-! ## Codes and accounts that are read -/

/-- What is read as code is the code that its hash is of, unless it is empty. -/
theorem knownCode (h : Twins known db db' e f) {a : Address} {found : Bytes × Hash}
    {j : Journal Database} (hread : Journal.code a e.journal = .ok found j)
    (hcode : found.1.isEmpty = false) : known found.2 = some found.1 := by
  obtain ⟨j', hrun, _⟩ := code_run h.journals.left a
  have hseen : e.journal.codeSeen a = .ok found := by
    rw [hrun] at hread
    cases hfound : e.journal.codeSeen a with
    | ok found' =>
      rw [hfound] at hread
      cases hread
      rfl
    | error err =>
      rw [hfound] at hread
      cases hread
  unfold codeSeen at hseen
  simp only at hseen
  split at hseen
  · cases hseen
    cases hcode
  · split at hseen
    · next hknown =>
      cases hseen
      exact h.left.coded.knownCode hknown
    · cases hseen

/-- An account that is seen not to be taken is not taken in the database
    either. -/
theorem untaken (h : Twins known db db' e f) {a : Address} {account : Account}
    {j : Journal Database} (hread : Journal.account a e.journal = .ok account j)
    (hfree : isTaken account = false) : ¬Taken db.accounts[a]? := by
  intro htaken
  obtain ⟨j', hload, _⟩ := loadAccount_run h.journals.left a
  have hseen : Journal.account a e.journal =
      .ok ((e.journal.view.accounts a).getD .empty) j' := by
    unfold Journal.account
    rw [bind_apply, hload]
    rfl
  rw [hseen] at hread
  cases hread
  rw [(isTaken_iff _).mpr (h.journals.left.stands a htaken)] at hfree
  cases hfree

/-- The analysis of a code. -/
theorem analyze {hash : Hash} {c : Bytes} (hc : known hash = some c) :
    Parallel (Twins known db db') (fun _ => True) (analyze hash c) (analyze hash c) := by
  intro e f h
  obtain ⟨he, hleft⟩ := h.left.analyzes.getOrAnalyze hc
  obtain ⟨hf, hright⟩ := h.right.analyzes.getOrAnalyze hc
  refine ⟨he.trans hf.symm, ?_, trivial⟩
  exact { h with left := ⟨h.left.coded, hleft⟩, right := ⟨h.right.coded, hright⟩ }

/-- **Twins do the same** over an orderly database. -/
theorem agree (horderly : db.Orderly) :
    EnginesAgree (Twins known db db') (fun hash c => known hash = some c)
      fun a => ¬Taken db.accounts[a]? where
  env _ _ h := h.env
  config _ _ h := h.config
  precompiles _ _ h := h.precompiles
  checkpoint _ _ h := h.checkpoint
  isDestroyed a _ _ h := congrArg (fun v : View => v.destroyed.contains a) h.journals.view
  tload s _ _ h := h.journals.tload s
  isCold a _ _ h := (h.journals.warmAddress a).1
  isColdSlot s _ _ h := (h.journals.warmSlot s).1
  warmAddress a _ _ h := h.mark (h.journals.warmAddress a).2 fun j =>
    warmAddress_changes j ⟨nofun, nofun⟩
  warmSlot s _ _ h := h.mark (h.journals.warmSlot s).2 fun j => warmSlot_changes j ⟨nofun, nofun⟩
  tstore s value _ _ h := h.mark (h.journals.tstore s value) fun j =>
    tstore_changes j ⟨nofun, nofun⟩
  addLog entry _ _ h := h.mark (h.journals.addLog entry) fun j => addLog_changes j ⟨nofun, nofun⟩
  revert := revert
  markCreated _ := markCreated horderly
  account a := (Steady.account a).tied
  isEmpty a := (Steady.isEmpty a).tied
  balance a := (Steady.balance a).tied
  code a := (Steady.code a).tied
  blockHash n := (Steady.blockHash n).tied
  storage s := (Steady.storage s).tied
  slot s := (Steady.slot s).tied
  setStorage s value := (Steady.setStorage s value).tied
  transfer a b amount := (Steady.transfer a b amount).tied
  incrementNonce a := (Steady.incrementNonce a).tied
  endow message a := (Steady.endow message a).tied
  setCode _ _ hfree hknown := (Steady.setCode hfree hknown).tied
  scheduleDeletion := scheduleDeletion
  analyze _ _ := analyze
  knownCode _ _ _ _ _ h := h.knownCode
  untaken _ _ _ _ _ h := h.untaken

end Twins

end Engine

end Evm
