import Evm.Proofs.Journal.Alike
import Evm.Proofs.Journal.Codes

/-! # Codes that are those of their hashes

    Codes stay in the cache of a state when the transaction that set them is
    undone, so two states can only know the same codes if a hash is never that
    of two codes. A function that says which code a hash is of stands for this
    here (`Coded`): every code that is known to a state is the one that the
    function says. That is kept by all operations, if the function says it of
    the codes that are set.
-/

namespace Evm

/-- An edit that is of no code. -/
def Edit.OfNoCode (e : Edit) : Prop := e.part ≠ .codes ∧ e.part ≠ .newCode

namespace Journal

/-! ## Operations that are of no code -/

namespace NoCode

variable {β : Type} [Backend β]

theorem account (a : Address) : Edits Edit.OfNoCode (Journal.account a : JournalM β Account) :=
  account_edits ⟨nofun, nofun⟩

theorem isEmpty (a : Address) : Edits Edit.OfNoCode (Journal.isEmpty a : JournalM β Bool) :=
  isEmpty_edits ⟨nofun, nofun⟩

theorem balance (a : Address) : Edits Edit.OfNoCode (Journal.balance a : JournalM β Word) :=
  balance_edits ⟨nofun, nofun⟩

theorem blockHash (n : Nat) : Edits Edit.OfNoCode (Journal.blockHash n : JournalM β Hash) :=
  blockHash_edits n

theorem storage (s : Slot) : Edits Edit.OfNoCode (Journal.storage s : JournalM β Word) :=
  storage_edits ⟨nofun, nofun⟩

theorem slot (s : Slot) : Edits Edit.OfNoCode (Journal.slot s : JournalM β SlotValue) :=
  slot_edits ⟨nofun, nofun⟩

theorem setStorage (s : Slot) (value : Word) :
    Edits Edit.OfNoCode (Journal.setStorage s value : JournalM β Word) :=
  setStorage_edits ⟨nofun, nofun⟩ ⟨nofun, nofun⟩

theorem setBalance (a : Address) (balance : Word) :
    Edits Edit.OfNoCode (Journal.setBalance a balance : JournalM β Unit) :=
  setBalance_edits ⟨nofun, nofun⟩ fun _ => ⟨nofun, nofun⟩

theorem setCodeHash (a : Address) (hash : Hash) :
    Edits Edit.OfNoCode (Journal.setCodeHash a hash : JournalM β Unit) :=
  setCodeHash_edits ⟨nofun, nofun⟩ fun _ => ⟨nofun, nofun⟩

theorem transfer (source target : Address) (amount : Word) :
    Edits Edit.OfNoCode (Journal.transfer source target amount : JournalM β Unit) :=
  transfer_edits (fun _ => ⟨nofun, nofun⟩) (fun _ _ _ _ _ => ⟨nofun, nofun⟩)
    fun _ _ _ _ _ => ⟨nofun, nofun⟩

theorem incrementNonce (a : Address) :
    Edits Edit.OfNoCode (Journal.incrementNonce a : JournalM β Nat) :=
  incrementNonce_edits ⟨nofun, nofun⟩ fun _ _ => ⟨nofun, nofun⟩

theorem setNonce (a : Address) (nonce : Nat) :
    Edits Edit.OfNoCode (Journal.setNonce a nonce : JournalM β Unit) :=
  setNonce_edits ⟨nofun, nofun⟩ fun _ => ⟨nofun, nofun⟩

end NoCode

/-! ## Codes that are known -/

variable {db : Database} {j j' : Journal Database} {known : Hash → Option Bytes}

/-- The codes that are known to a state are those of their hashes, in the sense
    of a function that says which code a hash is of. -/
structure Coded (known : Hash → Option Bytes) (j : Journal Database) : Prop where
  cached : ∀ (hash : Hash) (c : Bytes), j.codes[hash]? = some c → known hash = some c
  stored : ∀ (hash : Hash) (c : Bytes), j.backend.code? hash = some c → known hash = some c
  queued : emptyCodeHash ∉ j.newCode

namespace Coded

theorem start (h : ∀ hash c, db.code? hash = some c → known hash = some c) :
    Coded known (.ofBackend db) where
  cached hash c hc := by cases hc
  stored := h
  queued := Std.ExtTreeSet.not_mem_empty

theorem knownCode (h : Coded known j) {hash : Hash} {c : Bytes}
    (hc : j.knownCode hash = some c) : known hash = some c := by
  unfold Journal.knownCode at hc
  rcases Option.or_eq_some_iff.mp hc with hcached | ⟨_, hstored⟩
  · exact h.cached hash c hcached
  · exact h.stored hash c hstored

/-- No other code is known under the hash of no code. -/
theorem empty (h : Coded known j) : known emptyCodeHash = some ByteArray.empty :=
  h.stored _ _ (if_pos rfl)

/-- A code with a known hash is not empty just if its hash is not that of no
    code. -/
theorem keccak_ne_empty (h : Coded known j) {c : Bytes} (hc : c.isEmpty = false)
    (hknown : known (keccak256 c) = some c) : keccak256 c ≠ emptyCodeHash := by
  intro heq
  rw [heq, h.empty] at hknown
  cases hknown
  cases hc

/-! ## Edits -/

theorem congr (h : Coded known j) (hbackend : j'.backend = j.backend) (hcodes : j'.codes = j.codes)
    (hnew : j'.newCode = j.newCode) : Coded known j' where
  cached := hcodes ▸ h.cached
  stored := hbackend ▸ h.stored
  queued := hnew ▸ h.queued

theorem changes (h : Coded known j) (hchanges : Changes Edit.OfNoCode j j') : Coded known j' :=
  h.congr hchanges.backend (hchanges.same (p := .codes) fun _ he => he.1)
    (hchanges.same (p := .newCode) fun _ he => he.2)

/-- A read that leaves the same codes known. -/
theorem reads (h : Coded known j) (hbackend : j'.backend = j.backend) (hsame : SameSight db j j') :
    Coded known j' where
  cached hash c hc := by
    refine h.knownCode ((hsame.known hash).symm.trans ?_)
    unfold Journal.knownCode
    rw [hc, Option.some_or]
  stored := hbackend ▸ h.stored
  queued := by
    have hnew : j'.newCode = j.newCode := congrArg View.newCode hsame.view
    rw [hnew]
    exact h.queued

theorem revert (h : Coded known j) (c : Checkpoint) : Coded known (j.revert c) := by
  refine ⟨?_, ?_, ?_⟩
  · rw [revert_codes]
    exact h.cached
  · rw [revert_backend]
    exact h.stored
  · -- undoing takes codes off the list only
    have hundone : ∀ (n : Nat) (k : Journal Database), emptyCodeHash ∉ k.newCode →
        emptyCodeHash ∉ (undoNewest n k).newCode := by
      intro n
      induction n with
      | zero => exact fun k hk => hk
      | succ n ih =>
        intro k hk
        unfold undoNewest
        cases k.entries with
        | nil => exact hk
        | cons entry rest =>
          refine ih _ ?_
          cases entry with
          | code hash => exact fun hmem => hk (Std.ExtTreeSet.mem_of_mem_erase hmem)
          | account a previous => simp only [Journal.undo]; split <;> exact hk
          | storage s previous => simp only [Journal.undo]; split <;> exact hk
          | _ => exact hk
    exact hundone _ j h.queued

/-! ## Operations -/

theorem code (h : Coded known j) (hup : Upright db j) (a : Address) :
    Coded known (endState (code a j)) := by
  obtain ⟨j', hrun, hsame⟩ := code_run hup a
  have hend : endState (Journal.code a j) = j' := by
    rw [hrun]
    cases j.codeSeen a <;> rfl
  rw [hend]
  exact h.reads (hsame.upright.backend.trans hup.backend.symm) hsame

/-- Setting a code that is the one of its hash. -/
theorem setCode (h : Coded known j) (a : Address) {c : Bytes}
    (hknown : c.isEmpty = false → known (keccak256 c) = some c) :
    Coded known (endState (setCode a c j)) := by
  have hset : ∀ (hash : Hash) (k : Journal Database), Coded known k →
      Coded known (endState (setCodeHash a hash k)) :=
    fun hash k hk => hk.changes (NoCode.setCodeHash a hash k)
  rw [setCode_run]
  by_cases hempty : c.isEmpty
  · rw [if_pos hempty]
    exact hset _ j h
  rw [if_neg hempty]
  have hc := Bool.eq_false_iff.mpr hempty
  obtain ⟨hcodes, hnew, _⟩ := queueCode_run (keccak256 c) c j
  have hbackend : (endState (queueCode (keccak256 c) c j)).backend = j.backend := by
    have hqueue : Edits Edit.Any (queueCode (keccak256 c) c : JournalM Database Unit) :=
      queueCode_edits trivial trivial
    exact (hqueue j).backend
  refine hset _ _ ⟨?_, ?_, ?_⟩
  · intro hash c' hc'
    rw [hcodes] at hc'
    rcases getElem?_insert_eq_some _ hc' with ⟨rfl, rfl⟩ | hbefore
    · exact hknown hc
    · exact h.cached hash c' hbefore
  · rw [hbackend]
    exact h.stored
  · rw [hnew, Std.ExtTreeSet.mem_insert]
    rintro (heq | hmem)
    · exact h.keccak_ne_empty hc (hknown hc) (Std.LawfulEqOrd.eq_of_compare heq)
    · exact h.queued hmem

end Coded

end Journal

end Evm
