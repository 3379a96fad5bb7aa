import Evm.Proofs.Engine.AgreedRuns
import Evm.Proofs.Engine.Session
import Evm.Proofs.Journal.Coded

/-! # The cache of analyses does not show

    Jump analyses are cached by the hash of the code. Two engines that differ in
    this cache alone do the same, if every analysis in either of them is that of
    the code with its hash, and every code that a frame can get with a hash is
    that code too (`Journal.Knows`). Then a transaction has the same result and
    leaves the same state, whatever was cached before, and what is cached
    afterwards is again of the codes of the hashes (`Interchangeable.transact`).
-/

namespace Evm

open Journal

variable {β : Type} [Backend β] {known : Hash → Option Bytes}

/-! ## Codes by their hashes -/

namespace Journal

/-- The codes that a state knows and those that its store has are the codes of
    their hashes, in the sense of a function that says which code a hash is of.
    The hash of no code is never looked up. -/
structure Knows (known : Hash → Option Bytes) (j : Journal β) : Prop where
  cached : ∀ (hash : Hash) (c : Bytes), hash ≠ emptyCodeHash → j.codes[hash]? = some c →
    known hash = some c
  stored : ∀ (hash : Hash) (c : Bytes), hash ≠ emptyCodeHash →
    Backend.code? j.backend hash = .ok (some c) → known hash = some c

namespace Knows

variable {j j' : Journal β}

theorem congr (h : Knows known j) (hbackend : j'.backend = j.backend)
    (hcodes : j'.codes = j.codes) : Knows known j' where
  cached := hcodes ▸ h.cached
  stored := hbackend ▸ h.stored

theorem changes (h : Knows known j) (hchanges : Changes Edit.OfNoCode j j') : Knows known j' :=
  h.congr hchanges.backend (hchanges.same (p := .codes) fun _ he => he.1)

theorem revert (h : Knows known j) (c : Checkpoint) : Knows known (j.revert c) :=
  h.congr (revert_backend j c) (revert_codes j c)

/-- One more code becomes known. -/
theorem learn (h : Knows known j) (hash : Hash) (c : Bytes) (hbackend : j'.backend = j.backend)
    (hcodes : j'.codes = j.codes.insert hash c)
    (hc : hash ≠ emptyCodeHash → known hash = some c) : Knows known j' where
  cached hash' c' hne hfound := by
    rw [hcodes] at hfound
    rcases getElem?_insert_eq_some _ hfound with ⟨rfl, rfl⟩ | hbefore
    · exact hc hne
    · exact h.cached hash' c' hne hbefore
  stored := hbackend ▸ h.stored

/-- What reading a code finds is known as the code of its hash, unless it is
    empty. -/
theorem code (h : Knows known j) (a : Address) :
    Knows known (endState (Journal.code a j)) ∧
      ∀ found j', Journal.code a j = .ok found j' → found.1.isEmpty = false →
        known found.2 = some found.1 := by
  have hlooked := h.changes (NoCode.account a j)
  unfold Journal.code
  rw [bind_apply]
  cases haccount : Journal.account a j with
  | error e j1 =>
    rw [haccount] at hlooked
    exact ⟨hlooked, nofun⟩
  | ok account j1 =>
    rw [haccount] at hlooked
    simp only
    by_cases hnone : account.codeHash = emptyCodeHash ∨ account.codeHash.isZero = true
    · rw [if_pos hnone]
      refine ⟨hlooked, ?_⟩
      rintro found j' ⟨⟩ hcode
      cases hcode
    have hne : account.codeHash ≠ emptyCodeHash := fun heq => hnone (.inl heq)
    rw [if_neg hnone, bind_apply, get_apply]
    simp only
    cases hcached : j1.codes[account.codeHash]? with
    | some c =>
      refine ⟨hlooked, ?_⟩
      rintro found j' ⟨⟩ _
      exact hlooked.cached _ c hne hcached
    | none =>
      cases hstored : Backend.code? j1.backend account.codeHash with
      | error e => exact ⟨hlooked, nofun⟩
      | ok answer =>
        cases answer with
        | none => exact ⟨hlooked, nofun⟩
        | some c =>
          have hc := hlooked.stored _ c hne hstored
          refine ⟨hlooked.learn account.codeHash c rfl rfl fun _ => hc, ?_⟩
          rintro found j' ⟨⟩ _
          exact hc

/-- Setting a code that is the one of its hash. -/
theorem setCode (h : Knows known j) (a : Address) {c : Bytes}
    (hknown : c.isEmpty = false → known (keccak256 c) = some c) :
    Knows known (endState (Journal.setCode a c j)) := by
  have hset : ∀ (hash : Hash) (k : Journal β), Knows known k →
      Knows known (endState (setCodeHash a hash k)) :=
    fun hash k hk => hk.changes (NoCode.setCodeHash a hash k)
  rw [setCode_run]
  by_cases hempty : c.isEmpty
  · rw [if_pos hempty]
    exact hset _ j h
  rw [if_neg hempty]
  have hqueue : Edits Edit.Any (queueCode (keccak256 c) c : JournalM β Unit) :=
    queueCode_edits trivial trivial
  exact hset _ _ (h.learn _ _ (hqueue j).backend (queueCode_run (keccak256 c) c j).1
    fun _ => hknown (Bool.eq_false_iff.mpr hempty))

end Knows

end Journal

namespace Engine

variable {α : Type} {e f : Engine β}

/-! ## Engines with other caches -/

/-- Two engines that differ only in what analyses they have cached, all of them
    of the codes that their hashes are of. -/
structure Recached (known : Hash → Option Bytes) (e f : Engine β) : Prop where
  journal : e.journal = f.journal
  env : e.env = f.env
  config : e.config = f.config
  precompiles : e.precompiles = f.precompiles
  left : e.codeCache.Analyzes known
  right : f.codeCache.Analyzes known

/-- Two such engines that know codes by their hashes. -/
structure Interchangeable (known : Hash → Option Bytes) (e f : Engine β) : Prop
    extends Recached known e f where
  knows : Knows known e.journal

/-- An operation after which codes are still those of their hashes. -/
def KeepsKnown (known : Hash → Option Bytes) (op : JournalM β α) : Prop :=
  ∀ j, Knows known j → Knows known (endState (op j))

namespace KeepsKnown

/-- An operation that is of no code. -/
theorem of_edits {op : JournalM β α} (h : Edits Edit.OfNoCode op) : KeepsKnown known op :=
  fun j hj => hj.changes (h j)

/-- On interchangeable engines such an operation does the same. -/
theorem tied {op : JournalM β α} (h : KeepsKnown known op) :
    Tied (Interchangeable known) op op := by
  intro e f hsame
  have hkept := h _ hsame.knows
  rw [← hsame.journal]
  cases hop : op e.journal with
  | ok a j =>
    rw [hop] at hkept
    exact .ok a { hsame with journal := rfl, knows := hkept }
  | error err j =>
    rw [hop] at hkept
    exact .error err { hsame with journal := rfl, knows := hkept }

end KeepsKnown

namespace Interchangeable

/-- A change of the state that keeps the codes those of their hashes. -/
theorem marks {mark : Journal β → Journal β} (h : ∀ j, Knows known j → Knows known (mark j)) :
    Marks (Interchangeable known) mark mark :=
  fun _ _ hsame =>
    { hsame with journal := congrArg mark hsame.journal, knows := h _ hsame.knows }

/-- Such a change that is made of edits. -/
theorem marks_of_changes {mark : Journal β → Journal β}
    (h : ∀ j, Changes Edit.OfNoCode j (mark j)) : Marks (Interchangeable known) mark mark :=
  marks fun j hj => hj.changes (h j)

theorem scheduleDeletion (a : Address) :
    Lockstep (Interchangeable known) (scheduleDeletion a : HostM (Engine β) Unit)
      (scheduleDeletion a) := by
  unfold Engine.scheduleDeletion
  refine .get_bind fun e f h => ?_
  rw [h.config, h.journal]
  refine Lockstep.ite ?_ (.pure _) e f h
  refine (KeepsKnown.of_edits (NoCode.setBalance a 0)).tied.onState.bind fun _ => .modify ?_
  exact marks_of_changes fun j => markDestroyed_changes j ⟨nofun, nofun⟩

/-- The analysis of a code is that of the code, whatever is cached. -/
theorem analyze {hash : Hash} {c : Bytes} (hc : known hash = some c) :
    Parallel (Interchangeable known) (fun _ => True)
      (Engine.analyze hash c : StateM (Engine β) JumpDests) (Engine.analyze hash c) := by
  intro e f h
  obtain ⟨he, hleft⟩ := h.left.getOrAnalyze hc
  obtain ⟨hf, hright⟩ := h.right.getOrAnalyze hc
  exact ⟨he.trans hf.symm, { h with left := hleft, right := hright }, trivial⟩

/-- **Interchangeable engines do the same.** -/
theorem agree :
    EnginesAgree (Interchangeable known : Engine β → Engine β → Prop)
      (fun hash c => known hash = some c) fun _ => True where
  env _ _ h := h.env
  config _ _ h := h.config
  precompiles _ _ h := h.precompiles
  checkpoint _ _ h := congrArg Journal.checkpoint h.journal
  isDestroyed a _ _ h := congrArg (·.isDestroyed a) h.journal
  tload s _ _ h := congrArg (·.tload s) h.journal
  isCold a _ _ h := congrArg (fun j => (j.warmAddress a).1) h.journal
  isColdSlot s _ _ h := congrArg (fun j => (j.warmSlot s).1) h.journal
  warmAddress _ := marks_of_changes fun j => warmAddress_changes j ⟨nofun, nofun⟩
  warmSlot _ := marks_of_changes fun j => warmSlot_changes j ⟨nofun, nofun⟩
  tstore _ _ := marks_of_changes fun j => tstore_changes j ⟨nofun, nofun⟩
  addLog _ := marks_of_changes fun j => addLog_changes j ⟨nofun, nofun⟩
  revert c := marks fun _ hj => hj.revert c
  markCreated _ _ := marks_of_changes fun j => markCreated_changes j ⟨nofun, nofun⟩
  account a := (KeepsKnown.of_edits (NoCode.account a)).tied
  isEmpty a := (KeepsKnown.of_edits (NoCode.isEmpty a)).tied
  balance a := (KeepsKnown.of_edits (NoCode.balance a)).tied
  code a := KeepsKnown.tied fun _ hj => (hj.code a).1
  blockHash n := (KeepsKnown.of_edits (NoCode.blockHash n)).tied
  storage s := (KeepsKnown.of_edits (NoCode.storage s)).tied
  slot s := (KeepsKnown.of_edits (NoCode.slot s)).tied
  setStorage s value := (KeepsKnown.of_edits (NoCode.setStorage s value)).tied
  transfer a b amount := (KeepsKnown.of_edits (NoCode.transfer a b amount)).tied
  incrementNonce a := (KeepsKnown.of_edits (NoCode.incrementNonce a)).tied
  endow _ a := (KeepsKnown.of_edits
    ((NoCode.setNonce a 1).bind fun _ => NoCode.transfer _ _ _)).tied
  setCode a _ _ hknown := KeepsKnown.tied fun _ hj => hj.setCode a hknown
  scheduleDeletion := scheduleDeletion
  analyze _ _ hc := Interchangeable.analyze hc
  knownCode a _ _ found j h := (h.knows.code a).2 found j
  untaken _ _ _ _ _ _ _ _ := trivial

/-! ## Transactions -/

omit [Backend β] in
theorem discard (h : Recached known e f) : Recached known (discard e).2 (discard f).2 :=
  { h with journal := congrArg (fun j => j.discard.2) h.journal }

/-- The outcome of a transaction is settled in the same way. -/
theorem finish (h : Recached known e f) (gasLimit : Nat) (frame : FrameResult) :
    (finish gasLimit frame e).1 = (finish gasLimit frame f).1 ∧
      Recached known (finish gasLimit frame e).2 (finish gasLimit frame f).2 := by
  unfold Engine.finish
  rw [state_get_bind_apply, state_get_bind_apply, h.config]
  cases frame.isSuccess with
  | false => exact ⟨rfl, discard h⟩
  | true =>
    have hsettle : Journal.settle e.journal = Journal.settle f.journal :=
      congrArg Journal.settle h.journal
    simp only [reduceIte, state_bind_apply]
    cases hj : Journal.settle f.journal with
    | ok logs j =>
      rw [attempt_ok hj, attempt_ok (hsettle.trans hj)]
      exact ⟨rfl, { h with journal := rfl }⟩
    | error cause j =>
      rw [attempt_error hj, attempt_error (hsettle.trans hj)]
      exact ⟨rfl, discard { h with journal := rfl }⟩

/-- **A transaction does the same whatever is cached**: it has the same result
    and leaves the same state, and all that is cached is still right. -/
theorem transact {tx : Transaction} (h : Interchangeable known e f)
    (hvouched : Vouches known (deployments tx e)) :
    (transact tx e).1 = (transact tx f).1 ∧ Recached known (transact tx e).2 (transact tx f).2 := by
  obtain ⟨hsame, hprepared, _⟩ := agree.prepare tx e f h
  unfold deployments at hvouched
  rw [transact_eq, transact_eq, ← h.config]
  by_cases hgas : tx.gasLimit < intrinsicGas e.config tx
  · rw [if_pos hgas, if_pos hgas]
    exact ⟨rfl, h.toRecached⟩
  rw [if_neg hgas, if_neg hgas]
  rw [if_neg hgas] at hvouched
  generalize prepare tx e = prepared, prepare tx f = prepared' at hsame hprepared hvouched
  obtain ⟨answer, e'⟩ := prepared
  obtain ⟨answer', f'⟩ := prepared'
  obtain rfl : answer = answer' := hsame
  cases answer with
  | error err => exact ⟨rfl, discard hprepared.toRecached⟩
  | ok u =>
    obtain ⟨hran, hengines⟩ := agree.perform hprepared hvouched
    simp only
    rw [← hran]
    exact finish hengines.toRecached _ _

end Interchangeable

end Engine

end Evm
