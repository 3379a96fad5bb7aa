import Evm.Proofs.Journal.Aftermath

/-! # Looking does not show

    What happens to the replies of a program and to the database if somebody
    looks at accounts and slots in between. Three kinds of steps can tell that
    it happened (`looking_may_show`): an account is created that has slots in the
    database, an account is deleted that was not loaded, and an account with
    slots goes because it was left empty.

    A program that does none of this to the accounts and slots that are looked
    at is blind to it (`Blind`), and then the looks do not show
    (`looking_does_not_show`). The proof runs the session beside its program: a
    step gives the same reply in both and keeps the session ahead, and so does a
    look, to which nothing corresponds in the program.
-/

namespace Evm.Journal

variable {A : Address → Prop} {S : Slot → Prop} {j j' k : Journal Database}

/-! ## Steps that cannot tell -/

/-- A step that does not tell whether somebody looked at accounts out of `A` and
    slots out of `S`: it creates no account with such a slot, and it settles
    nothing that is not the same in the database and in a cache. -/
def Step.Blind (A : Address → Prop) (S : Slot → Prop) (j : Journal Database) : Step → Prop
  | .operation (.markCreated a) => ∀ s : Slot, S s → s.address = a → j.slots[s]? = none →
    j.backend.storageValue s = 0
  | .settle => Ahead.Indifferent A S j
  | _ => True

/-- A program whose steps, each where it comes, do not tell. -/
def Blind (A : Address → Prop) (S : Slot → Prop) : List Step → Journal Database → Prop
  | [], _ => True
  | step :: steps, j => step.Blind A S j ∧ Blind A S steps (endState (step.perform j))

/-! ## The invariant of the program -/

/-- Accounts are cached as they were loaded, and what the journal speaks of is
    cached. -/
structure Grounded (j : Journal Database) : Prop where
  accurate : j.Accurate
  covers : ∀ entry ∈ j.entries, j.Covers entry

namespace Grounded

theorem start (db : Database) : Grounded (.ofBackend db) where
  accurate a cached h := by cases h
  covers entry h := by cases h

theorem changes (h : Grounded j) (hchanges : Changes Edit.Any j j') : Grounded j' where
  accurate := accurate_kept.changes hchanges h.accurate
  covers := by
    have hreverts := hchanges.revertsTo
    -- an entry is new, or it was there before
    have hold : j'.entries.drop (j'.entries.length - j.entries.length) = j.entries := by
      rw [← undoNewest_entries]
      exact hreverts.restored.entries
    intro entry hentry
    rw [← List.take_append_drop (j'.entries.length - j.entries.length) j'.entries, hold,
      List.mem_append] at hentry
    rcases hentry with hnew | hbefore
    · exact hreverts.covered entry hnew
    · exact hreverts.covers (h.covers entry hbefore)

theorem revert (h : Grounded j) (c : Checkpoint) : Grounded (j.revert c) where
  accurate a cached hcached := by
    have hloaded := undoNewest_loaded (j.entries.length - c.length) j a
    rw [show undoNewest _ j = j.revert c from rfl, hcached] at hloaded
    obtain ⟨before, hbefore, hsame⟩ := Option.map_eq_some_iff.mp hloaded.symm
    rw [revert_backend, ← hsame]
    exact h.accurate a before hbefore
  covers entry hentry := by
    have hbefore : entry ∈ j.entries := by
      rw [show (j.revert c).entries = _ from undoNewest_entries _ j] at hentry
      exact List.mem_of_mem_drop hentry
    exact (covers_undoNewest _ j entry).mpr (h.covers entry hbefore)

theorem discard (h : Grounded j) : Grounded j.discard.2 where
  accurate := (h.revert ⟨0⟩).accurate
  covers entry hentry := by cases hentry

/-- After a settlement accounts are cached as the database has them. -/
theorem passed (h : Passed j j') : Grounded j' where
  accurate a cached hcached := by
    rw [h.accounts] at hcached
    obtain ⟨before, hbefore, rfl⟩ := Option.map_eq_some_iff.mp hcached
    have hstored := h.storedAccounts a
    unfold storedAccount at hstored
    rw [hbefore] at hstored
    exact congrArg Except.ok hstored
  covers entry hentry := by
    rw [h.entries] at hentry
    cases hentry

/-- **A step keeps the program grounded.** -/
theorem step (h : Grounded j) (step : Step) : Grounded (endState (step.perform j)) := by
  cases step with
  | operation op =>
    show Grounded (endState (op.perform j))
    rw [op.endState_perform]
    exact h.changes (op.run_changes j)
  | snapshot => exact h
  | commit c => exact h
  | revert c => exact h.revert c
  | settle =>
    obtain ⟨j', hsettle, hpassed⟩ := settle_passed h.accurate.loaded
    have hsame : endState (Step.settle.perform j) = endState (settle j) :=
      endState_reply settle Reply.logs j
    rw [hsame, hsettle]
    exact passed hpassed
  | discard => exact h.discard

end Grounded

/-! ## Side by side -/

namespace Ahead

/-- A question that is answered without loading anything. -/
theorem ask {f : Journal Database → Reply} (hf : ∀ j k, Ahead A S j k → f k = f j) :
    Lockstep (Ahead A S) (do return f (← get) : JournalM Database Reply)
      (do return f (← get)) := by
  refine .get_bind fun j k h => ?_
  rw [hf j k h]
  exact .ok _ h

/-- A mark is made, and there is nothing to reply. -/
theorem mark {f : Journal Database → Journal Database}
    (hf : ∀ j k, Ahead A S j k → Ahead A S (f j) (f k)) :
    Lockstep (Ahead A S)
      (do
        modify f
        return .done : JournalM Database Reply)
      (do
        modify f
        return .done) :=
  (Lockstep.modify hf).bind fun _ => .pure _

/-- An access is recorded, and it is told whether it is the first one. -/
theorem access {f : Journal Database → Bool × Journal Database}
    (hf : ∀ j k, Ahead A S j k → (f j).1 = (f k).1 ∧ Ahead A S (f j).2 (f k).2) :
    Lockstep (Ahead A S) (do return .flag (← modifyGet f) : JournalM Database Reply)
      (do return .flag (← modifyGet f)) := by
  intro j k h
  obtain ⟨hsame, hstate⟩ := hf j k h
  show Matches (Ahead A S) (.ok (Reply.flag (f j).1) (f j).2) (.ok (Reply.flag (f k).1) (f k).2)
  rw [hsame]
  exact .ok _ hstate

/-- A result is passed on as a reply. -/
theorem reply {α : Type} {op : JournalM Database α} (hop : Lockstep (Ahead A S) op op)
    (f : α → Reply) :
    Lockstep (Ahead A S) (op >>= fun a => pure (f a)) (op >>= fun a => pure (f a)) :=
  hop.bind fun a => .pure (f a)

/-- **An operation gives the same reply** in a state that has read more. -/
theorem operation (h : Ahead A S j k) (op : Operation)
    (hblind : (Step.operation op).Blind A S j) :
    Matches (Ahead A S) (op.perform j) (op.perform k) := by
  cases op with
  | account a => exact reply (account a) _ j k h
  | isPresent a => exact reply (isPresent a) _ j k h
  | isEmpty a => exact reply (isEmpty a) _ j k h
  | balance a => exact reply (balance a) _ j k h
  | nonce a => exact reply (nonce a) _ j k h
  | code a => exact reply (code a) _ j k h
  | storage s => exact reply (storage s) _ j k h
  | slot s => exact reply (loadSlot s) _ j k h
  | blockHash number => exact reply (blockHash number) _ j k h
  | tload s => exact ask (fun j k h => by rw [tload, tload, h.transient]) j k h
  | isWarmAddress a =>
    exact ask (fun j k h => by rw [isWarmAddress, isWarmAddress, h.warmAddresses]) j k h
  | isWarmSlot s => exact ask (fun j k h => by rw [isWarmSlot, isWarmSlot, h.warmSlots]) j k h
  | isCreated a => exact ask (fun j k h => by rw [isCreated, isCreated, h.created]) j k h
  | isDestroyed a => exact ask (fun j k h => by rw [h.isDestroyed_eq]) j k h
  | emitted => exact ask (fun j k h => by rw [emitted, emitted, h.logs]) j k h
  | setBalance a value => exact reply (modifyAccount a _) _ j k h
  | addBalance a amount => exact reply (modifyAccount a _) _ j k h
  | subBalance a amount => exact reply (modifyAccount a _) _ j k h
  | transfer source target amount => exact reply (transfer source target amount) _ j k h
  | setNonce a value => exact reply (modifyAccount a _) _ j k h
  | incrementNonce a => exact reply (incrementNonce a) _ j k h
  | setCode a value => exact reply (setCode a value) _ j k h
  | setStorage s value => exact reply (setStorage s value) _ j k h
  | tstore s value => exact mark (fun j k h => h.tstore s value) j k h
  | warmAddress a => exact access (fun j k h => h.warmAddress a) j k h
  | warmSlot s => exact access (fun j k h => h.warmSlot s) j k h
  | addLog log => exact mark (fun j k h => h.addLog log) j k h
  | markCreated a => exact .ok Reply.done (h.markCreated hblind)
  | markDestroyed a => exact mark (fun j k h => h.markDestroyed a) j k h

/-- **A step gives the same reply** and keeps the session ahead. -/
theorem step (h : Ahead A S j k) (hgrounded : Grounded j) (step : Step)
    (hblind : step.Blind A S j) : Matches (Ahead A S) (step.perform j) (step.perform k) := by
  cases step with
  | operation op => exact h.operation op hblind
  | snapshot =>
    refine ask (fun j k h => ?_) j k h
    rw [checkpoint, checkpoint, h.entries]
  | commit c => exact .ok Reply.done h
  | revert c => exact .ok Reply.done (h.revert hgrounded.covers c)
  | settle =>
    have hsettled := h.settle hgrounded.accurate hblind
    exact hsettled.bind fun logs _ _ _ _ h' => .ok (Reply.logs logs) h'
  | discard =>
    have hreverted := h.revert hgrounded.covers ⟨0⟩
    have hlogs : (k.revert ⟨0⟩).emitted = (j.revert ⟨0⟩).emitted :=
      congrArg List.reverse hreverted.logs
    show Matches (Ahead A S) (.ok (Reply.logs (j.revert ⟨0⟩).emitted) j.discard.2)
      (.ok (Reply.logs (k.revert ⟨0⟩).emitted) k.discard.2)
    rw [hlogs]
    refine .ok _ { hreverted with
      newCode := rfl, transient := rfl, logs := rfl, created := rfl, destroyed := rfl,
      warmAddresses := rfl, warmSlots := rfl, entries := rfl, fresh := ?_ }
    exact fun s _ _ hcreated => absurd hcreated Std.ExtTreeSet.not_mem_empty

end Ahead

/-! ## Sessions -/

/-- Results that agree give the same answer and leave related states. -/
theorem answer_of_matches {ε σ τ α : Type} {R : σ → τ → Prop}
    {result : EStateM.Result ε σ α}
    {result' : EStateM.Result ε τ α} (h : Matches R result result') :
    answer result' = answer result ∧ R (endState result) (endState result') := by
  cases h with
  | ok a hstate => exact ⟨rfl, hstate⟩
  | error e hstate => exact ⟨rfl, hstate⟩

/-- The program that a session is without its looks. -/
def program (turns : List Turn) : List Step := turns.filterMap Turn.step?

/-- **Side by side** a session and its program get the same answers, and the
    session stays ahead. -/
theorem runTurns_ahead (turns : List Turn) {j k : Journal Database} (h : Ahead A S j k)
    (hgrounded : Grounded j)
    (hlooks : ∀ look, .look look ∈ turns → Ahead.Within A S look.target)
    (hblind : Blind A S (program turns) j) :
    (runTurns turns k).1 = (runSteps (program turns) j).1 ∧
      Ahead A S (runSteps (program turns) j).2 (runTurns turns k).2 := by
  induction turns generalizing j k with
  | nil => exact ⟨rfl, h⟩
  | cons turn turns ih =>
    have hrest : ∀ look, .look look ∈ turns → Ahead.Within A S look.target :=
      fun look hmem => hlooks look (List.mem_cons_of_mem turn hmem)
    cases turn with
    | look look =>
      have hahead := h.load (hlooks look List.mem_cons_self)
      rw [← look.run_operation] at hahead
      exact ih hahead hgrounded hrest hblind
    | step step =>
      have hmatches := h.step hgrounded step hblind.1
      obtain ⟨hanswer, hahead⟩ := answer_of_matches hmatches
      obtain ⟨hanswers, hlast⟩ := ih hahead (hgrounded.step step) hrest hblind.2
      exact ⟨congrArg₂ List.cons hanswer hanswers, hlast⟩

/-- **Looking does not show** in the answers of a program, nor in the database,
    whoever looks at accounts out of `A` and slots out of `S`, and whenever, as
    long as the program is blind to it. -/
theorem looking_does_not_show (db : Database) (A : Address → Prop) (S : Slot → Prop)
    (turns : List Turn) (hlooks : ∀ look, .look look ∈ turns → Ahead.Within A S look.target)
    (hblind : Blind A S (program turns) (.ofBackend db)) :
    let watched := runTurns turns (.ofBackend db)
    let alone := runSteps (program turns) (.ofBackend db)
    watched.1 = alone.1 ∧ watched.2.backend = alone.2.backend := by
  intro watched alone
  have hstart : Ahead A S (.ofBackend db) (.ofBackend db) :=
    .refl fun s _ _ hcreated => absurd hcreated Std.ExtTreeSet.not_mem_empty
  obtain ⟨hanswers, hahead⟩ := runTurns_ahead turns hstart (.start db) hlooks hblind
  exact ⟨hanswers, hahead.backend⟩

/-- A store in which the account at 1 has a coin, and its slot 0 holds five. -/
def housedStore : Database :=
  { Database.empty with
    accounts := Std.ExtTreeMap.empty.insert (.ofNat 1) ⟨0, 1, emptyCodeHash⟩
    storage := Std.ExtTreeMap.empty.insert ⟨.ofNat 1, 0⟩ 5 }

/-- An account that has no slots is created, written to and rolled back, and the
    account at 1 is deleted after it was loaded. Its slot is looked at before,
    and so is what is rolled back. -/
theorem looking_does_not_show_housed :
    let housed : Address := .ofNat 1
    let new : Address := .ofNat 2
    let A (a : Address) : Prop := a ∈ [housed, new]
    let S (s : Slot) : Prop := s ∈ [⟨housed, 0⟩, ⟨new, 0⟩]
    let turns : List Turn :=
      [.look (.storage ⟨housed, 0⟩), .step .snapshot, .look (.account new),
        .step (.operation (.markCreated new)), .look (.slot ⟨new, 0⟩),
        .step (.operation (.setStorage ⟨new, 0⟩ 7)), .step (.revert ⟨0⟩),
        .step (.operation (.balance housed)), .step (.operation (.markDestroyed housed)),
        .look (.isEmpty new), .step .settle, .step (.operation (.storage ⟨housed, 0⟩)),
        .step (.operation (.storage ⟨new, 0⟩))]
    let watched := runTurns turns (.ofBackend housedStore)
    let alone := runSteps (program turns) (.ofBackend housedStore)
    (∀ look, .look look ∈ turns → Ahead.Within A S look.target) ∧
      Blind A S (program turns) (.ofBackend housedStore) ∧
      watched.1 = alone.1 ∧ watched.2.backend = alone.2.backend ∧
      alone.1 = [.ok (.checkpoint ⟨0⟩), .ok .done, .ok (.word 0), .ok .done, .ok (.word 1),
        .ok .done, .ok (.logs []), .ok (.word 0), .ok (.word 0)] := by
  intro housed new A S turns watched alone
  have hlooks : ∀ look, .look look ∈ turns → Ahead.Within A S look.target := by
    intro look hmem
    simp only [turns, List.mem_cons, Turn.look.injEq, reduceCtorEq, List.not_mem_nil, or_false,
      false_or] at hmem
    rcases hmem with rfl | rfl | rfl | rfl
    all_goals
      show _ ∈ _
      decide +kernel
  -- the state that is settled
  let j : Journal Database := (runSteps ((program turns).take 6) (.ofBackend housedStore)).2
  have hloaded : (j.accounts[housed]?).isSome ∧ ¬j.isDestroyed new := by decide +kernel
  have haccounts : ∀ a, A a → j.isDestroyed a → j.accounts[a]? = none →
      j.backend.accounts[a]? = none := by
    intro a ha hgone hnone
    rcases List.mem_pair.mp ha with rfl | rfl
    · rw [hnone] at hloaded
      cases hloaded.1
    · exact absurd hgone hloaded.2
  have hslots : ∀ s ∈ [(⟨housed, 0⟩ : Slot), ⟨new, 0⟩], j.slots[s]? = none →
      j.backend.storageValue s ≠ 0 →
      (j.isDestroyed s.address ↔ j.dropDestroyed.deletes s.address) := by decide +kernel
  have hfresh : ∀ s ∈ [(⟨housed, 0⟩ : Slot), ⟨new, 0⟩], s.address = new →
      housedStore.storageValue s = 0 := by decide +kernel
  have hblind : Blind A S (program turns) (.ofBackend housedStore) :=
    ⟨trivial, fun s hs ha _ => hfresh s hs ha, trivial, trivial, trivial, trivial,
      ⟨haccounts, hslots⟩, trivial, trivial, trivial⟩
  obtain ⟨hanswers, hbackend⟩ := looking_does_not_show housedStore A S turns hlooks hblind
  have halone : alone.1 = [.ok (.checkpoint ⟨0⟩), .ok .done, .ok (.word 0), .ok .done,
      .ok (.word 1), .ok .done, .ok (.logs []), .ok (.word 0), .ok (.word 0)] := by
    decide +kernel
  exact ⟨hlooks, hblind, hanswers, hbackend, halone⟩

/-- **Looking may show.** The slot of an account is looked at while the account
    counts as created, and is zero from then on, though that is undone. And an
    account that is to be deleted stays unless somebody looks at it. -/
theorem looking_may_show :
    (¬∀ (db : Database) (turns : List Turn),
      (runTurns turns (.ofBackend db)).1 = (runSteps (program turns) (.ofBackend db)).1) ∧
    ¬∀ (db : Database) (turns : List Turn), (runTurns turns (.ofBackend db)).2.backend =
      (runSteps (program turns) (.ofBackend db)).2.backend := by
  let a : Address := .ofNat 1
  let s : Slot := ⟨a, 0⟩
  let created : List Turn :=
    [.step .snapshot, .step (.operation (.markCreated a)), .look (.storage s),
      .step (.revert ⟨0⟩), .step (.operation (.storage s))]
  let destroyed : List Turn :=
    [.step (.operation (.markDestroyed a)), .look (.account a), .step .settle]
  constructor
  · intro h
    have hdiffers : (runTurns created (.ofBackend housedStore)).1 ≠
        (runSteps (program created) (.ofBackend housedStore)).1 := by decide +kernel
    exact hdiffers (h housedStore created)
  · intro h
    have hsame := congrArg (fun db : Database => db.accounts[a]?) (h housedStore destroyed)
    have hdiffers :
        (runTurns destroyed (.ofBackend housedStore)).2.backend.accounts[a]? ≠
          (runSteps (program destroyed) (.ofBackend housedStore)).2.backend.accounts[a]? := by
      decide +kernel
    exact hdiffers hsame

/-- The slot of an account that goes because it is empty keeps its value where
    somebody has looked at it. -/
example :
    let s : Slot := ⟨.ofNat 1, 0⟩
    let turns : List Turn :=
      [.look (.storage s), .step (.operation (.setBalance (.ofNat 1) 0)), .step .settle,
        .step (.operation (.storage s))]
    (runTurns turns (.ofBackend housedStore)).1.getLast? = some (.ok (.word 5)) ∧
      (runSteps (program turns) (.ofBackend housedStore)).1.getLast? = some (.ok (.word 0)) := by
  decide +kernel

end Evm.Journal
