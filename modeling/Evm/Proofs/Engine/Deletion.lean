import Evm.Proofs.Engine.Layers
import Evm.Proofs.Engine.Session
import Evm.Proofs.Journal.Stored

/-! # Accounts that a transaction deletes

    From Cancun on an account is deleted only if it was created in the same
    transaction. The rule rests on two sets: that of the accounts created and
    that of the accounts to be deleted. The second one stays within the first at
    every tick, and stays so from one transaction to the next
    (`Journal.DeletesNew`).

    An account is created only where none was taken, so one that was taken when
    the transaction began is in neither set (`Journal.Spares`). A settlement
    deletes what is to be deleted and what has become empty; an account that is
    taken is neither.
-/

namespace Evm

open Journal

variable {β : Type} [Backend β]

/-! ## Marks -/

/-- The edits that mark an account as created or as to be deleted. -/
def Edit.Marks : Edit → Prop
  | .created _ | .destroyed _ => True
  | _ => False

theorem Edit.Ordinary.unmarking {edit : Edit} (h : edit.Ordinary) : ¬edit.Marks := by
  cases edit <;> first | exact h.elim | exact id

theorem Edit.Light.unmarking {edit : Edit} (h : edit.Light) : ¬edit.Marks := by
  cases edit <;> first | exact h.elim | exact id

namespace Journal

variable {s b j j' : Journal β}

theorem Changes.same_marks {ok : Edit → Prop} (h : Changes ok j j')
    (hok : ∀ edit, ok edit → ¬edit.Marks) :
    j'.created = j.created ∧ j'.destroyed = j.destroyed := by
  refine ⟨h.same (p := .created) fun edit hedit => ?_,
    h.same (p := .destroyed) fun edit hedit => ?_⟩
  · have hnone := hok edit hedit
    cases edit <;> first | exact absurd trivial hnone | nofun
  · have hnone := hok edit hedit
    cases edit <;> first | exact absurd trivial hnone | nofun

/-- Opening a creation marks the new account as created. -/
theorem Changes.opens_marks {message : CreateMessage} {address : Address}
    (h : Changes (message.Opens address) b j) :
    (∀ a ∈ b.created, a ∈ j.created) ∧ (∀ a ∈ j.created, a ∈ b.created ∨ a = address) ∧
      j.destroyed = b.destroyed := by
  refine h.invariant (P := fun k => (∀ a ∈ b.created, a ∈ k.created) ∧
    (∀ a ∈ k.created, a ∈ b.created ∨ a = address) ∧ k.destroyed = b.destroyed) ?_
    ⟨fun _ ha => ha, fun _ ha => .inl ha, rfl⟩
  rintro edit k k' hopens happ ⟨hkept, honly, hdestroyed⟩
  cases happ with
  | @created _ a hnew =>
    obtain rfl : a = address := hopens
    refine ⟨fun a' ha => Std.ExtTreeSet.mem_insert.mpr (.inr (hkept a' ha)), ?_, hdestroyed⟩
    intro a' ha
    rcases Std.ExtTreeSet.mem_insert.mp ha with heq | hmem
    · exact .inr (Std.LawfulEqOrd.eq_of_compare heq).symm
    · exact honly a' hmem
  | destroyed _ => exact hopens.elim
  | _ => exact ⟨hkept, honly, hdestroyed⟩

/-! ## What is kept -/

/-- Only accounts that were created in the transaction are to be deleted. -/
def DeletesNew (j : Journal β) : Prop := ∀ a ∈ j.destroyed, a ∈ j.created

/-- What was taken in one state is still taken in another one, and is not to be
    deleted there unless it was created before. -/
structure Spares (s j : Journal β) : Prop where
  endures : s.Endures j
  created : ∀ a ∈ j.created, a ∈ s.created ∨ ¬s.Stands a
  destroyed : j.DeletesNew

namespace Spares

theorem start (h : s.DeletesNew) : Spares s s := ⟨.refl s, fun _ ha => .inl ha, h⟩

/-- The marks are the same, and no account has lost anything. -/
theorem of_same (h : Spares s j) (hendures : j.Endures j') (hcreated : j'.created = j.created)
    (hdestroyed : j'.destroyed = j.destroyed) : Spares s j' := by
  refine ⟨h.endures.trans hendures, ?_, ?_⟩
  · rw [hcreated]
    exact h.created
  · unfold DeletesNew
    rw [hcreated, hdestroyed]
    exact h.destroyed

theorem changes (h : Spares s j) {ok : Edit → Prop} (hchanges : Changes ok j j')
    (hendures : ∀ edit, ok edit → edit.Enduring) (hmarks : ∀ edit, ok edit → ¬edit.Marks) :
    Spares s j' := by
  obtain ⟨hcreated, hdestroyed⟩ := hchanges.same_marks hmarks
  exact h.of_same (.of_changes (hchanges.mono hendures)) hcreated hdestroyed

theorem restored (h : Spares s b) (hrestored : Restored b j) : Spares s j :=
  h.of_same (.of_restored hrestored) hrestored.created hrestored.destroyed

/-- An account is created at an address that is free now, so it was not taken
    before either. -/
theorem opened (h : Spares s b) {message : CreateMessage} {address : Address}
    (hfree : b.Free address) (hopens : Changes (message.Opens address) b j)
    (hendures : b.Endures j) : Spares s j := by
  obtain ⟨hkept, honly, hdestroyed⟩ := hopens.opens_marks
  refine ⟨h.endures.trans hendures, fun a ha => ?_, fun a ha => ?_⟩
  · rcases honly a ha with hbefore | rfl
    · exact h.created a hbefore
    · exact .inr fun hstands => hfree.not_stands (h.endures.stands hstands)
  · rw [hdestroyed] at ha
    exact hkept a (h.destroyed a ha)

end Spares

end Journal

namespace Engine

variable {α γ : Type} {e e' e'' : Engine β}

/-! ## Destructions -/

/-- Nothing was marked but accounts to be deleted, and those had been created. -/
structure MarksNew (e e' : Engine β) : Prop where
  config : e'.config = e.config
  created : e'.journal.created = e.journal.created
  destroyed : ∀ a ∈ e'.journal.destroyed, a ∈ e.journal.destroyed ∨ a ∈ e.journal.created

omit [Backend β] in
theorem MarksNew.trans (h : MarksNew e e') (h' : MarksNew e' e'') : MarksNew e e'' := by
  refine ⟨h'.config.trans h.config, h'.created.trans h.created, fun a ha => ?_⟩
  rcases h'.destroyed a ha with hbefore | hcreated
  · exact h.destroyed a hbefore
  · rw [h.created] at hcreated
    exact .inr hcreated

theorem Edited.marksNew {ok : Edit → Prop} (h : Edited ok e e')
    (hok : ∀ edit, ok edit → ¬edit.Marks) : MarksNew e e' := by
  obtain ⟨hcreated, hdestroyed⟩ := h.1.same_marks hok
  refine ⟨h.setup.config, hcreated, fun a ha => .inl ?_⟩
  rwa [hdestroyed] at ha

/-- From Cancun on the operation marks only accounts to be deleted that had been
    created. -/
def HostMarksNew (op : HostM (Engine β) α) : Prop :=
  ∀ e, e.config.hardfork.includes .cancun = true → MarksNew e (endState (op e))

namespace HostMarksNew

theorem of_edits {op : HostM (Engine β) α} (h : HostEdits (fun edit => ¬edit.Marks) op) :
    HostMarksNew op := fun e _ => (h e).marksNew fun _ hedit => hedit

omit [Backend β] in
theorem bind {op : HostM (Engine β) α} {next : α → HostM (Engine β) γ} (hop : HostMarksNew op)
    (hnext : ∀ a, HostMarksNew (next a)) : HostMarksNew (op >>= next) := by
  intro e hcancun
  have hfirst := hop e hcancun
  rw [bind_apply]
  cases h : op e with
  | error err e' =>
    rw [h] at hfirst
    exact hfirst
  | ok a e' =>
    rw [h, endState_ok] at hfirst
    refine hfirst.trans (hnext a e' ?_)
    rwa [hfirst.config]

/-- The account is marked if the rules are older or it was created. -/
theorem scheduleDeletion (address : Address) :
    HostMarksNew (scheduleDeletion address : HostM (Engine β) Unit) := by
  intro e hcancun
  have hempty : HostEdits (fun edit => ¬edit.Marks)
      (onState (Journal.setBalance address 0) : HostM (Engine β) Unit) :=
    .onState (setBalance_edits id fun _ => id)
  have hemptied := (hempty e).marksNew fun _ hedit => hedit
  unfold Engine.scheduleDeletion
  rw [bind_apply]
  simp only [get_apply]
  split
  · next hrule =>
    have hcreated : address ∈ e.journal.created := by
      simpa [hcancun, isCreated] using hrule
    rw [bind_apply]
    cases hset : onState (Journal.setBalance address 0) e with
    | error err e' =>
      rw [hset] at hemptied
      exact hemptied
    | ok u e' =>
      rw [hset] at hemptied
      refine hemptied.trans ⟨rfl, ?_, fun a ha => ?_⟩
      · simp only [modify_apply, endState_ok, modifyState, markDestroyed]
        split <;> rfl
      · simp only [modify_apply, endState_ok, modifyState, markDestroyed] at ha
        split at ha
        · exact .inl ha
        rcases Std.ExtTreeSet.mem_insert.mp ha with heq | hbefore
        · obtain rfl : address = a := Std.LawfulEqOrd.eq_of_compare heq
          rw [endState_ok] at hemptied
          exact .inr (hemptied.created ▸ hcreated)
        · exact .inl hbefore
  · exact ⟨rfl, rfl, fun _ ha => .inl ha⟩

theorem destroy (address target : Address) :
    HostMarksNew (destroy address target : HostM (Engine β) DestructOutcome) := by
  unfold Engine.destroy
  refine (of_edits (.touch id)).bind fun _ => ?_
  refine (of_edits (.onState (balance_edits id))).bind fun balance => ?_
  refine (of_edits (.onState (isEmpty_edits id))).bind fun _ => (of_edits .get).bind fun _ => ?_
  have hsweep : HostMarksNew (sweep address target balance : HostM (Engine β) Unit) := by
    refine of_edits (.ite (fun _ => .onState ?_) fun _ => .pure _)
    exact transfer_edits (fun _ => id) (fun _ _ _ _ _ => id) fun _ _ _ _ _ => id
  exact hsweep.bind fun _ => (scheduleDeletion address).bind fun _ => of_edits (.pure _)

end HostMarksNew

/-! ## Whatever engines do -/

variable {s : Journal β}

/-- A use by a frame. -/
theorem use_spares (hcancun : e.config.hardfork.includes .cancun = true)
    (h : Spares s e.journal) (use : HostUse) :
    Spares s (endState (use.perform e)).journal := by
  obtain ⟨_, _, hedited⟩ := use_authorized use e
  have hendures : e.journal.Endures (endState (use.perform e)).journal :=
    .of_changes (hedited.1.mono fun _ hedit => hedit.enduring)
  have hmarks : MarksNew e (endState (use.perform e)) := by
    by_cases hdestruct : use.IsDestruct
    · cases use with
      | selfDestruct address target =>
        rw [HostUse.endState_perform]
        exact HostMarksNew.destroy address target e hcancun
      | _ => exact hdestruct.elim
    · exact (use_ordinary hdestruct e).marksNew fun _ hedit => hedit.unmarking
  refine ⟨h.endures.trans hendures, ?_, fun a ha => ?_⟩
  · rw [hmarks.created]
    exact h.created
  · rw [hmarks.created]
    rcases hmarks.destroyed a ha with hbefore | hcreated
    · exact h.destroyed a hbefore
    · exact hcreated

/-- A creation under way is not where an account was taken. -/
def CreatesAside (s : Journal β) (kind : FrameKind) : Prop :=
  ∀ checkpoint address, kind = .create checkpoint address → ¬s.Stands address

theorem start_spares (h : Spares s e.journal) (request : Request) :
    Opens (Spares s) (CreatesAside s) e (request.start e) := by
  cases request with
  | call message =>
    have hstart := startCall_spec message e
    have hkept : ∀ {j : Journal β}, Changes message.Opens e.journal j → Spares s j := fun hopens =>
      h.changes hopens (fun _ h => CallMessage.opens_enduring h) fun _ h =>
        (CallMessage.opens_light h).unmarking
    show Opens (Spares s) (CreatesAside s) e (startCall message e)
    generalize startCall message e = out at hstart
    cases hstart with
    | failed _ _ hopens => exact .done (h.restored hopens.revertsTo.restored)
    | settled _ _ hopens => exact .done (hkept hopens)
    | opened hopens => exact .run (.refl _) h rfl hopens.revertsTo (hkept hopens) nofun
  | create message =>
    have houtcome := startCreate_outcome message e
    have hcount : ∀ {nonce : Nat} {b : Journal β}, Counted message nonce e.journal b →
        Spares s b := by
      intro nonce b hcounted
      obtain ⟨hcreated, hdestroyed⟩ :=
        hcounted.changes.same_marks fun _ h => (CreateMessage.counts_light h).unmarking
      exact h.of_same hcounted.endures hcreated hdestroyed
    show Opens (Spares s) (CreatesAside s) e (startCreate message e)
    generalize startCreate message e = out at houtcome
    cases houtcome with
    | refused _ _ hlooks =>
      exact .done (h.changes hlooks (fun _ h => h.enduring) fun _ h => h.light.unmarking)
    | unclaimed _ _ hcounted => exact .done (hcount hcounted)
    | @unpaid err nonce b j hcounted hfree herror =>
      have hopens := mark_endow_opens message (newAddress message nonce) b
      rw [herror] at hopens
      exact .done ((hcount hcounted).restored hopens.revertsTo.restored)
    | @opened nonce b j hcounted hfree hok =>
      have hopens := mark_endow_opens message (newAddress message nonce) b
      have hendures := (endow_endures message hfree).1
      rw [hok] at hopens hendures
      have hspared := hcount hcounted
      refine .run hcounted.changes.revertsTo hspared rfl hopens.revertsTo
        (hspared.opened hfree hopens hendures) ?_
      rintro checkpoint address ⟨⟩ hstands
      exact hfree.not_stands (hspared.endures.stands hstands)

/-- **Under Cancun no account is taken away that was there**, at any tick and
    whatever is undone. -/
theorem maintains_spares {config : Config} (hcancun : config.hardfork.includes .cancun = true)
    (s : Journal β) : Maintained config (Spares s) (CreatesAside s) where
  use use e hconfig h := use_spares (hconfig ▸ hcancun) h use
  opens request e _ h := start_spares h request
  closes kind edit j j' haside hcloses happ h := by
    cases kind with
    | call checkpoint => exact hcloses.elim
    | create checkpoint address =>
      have hsame := (Changes.single hcloses happ).same_marks fun _ h =>
        (Edit.Deploys.light h).unmarking
      refine ⟨?_, ?_, ?_⟩
      · cases edit with
        | account a previous new =>
          obtain ⟨rfl, _⟩ := hcloses
          exact h.endures.of_not_stands (haside checkpoint a rfl) happ
        | _ => exact h.endures.trans (.of_same fun a => happ.presentAccount_of_ne nofun)
      · rw [hsame.1]
        exact h.created
      · unfold DeletesNew
        rw [hsame.1, hsame.2]
        exact h.destroyed
  restored _ _ h hrestored := h.restored hrestored

/-! ## Sessions -/

omit [Backend β] in
/-- Once the transaction has ended nothing is left to be deleted. -/
theorem ended_deletesNew (j : Journal β) : j.endTransaction.2.DeletesNew :=
  fun _ ha => absurd ha Std.ExtTreeSet.not_mem_empty

theorem settle_deletesNew {j : Journal β} (h : j.DeletesNew) :
    (endState (Journal.settle j)).DeletesNew := by
  obtain ⟨backend, accounts, slots, hsame | hended⟩ := settle_ends j
  · rw [hsame]
    exact h
  · rw [hended]
    exact ended_deletesNew _

theorem perform_deletesNew (hcancun : e.config.hardfork.includes .cancun = true)
    (h : e.journal.DeletesNew) (request : Request) :
    (request.perform e).2.journal.DeletesNew :=
  ((maintains_spares hcancun e.journal).perform rfl (.start h)).destroyed

theorem prepare_spares {s : Journal β} (h : Spares s e.journal) (tx : Transaction) :
    Spares s (prepare tx e).2.journal :=
  h.changes (prepare_changes tx e) (fun _ h => h.enduring) fun _ h => h.light.unmarking

theorem transact_deletesNew (hcancun : e.config.hardfork.includes .cancun = true)
    (h : e.journal.DeletesNew) (tx : Transaction) : (transact tx e).2.journal.DeletesNew := by
  have htransacted := transact_spec tx e
  generalize (transact tx e).2 = after at htransacted
  cases htransacted with
  | rejected _ => exact h
  | unprepared _ => exact ended_deletesNew _
  | @ran e' _ _ hprepare hfinished =>
    have hprepared := (prepare_spares (.start h) tx).destroyed
    have hsetup := prepare_setup tx e
    rw [hprepare] at hprepared hsetup
    generalize tx.request (tx.gasLimit - intrinsicGas e.config tx) = request at hfinished
    have hran := perform_deletesNew (hsetup.config ▸ hcancun) hprepared request
    cases hfinished with
    | discarded _ => exact ended_deletesNew _
    | settled _ hsettle =>
      have hsettled := settle_deletesNew hran
      rw [hsettle] at hsettled
      exact hsettled
    | refused _ _ => exact ended_deletesNew _

theorem installCode_deletesNew (h : e.journal.DeletesNew) (a : Address) (code : Bytes) :
    (installCode a code e).2.journal.DeletesNew := by
  have hset : Edits (Edit.Deploys a) (Journal.setCode a code : JournalM β Hash) :=
    setCode_edits trivial (fun _ => trivial) (fun _ => trivial) fun hash _ => ⟨rfl, hash, rfl⟩
  have hcode : (endState (Journal.setCode a code e.journal)).DeletesNew := by
    obtain ⟨hcreated, hdestroyed⟩ := (hset e.journal).same_marks fun _ h => h.light.unmarking
    unfold DeletesNew
    rw [hcreated, hdestroyed]
    exact h
  obtain ⟨j, hinstalled, hinstalling⟩ := installCode_spec a code e
  rw [hinstalled]
  cases hinstalling with
  | ungiven hfails =>
    rw [hfails] at hcode
    exact hcode
  | given hgiven =>
    rw [hgiven] at hcode
    exact settle_deletesNew hcode

/-- Whatever an engine is given, only new accounts are to be deleted. -/
theorem Session.deletesNew {first : Engine β} (h : Session first e)
    (hcancun : first.config.hardfork.includes .cancun = true) (hfirst : first.journal.DeletesNew) :
    e.journal.DeletesNew := by
  induction h with
  | start => exact hfirst
  | transact tx hsession ih => exact transact_deletesNew (hsession.config ▸ hcancun) ih tx
  | perform request hsession ih => exact perform_deletesNew (hsession.config ▸ hcancun) ih request
  | installCode a code _ ih => exact installCode_deletesNew ih a code
  | setEnv env _ ih => exact ih

end Engine

/-! ## Accounts in a database -/

namespace Journal

/-- Every cached account was loaded as the store has it. -/
def Accurate (j : Journal β) : Prop :=
  ∀ (a : Address) (cached : CachedAccount), j.accounts[a]? = some cached →
    Backend.account? j.backend a = .ok cached.loaded

theorem accurate_kept : KeptBy (Accurate (β := β)) Edit.Any := by
  intro edit j j' _ happ h
  cases happ with
  | @readAccount _ a found hnone hread =>
    intro a' cached hcached
    rcases getElem?_insert_eq_some _ hcached with ⟨rfl, rfl⟩ | hbefore
    · exact hread
    · exact h a' cached hbefore
  | @account _ a cached new hcached =>
    intro a' cached' hcached'
    have hput : (j.accounts.insert a { cached with present := some new })[a']? = some cached' :=
      hcached'
    rcases getElem?_insert_eq_some _ hput with ⟨rfl, rfl⟩ | hbefore
    · exact h a cached hcached
    · exact h a' cached' hbefore
  | _ => exact h

theorem accurate_undoable : Undoable (Accurate (β := β)) := by
  intro b j j' hb _ hrestored _ a cached hcached
  rw [hrestored.backend]
  cases hbefore : b.accounts[a]? with
  | some old =>
    have hsame := hrestored.accounts a old hbefore
    rw [hcached] at hsame
    cases hsame
    exact hb a cached hbefore
  | none =>
    -- what was read since is as it was read
    obtain ⟨hloaded, hread⟩ := hrestored.readAccounts a cached hbefore hcached
    rw [hloaded]
    exact hread

theorem Accurate.loaded {j : Journal Database} (h : j.Accurate) (a : Address)
    (cached : CachedAccount) (hcached : j.accounts[a]? = some cached) :
    cached.loaded = j.backend.accounts[a]? := by
  injection h a cached hcached with hread
  exact hread.symm

/-- **A settlement leaves alone an account that is taken** and not to be
    deleted. -/
theorem settle_taken {j : Journal Database} (haccurate : j.Accurate) {a : Address}
    {account : Account} (hseen : j.presentAccount a = .ok (some account))
    (htaken : Taken (some account)) (hkept : a ∉ j.destroyed) :
    ∃ logs j', settle j = .ok logs j' ∧ j'.backend.accounts[a]? = some account := by
  obtain ⟨logs, j', hsettle, hstored⟩ := settle_accounts haccurate.loaded
  refine ⟨logs, j', hsettle, (hstored a).trans ?_⟩
  have hdestroyed : j.isDestroyed a = false := by
    unfold isDestroyed
    rw [Bool.eq_false_iff]
    exact fun hmem => hkept (Std.ExtTreeSet.contains_iff_mem.mp hmem)
  unfold presentAccount at hseen
  unfold storedAccount
  rw [dropDestroyed_accounts]
  cases hcached : j.accounts[a]? with
  | none =>
    rw [hcached] at hseen
    injection hseen
  | some cached =>
    rw [hcached] at hseen
    injection hseen with hpresent
    simp only [Option.map_some, hdestroyed, Bool.false_eq_true, if_false]
    unfold settledAccount
    rw [hpresent]
    split
    · rfl
    · -- what is taken is not empty
      have hfull : account.isEmpty = false := Bool.eq_false_iff.mpr (taken_not_empty htaken)
      exact Option.filter_eq_some_iff.mpr ⟨rfl, by rw [hfull]; rfl⟩

/-- An account that is taken in the database is still there after a settlement, if
    since then only what was not taken was created. -/
theorem settle_spared {store : Database} {j : Journal Database} (h : Spares (ofBackend store) j)
    (haccurate : j.Accurate) {a : Address} {account : Account}
    (hstored : store.accounts[a]? = some account) (htaken : Taken (some account)) :
    ∃ account' logs j', settle j = .ok logs j' ∧ j'.backend.accounts[a]? = some account' ∧
      Evm.Endures (some account) (some account') := by
  have hbefore : (ofBackend store).presentAccount a = .ok (some account) := by
    rw [← hstored]
    rfl
  have hdestroyed : a ∉ j.destroyed := by
    intro hmem
    rcases h.created a (h.destroyed a hmem) with hmarked | hfree
    · exact absurd hmarked Std.ExtTreeSet.not_mem_empty
    · exact hfree ⟨_, hbefore, htaken⟩
  obtain ⟨new, hseen, hendures⟩ := h.endures a _ hbefore
  have hstill := hendures.taken htaken
  cases new with
  | none => exact absurd hstill not_taken_none
  | some account' =>
    obtain ⟨logs, j', hsettle, hkept⟩ := settle_taken haccurate hseen hstill hdestroyed
    exact ⟨account', logs, j', hsettle, hkept, hendures⟩

end Journal

namespace Engine

/-- An account that is taken in the database is still there after a
    transaction. -/
theorem transact_keeps_taken {e : Engine Database} {store : Database}
    (hcancun : e.config.hardfork.includes .cancun = true) (hnew : e.journal = .ofBackend store)
    (tx : Transaction) {a : Address} {account : Account}
    (hstored : store.accounts[a]? = some account) (htaken : Taken (some account)) :
    ∃ account', (transact tx e).2.journal.backend.accounts[a]? = some account' ∧
      Evm.Endures (some account) (some account') := by
  have hstart : Spares (ofBackend store) e.journal := by
    rw [hnew]
    exact .start fun _ ha => absurd ha Std.ExtTreeSet.not_mem_empty
  have haccurate : e.journal.Accurate := by
    rw [hnew]
    intro a cached hcached
    cases hcached
  -- where the transaction comes to nothing the database is as it was
  have hsame : ∀ j : Journal Database, j.backend = store → ∃ account',
      j.backend.accounts[a]? = some account' ∧ Evm.Endures (some account) (some account') :=
    fun j hj => ⟨account, hj ▸ hstored, .refl _⟩
  have hbackend : e.journal.backend = store := by rw [hnew]; rfl
  have hprepared := prepare_spares hstart tx
  have hchanges := prepare_changes tx e
  have hsetup := prepare_setup tx e
  have htransacted := transact_spec tx e
  generalize (transact tx e).2 = after at htransacted
  cases htransacted with
  | rejected _ => exact hsame _ hbackend
  | unprepared hprepare =>
    rw [hprepare] at hchanges
    exact hsame _ ((revert_backend _ ⟨0⟩).trans (hchanges.backend.trans hbackend))
  | @ran e' _ _ hprepare hfinished =>
    rw [hprepare] at hprepared hchanges hsetup
    generalize tx.request (tx.gasLimit - intrinsicGas e.config tx) = request at hfinished
    have hspared : Spares (ofBackend store) (request.perform e').2.journal :=
      (maintains_spares (hsetup.config ▸ hcancun) (ofBackend store)).perform rfl hprepared
    have hran := (request.perform_reverts e').backend.trans (hchanges.backend.trans hbackend)
    have hloaded : e'.journal.Accurate :=
      (hchanges.mono fun _ _ => trivial : Changes Edit.Any e.journal e'.journal).invariant
        (fun edit j j' hedit happ => accurate_kept edit j j' hedit happ) haccurate
    have hloaded' := request.perform_keeps accurate_undoable accurate_kept hloaded
    obtain ⟨account', logs, j', hsettle, hkept⟩ := settle_spared hspared hloaded' hstored htaken
    cases hfinished with
    | discarded _ => exact hsame _ ((revert_backend _ ⟨0⟩).trans hran)
    | settled _ hsettled =>
      rw [hsettle] at hsettled
      cases hsettled
      exact ⟨account', hkept⟩
    | refused _ hrefused =>
      rw [hsettle] at hrefused
      cases hrefused

/-- **From Cancun on a transaction deletes no account that was there before.**
    Whatever a new engine is given, at every tick only accounts are to be deleted
    that were created in the same transaction. Therefore every account of a
    database that has code or a nonce is still there after a transaction on a
    new engine, with the same code and a nonce that is no smaller. -/
theorem only_new_accounts_deleted :
    (∀ {β : Type} [Backend β] (store : β) (first e : Engine β), first.journal = .ofBackend store →
      first.config.hardfork.includes .cancun = true → Session first e →
      e.journal.DeletesNew ∧
        (∀ (request : Request) (m : Machine β), request.Ticks e m → m.engine.journal.DeletesNew) ∧
        ∀ (tx : Transaction) (m : Machine β), tx.Ticks e m → m.engine.journal.DeletesNew) ∧
    ∀ (store : Database) (e : Engine Database) (tx : Transaction) (a : Address)
      (account : Account), e.journal = .ofBackend store →
      e.config.hardfork.includes .cancun = true → store.accounts[a]? = some account →
      account.nonce ≠ 0 ∨ account.hasCode = true →
      ∃ account', (transact tx e).2.journal.backend.accounts[a]? = some account' ∧
        account'.codeHash = account.codeHash ∧ account.nonce ≤ account'.nonce := by
  refine ⟨?_, ?_⟩
  · intro β _ store first e hnew hcancun hsession
    have hfirst : first.journal.DeletesNew := by
      rw [hnew]
      exact fun _ ha => absurd ha Std.ExtTreeSet.not_mem_empty
    have hnow := hsession.deletesNew hcancun hfirst
    have hrules : e.config.hardfork.includes .cancun = true := hsession.config ▸ hcancun
    refine ⟨hnow, fun request m hticks => ?_, fun tx m hticks => ?_⟩
    · exact ((maintains_spares hrules e.journal).ticks rfl (.start hnow) hticks).destroyed
    · obtain ⟨_, e', hprepare, hticks⟩ := hticks
      have hprepared := prepare_spares (.start hnow) tx
      have hsetup := prepare_setup tx e
      rw [hprepare] at hprepared hsetup
      exact ((maintains_spares (hsetup.config ▸ hrules) e.journal).ticks rfl hprepared
        hticks).destroyed
  · intro store e tx a account hnew hcancun hstored htaken
    obtain ⟨account', hkept, hendures⟩ := transact_keeps_taken hcancun hnew tx hstored htaken
    exact ⟨account', hkept, hendures.code htaken, hendures.nonce⟩

/-- A contract that destroys itself in favour of another account: its five coins
    go there, and it stays. -/
theorem only_new_accounts_deleted_emptied :
    let code : Bytes := ⟨#[0x60, 55, 0xff]⟩
    let contract : Address := .ofNat 77
    let store : Database :=
      { Database.empty with
        accounts := Std.ExtTreeMap.empty.insert contract ⟨1, 5, ⟨1⟩⟩
        code := Std.ExtTreeMap.empty.insert ⟨1⟩ code }
    let e := new store .default (.ofHardfork .cancun)
    let tx : Transaction := ⟨.ofNat 3, .call contract, 0, ByteArray.empty, 100000, []⟩
    (∃ m, tx.Ticks e m ∧ m.engine.journal.DeletesNew) ∧
      (transact tx e).1.success = true ∧
      ∃ account, (transact tx e).2.journal.backend.accounts[contract]? = some account ∧
        account.codeHash = ⟨1⟩ ∧ 1 ≤ account.nonce ∧ account.balance = 0 := by
  intro code contract store e tx
  obtain ⟨hticks, hkept⟩ := only_new_accounts_deleted
  refine ⟨?_, by decide +kernel, ?_⟩
  · have hruns : (match (tx.request tx.gasLimit).start (warmTransaction tx e) with
        | (.run _, _) => true
        | (.done _, _) => false) = true := by decide +kernel
    rcases hstart : (tx.request tx.gasLimit).start (warmTransaction tx e) with ⟨result | act, e'⟩
    · rw [hstart] at hruns
      cases hruns
    · have hfirst : tx.Ticks e ⟨e', act, [], none⟩ :=
        ⟨Nat.zero_le _, warmTransaction tx e, rfl, act, e', hstart, .refl⟩
      exact ⟨_, hfirst, (hticks store e e rfl rfl .start).2.2 tx _ hfirst⟩
  · obtain ⟨account, haccount, hcode, hnonce⟩ := hkept store e tx contract ⟨1, 5, ⟨1⟩⟩ rfl rfl
      (by decide +kernel) (by decide)
    have hbalance : ((transact tx e).2.journal.backend.accounts[contract]?).map Account.balance =
        some 0 := by decide +kernel
    rw [haccount] at hbalance
    exact ⟨account, haccount, hcode, hnonce, Option.some.inj hbalance⟩

end Engine

end Evm
