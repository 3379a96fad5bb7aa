import Evm.Proofs.Engine.Orderly
import Evm.Proofs.Engine.Session
import Evm.Proofs.Engine.Twins

/-! # Transactions one after another

    An engine that runs one transaction after another keeps what it has read:
    accounts, slots, codes and jump analyses. Over an orderly database none of
    that shows: every transaction has the result that it has on a new engine
    over the database that the one before it left (`transactAll_afresh`).

    The two runs go in lockstep from twins to twins (`Engine.Twins`), and
    between two transactions the caches hold what the database holds
    (`Journal.Synced`). For that the state has to be orderly when it is
    settled, and so no code may run on an account that has neither a nonce nor
    code (`Housed`): otherwise a cached slot can outlive its account
    (`transactAll_slot_outlives_account`).
-/

namespace Evm

open Journal

/-! ## Lists of transactions -/

namespace Engine

section Lists

variable {β : Type} [Backend β]

/-- A new engine with precompiled contracts of its own. -/
def newWith (store : β) (env : Environment) (config : Config) (precompiles : Precompiles) :
    Engine β :=
  { new store env config with precompiles }

/-- A new engine over the store that an engine has come to. -/
def renew (e : Engine β) : Engine β :=
  newWith e.journal.backend e.env e.config e.precompiles

/-- Run transactions one after another. -/
def transactAll (txs : List Transaction) : StateM (Engine β) (List TransactionResult) :=
  txs.mapM transact

/-- Run transactions, each on a new engine over the store that the one before it
    left. -/
def transactAllAfresh (txs : List Transaction) : StateM (Engine β) (List TransactionResult) :=
  txs.mapM fun tx => do
    modify renew
    transact tx

/-- The codes that transactions come to deploy, one after another. -/
def deploymentsOfAll : List Transaction → Engine β → List Bytes
  | [], _ => []
  | tx :: txs, e => deployments tx e ++ deploymentsOfAll txs (transact tx e).2

end Lists

/-- A transaction runs code on an account that is taken: its call is for the
    account whose code is run, or the sender gets a nonce because the envelope
    is charged, or has one or code in the database. -/
def Housed (tx : Transaction) (e : Engine Database) : Prop :=
  e.config.intrinsicGas = true ∨ (∀ callee, tx.kind ≠ .delegateCall callee) ∨
    Taken e.journal.backend.accounts[tx.caller]?

/-- Transactions run code on accounts that are taken, one after another. -/
def AllHoused : List Transaction → Engine Database → Prop
  | [], _ => True
  | tx :: txs, e => Housed tx e ∧ AllHoused txs (transact tx e).2

end Engine

/-! ## What a transaction does to an engine -/

section Transactions

variable {β : Type} [Backend β] {e : Engine β}

namespace Engine

/-- Where the envelope is charged, the sender of a call has a nonce from then
    on. -/
theorem prepare_stands {tx : Transaction} {e' : Engine β} (h : prepare tx e = (.ok (), e'))
    (hcharged : e.config.intrinsicGas = true) (hcall : tx.kind.isCreate = false) :
    e'.journal.Stands tx.caller := by
  have hcounted := incrementNonce_spec tx.caller (warmTransaction tx e).journal
  have hprepared := prepare_spec tx e
  rw [h] at hprepared
  cases hprepared with
  | uncounted huncounted =>
    rw [huncounted hcharged] at hcall
    cases hcall
  | counted hcount =>
    rw [hcount] at hcounted
    cases hcounted with
    | counted _ hn happ =>
      refine ⟨_, happ.presentAccount.2, .inl ?_⟩
      simp only [Option.getD_some]
      omega

/-- What a transaction asks for is of accounts that are taken. -/
theorem request_grounded {tx : Transaction} {e' : Engine β} (h : prepare tx e = (.ok (), e'))
    (hhoused : e.config.intrinsicGas = true ∨ (∀ callee, tx.kind ≠ .delegateCall callee) ∨
      e.journal.Stands tx.caller) (gasLimit : Nat) :
    (tx.request gasLimit).Grounded e'.journal := by
  intro message hmessage
  unfold Transaction.request at hmessage
  cases hkind : tx.kind with
  | call callee =>
    simp only [hkind] at hmessage
    cases hmessage
    exact .inl rfl
  | staticCall callee =>
    simp only [hkind] at hmessage
    cases hmessage
    exact .inl rfl
  | delegateCall callee =>
    simp only [hkind] at hmessage
    cases hmessage
    refine .inr ?_
    rcases hhoused with hcharged | hnone | hstands
    · exact prepare_stands h hcharged (by rw [hkind]; rfl)
    · exact absurd hkind (hnone callee)
    · have hendures := prepare_endures tx e
      rw [h] at hendures
      exact hendures.stands hstands
  | create =>
    simp only [hkind] at hmessage
    cases hmessage
  | create2 salt =>
    simp only [hkind] at hmessage
    cases hmessage

end Engine

end Transactions

/-! ## Between two transactions -/

namespace Engine

variable {known : Hash → Option Bytes} {db db' : Database} {e e' f f' : Engine Database}

/-- An engine between two transactions: its caches hold what the database
    holds, and the database is orderly. -/
structure Rested (known : Hash → Option Bytes) (e : Engine Database) : Prop where
  synced : Synced e.journal
  orderly : e.journal.backend.Orderly
  versed : Versed known e

/-- An engine between two transactions, and one that is set up in the same way
    and has come to a database that reads alike. -/
structure Abreast (known : Hash → Option Bytes) (e f : Engine Database) : Prop where
  rested : Rested known e
  reads : e.journal.backend.ReadsAs f.journal.backend
  env : e.env = f.env
  config : e.config = f.config
  precompiles : e.precompiles = f.precompiles

namespace Abreast

/-- **Renewing cannot be told**: before a transaction an engine and a new one
    are twins. -/
theorem twins (h : Abreast known e f) :
    Twins known e.journal.backend f.journal.backend e (renew f) where
  journals := h.rested.synced.alike h.rested.versed.coded h.rested.orderly h.reads
  env := h.env
  config := h.config
  precompiles := h.precompiles
  left := h.rested.versed
  right := by
    refine ⟨.start fun hash c hc => ?_, fun hash dests hdests => ?_⟩
    · rw [← h.reads.codes] at hc
      exact h.rested.versed.coded.stored hash c hc
    · cases hdests

variable (h : Abreast known e f)
  (htwins : Twins known e.journal.backend f.journal.backend e' f')
  (hreverts : RevertsTo e.journal e'.journal)

include h htwins hreverts

/-- A transaction is discarded on both sides. -/
theorem discard : Abreast known (discard e').2 (discard f').2 := by
  obtain ⟨hsynced, hbackend⟩ := h.rested.synced.discard hreverts htwins.journals.left.toLinked
  have hleft : (Engine.discard e').2.journal.backend = e.journal.backend := hbackend
  have hright : (Engine.discard f').2.journal.backend = f.journal.backend :=
    (revert_backend f'.journal ⟨0⟩).trans htwins.journals.right.backend
  refine ⟨⟨hsynced, ?_, htwins.left.coded.discard, htwins.left.analyzes⟩, ?_, htwins.env,
    htwins.config, htwins.precompiles⟩
  · rw [hleft]
    exact h.rested.orderly
  · rw [hleft, hright]
    exact h.reads

/-- The outcome of a transaction is settled on both sides. -/
theorem finish (horderly : e'.journal.Orderly) (gasLimit : Nat) (frame : FrameResult) :
    (finish gasLimit frame e').1 = (finish gasLimit frame f').1 ∧
      Abreast known (finish gasLimit frame e').2 (finish gasLimit frame f').2 := by
  obtain ⟨j, k, hj, hk, hsettled, hended, hreads⟩ :=
    htwins.journals.settle h.rested.orderly htwins.left.coded htwins.right.coded
  have hup := htwins.journals.left
  unfold Engine.finish
  rw [state_get_bind_apply, state_get_bind_apply, htwins.config]
  cases frame.isSuccess with
  | true =>
    simp only [reduceIte, state_bind_apply, attempt_ok hj, attempt_ok hk]
    refine ⟨rfl, ⟨?_, ?_, ?_, htwins.left.analyzes⟩, hreads, htwins.env, htwins.config,
      htwins.precompiles⟩
    · exact hsettled.synced hup h.rested.orderly horderly hended
    · exact hsettled.stillOrderly hup h.rested.orderly horderly
    · exact hsettled.coded htwins.left.coded
  | false => exact ⟨rfl, h.discard htwins hreverts⟩

end Abreast

/-- **One transaction** has the result that it has on a new engine, and leads to
    databases that read alike. -/
theorem Abreast.transact {tx : Transaction} (h : Abreast known e f) (hhoused : Housed tx e)
    (hvouched : Vouches known (deployments tx e)) :
    (transact tx e).1 = (transact tx (renew f)).1 ∧
      Abreast known (transact tx e).2 (transact tx (renew f)).2 := by
  have htwins := h.twins
  have hagree : EnginesAgree (Twins known e.journal.backend f.journal.backend)
      (fun hash c => known hash = some c) _ :=
    Twins.agree h.rested.orderly
  obtain ⟨hsame, hprepared, _⟩ := hagree.prepare tx e (renew f) htwins
  have hchanges := prepare_changes tx e
  have hendures := prepare_endures tx e
  have hsender : e.config.intrinsicGas = true ∨ (∀ callee, tx.kind ≠ .delegateCall callee) ∨
      e.journal.Stands tx.caller :=
    hhoused.imp id fun hcall => hcall.imp id fun htaken =>
      ⟨_, h.rested.synced.presentAccount tx.caller, htaken⟩
  unfold deployments at hvouched
  rw [transact_eq, transact_eq, ← htwins.config]
  by_cases hgas : tx.gasLimit < intrinsicGas e.config tx
  · rw [if_pos hgas, if_pos hgas]
    exact ⟨rfl, h.rested, h.reads, h.env, h.config, h.precompiles⟩
  rw [if_neg hgas, if_neg hgas]
  rw [if_neg hgas] at hvouched
  rcases hprepare : prepare tx e with ⟨answer, e'⟩
  generalize prepare tx (renew f) = prepared at hsame hprepared
  obtain ⟨answer', f'⟩ := prepared
  rw [hprepare] at hsame hprepared hchanges hendures hvouched
  obtain rfl : answer = answer' := hsame
  cases answer with
  | error err => exact ⟨rfl, h.discard hprepared hchanges.revertsTo⟩
  | ok u =>
    have horderly : e'.journal.Orderly :=
      (h.rested.synced.orderly h.rested.orderly).tidy (hchanges.mono fun _ hedit => hedit.quiet)
        hendures nofun
    have hgrounded := request_grounded hprepare hsender (tx.gasLimit - intrinsicGas e.config tx)
    simp only at hprepared hvouched ⊢
    generalize tx.request (tx.gasLimit - intrinsicGas e.config tx) = request at *
    obtain ⟨hran, hengines⟩ := hagree.perform hprepared hvouched
    have hreverts := hchanges.revertsTo.trans (request.perform_reverts e')
    rw [← hran]
    exact h.finish hengines hreverts (Request.perform_orderly horderly hgrounded) _ _

theorem transactAll_cons {β : Type} [Backend β] (tx : Transaction) (txs : List Transaction)
    (e : Engine β) :
    transactAll (tx :: txs) e =
      ((transact tx e).1 :: (transactAll txs (transact tx e).2).1,
        (transactAll txs (transact tx e).2).2) := by
  unfold transactAll
  rw [List.mapM_cons]
  rfl

theorem transactAllAfresh_cons {β : Type} [Backend β] (tx : Transaction) (txs : List Transaction)
    (e : Engine β) :
    transactAllAfresh (tx :: txs) e =
      ((transact tx (renew e)).1 :: (transactAllAfresh txs (transact tx (renew e)).2).1,
        (transactAllAfresh txs (transact tx (renew e)).2).2) := by
  unfold transactAllAfresh
  rw [List.mapM_cons]
  rfl

/-- **A list of transactions** has the results that it has with a new engine for
    each of them. -/
theorem Abreast.transactAll {txs : List Transaction} (h : Abreast known e f)
    (hhoused : AllHoused txs e) (hvouched : Vouches known (deploymentsOfAll txs e)) :
    (transactAll txs e).1 = (transactAllAfresh txs f).1 ∧
      (transactAll txs e).2.journal.backend.ReadsAs
        (transactAllAfresh txs f).2.journal.backend := by
  induction txs generalizing e f with
  | nil => exact ⟨rfl, h.reads⟩
  | cons tx txs ih =>
    obtain ⟨hresult, hnext⟩ := h.transact hhoused.1
      fun c hc => hvouched c (List.mem_append_left _ hc)
    obtain ⟨hresults, hreads⟩ := ih hnext hhoused.2
      fun c hc => hvouched c (List.mem_append_right _ hc)
    rw [transactAll_cons, transactAllAfresh_cons]
    exact ⟨congrArg₂ List.cons hresult hresults, hreads⟩

/-- **What an engine keeps between transactions does not show.** Over an orderly
    database the transactions of a list have the results that they have when
    each is run on a new engine over the database that the one before it left,
    and the databases that they come to read alike. Each transaction runs code
    on an account that is taken, and no two codes have one hash. -/
theorem transactAll_afresh {known : Hash → Option Bytes} {e : Engine Database} {db : Database}
    {env : Environment} {config : Config} {precompiles : Precompiles}
    (hnew : e = newWith db env config precompiles) (horderly : db.Orderly)
    (hstored : ∀ hash c, db.code? hash = some c → known hash = some c) {txs : List Transaction}
    (hhoused : AllHoused txs e) (hvouched : Vouches known (deploymentsOfAll txs e)) :
    (transactAll txs e).1 = (transactAllAfresh txs e).1 ∧
      (transactAll txs e).2.journal.backend.ReadsAs
        (transactAllAfresh txs e).2.journal.backend := by
  subst hnew
  have hrested : Rested known (newWith db env config precompiles) :=
    ⟨.start db, horderly, .start hstored, fun hash dests hdests => nomatch hdests⟩
  exact Abreast.transactAll ⟨hrested, .refl _, rfl, rfl, rfl⟩ hhoused hvouched

/-- A contract that counts in a slot is called, another one is created, and the
    first one is called again. -/
theorem transactAll_afresh_counting :
    let counter : Address := .ofNat 77
    let counting : Bytes := ⟨#[0x60, 0, 0x54, 0x60, 1, 0x01, 0x60, 0, 0x55]⟩
    let deployed : Bytes := ⟨#[0x00]⟩
    let db : Database :=
      { Database.empty with
        accounts := (Std.ExtTreeMap.empty.insert (.ofNat 3) ⟨0, 100, emptyCodeHash⟩).insert counter
          ⟨1, 0, ⟨1⟩⟩
        storage := Std.ExtTreeMap.empty.insert ⟨counter, 0⟩ 4
        code := Std.ExtTreeMap.empty.insert ⟨1⟩ counting }
    let counts : Transaction := ⟨.ofNat 3, .call counter, 7, ByteArray.empty, 100000, []⟩
    let creates : Transaction :=
      ⟨.ofNat 3, .create, 0, ⟨#[0x60, 1, 0x60, 0, 0xf3]⟩, 100000, []⟩
    let txs := [counts, creates, counts]
    let e := newWith db .default (.ofHardfork .cancun) .standard
    (transactAll txs e).1 = (transactAllAfresh txs e).1 ∧
      (transactAll txs e).2.journal.backend.ReadsAs
        (transactAllAfresh txs e).2.journal.backend ∧
      deploymentsOfAll txs e = [deployed] ∧
      (transactAll txs e).2.journal.backend.storageValue ⟨counter, 0⟩ = 6 := by
  intro counter counting deployed db counts creates txs e
  -- what the run comes to, as far as it is needed
  obtain ⟨hdeployed, hvalue⟩ : deploymentsOfAll txs e = [deployed] ∧
      (transactAll txs e).2.journal.backend.storageValue ⟨counter, 0⟩ = 6 := by decide +kernel
  let known (hash : Hash) : Option Bytes :=
    if hash = keccak256 deployed then some deployed else db.code? hash
  have horderly : db.Orderly := by
    constructor
    · intro s hs
      obtain rfl : s = ⟨counter, 0⟩ := by
        apply Decidable.byContradiction
        intro hne
        refine hs ?_
        show (Std.ExtTreeMap.empty.insert ⟨counter, 0⟩ 4 : Std.ExtTreeMap Slot Word).getD s 0 = 0
        rw [Std.ExtTreeMap.getD_eq_getD_getElem?, getElem?_insert_of_ne _ (Ne.symm hne)]
        rfl
      have hcounter : db.accounts[counter]? = some ⟨1, 0, ⟨1⟩⟩ := by decide +kernel
      rw [hcounter]
      exact .inl Nat.one_ne_zero
    · intro a account haccount hcode
      rcases getElem?_insert_eq_some _ haccount with ⟨_, rfl⟩ | haccount
      · decide +kernel
      rcases getElem?_insert_eq_some _ haccount with ⟨_, rfl⟩ | haccount
      · cases hcode
      · cases haccount
  have hhoused : AllHoused txs e :=
    ⟨.inr (.inl nofun), .inr (.inl nofun), .inr (.inl nofun), trivial⟩
  have hstored : ∀ hash c, db.code? hash = some c → known hash = some c := by
    intro hash c hc
    have hnew : db.code? (keccak256 deployed) = none := by decide +kernel
    have hne : hash ≠ keccak256 deployed := by
      rintro rfl
      rw [hnew] at hc
      cases hc
    exact (if_neg hne).trans hc
  have hvouched : Vouches known (deploymentsOfAll txs e) := by
    intro c hc _
    rw [hdeployed, List.mem_singleton] at hc
    subst hc
    exact if_pos rfl
  obtain ⟨hresults, hreads⟩ := transactAll_afresh (e := e) rfl horderly hstored hhoused hvouched
  exact ⟨hresults, hreads, hdeployed, hvalue⟩

/-- Where a transaction may run code on an account that is not taken, a cached
    slot outlives its account. The code sets a slot of the sender and sends all
    of its coins away: the sender is removed because it is empty, and with it
    goes the slot in the database. On the same engine the next transaction
    finds the slot as it was set, on a new one it finds zero. -/
theorem transactAll_slot_outlives_account :
    let setting : Bytes := ⟨#[0x60, 1, 0x60, 0, 0x55, 0x60, 0, 0x60, 0, 0x60, 0, 0x60, 0, 0x60, 5,
      0x60, 2, 0x61, 0xff, 0xff, 0xf1, 0x00]⟩
    let showing : Bytes := ⟨#[0x60, 0, 0x54, 0x60, 0, 0x52, 0x60, 0x20, 0x60, 0, 0xf3]⟩
    let db : Database :=
      { Database.empty with
        accounts := ((Std.ExtTreeMap.empty.insert (.ofNat 3) ⟨0, 5, emptyCodeHash⟩).insert
          (.ofNat 77) ⟨1, 0, ⟨1⟩⟩).insert (.ofNat 78) ⟨1, 0, ⟨2⟩⟩
        code := (Std.ExtTreeMap.empty.insert ⟨1⟩ setting).insert ⟨2⟩ showing }
    let runs (callee : Address) : Transaction :=
      ⟨.ofNat 3, .delegateCall callee, 0, ByteArray.empty, 100000, []⟩
    let txs := [runs (.ofNat 77), runs (.ofNat 78)]
    let e := newWith db .default (.ofHardfork .cancun) .standard
    (transactAll txs e).1.map (fun result => Word.ofBytesAt result.output 0) = [0, 1] ∧
      (transactAllAfresh txs e).1.map (fun result => Word.ofBytesAt result.output 0) = [0, 0] := by
  decide +kernel

end Engine

end Evm
