import Evm.Proofs.Engine.AgreedRuns
import Evm.Proofs.Engine.Deletion
import Evm.Proofs.Engine.Installation
import Evm.Proofs.Engine.Rejection
import Evm.Proofs.Journal.Remembered
import Mathlib.Data.Set.Function

/-! # Code that is executed

    Code that is executed as a call is installed first, which is to deploy it
    on the database, and then called, which is a transaction of its own. If the
    call fails the database is as it was deployed. Whatever becomes of the call
    and whatever the code does, the code is still there afterwards
    (`execute_keeps_code`): the account keeps the hash because it is taken, and
    the code under the hash is the same because it is known all the time
    (`Knowing.agree`) and no other code with that hash is deployed.
-/

namespace Evm

open Journal

variable {β : Type} [Backend β] {hash : Hash} {c : Bytes}

/-! ## Engines that know a code -/

namespace Engine

variable {α : Type} {e f : Engine β}

/-- One engine, taken twice, that knows a code. -/
def Knowing (hash : Hash) (c : Bytes) (e f : Engine β) : Prop :=
  e = f ∧ Remembers hash c e.journal

namespace Knowing

omit [Backend β] in
/-- An operation after which the code is still known. -/
theorem tied {op : JournalM β α}
    (h : ∀ j, Remembers hash c j → Remembers hash c (endState (op j))) :
    Tied (Knowing hash c) op op := by
  intro e f hsame
  obtain ⟨rfl, hknown⟩ := hsame
  have hkept := h _ hknown
  cases hop : op e.journal with
  | ok a j =>
    rw [hop] at hkept
    exact .ok a ⟨rfl, hkept⟩
  | error err j =>
    rw [hop] at hkept
    exact .error err ⟨rfl, hkept⟩

theorem tied_of_edits {op : JournalM β α} (h : Edits Edit.OfNoCode op) :
    Tied (Knowing hash c) op op :=
  tied fun j hj => hj.changes (h j)

omit [Backend β] in
/-- A change of the state that is of no code. -/
theorem marks {mark : Journal β → Journal β} (h : ∀ j, (mark j).codes = j.codes) :
    Marks (Knowing hash c) mark mark := by
  intro e f hsame
  obtain ⟨rfl, hknown⟩ := hsame
  exact ⟨rfl, hknown.congr (h _)⟩

theorem marks_of_changes {mark : Journal β → Journal β}
    (h : ∀ j, Changes Edit.OfNoCode j (mark j)) : Marks (Knowing hash c) mark mark :=
  marks fun j => (h j).same (p := .codes) fun _ he => he.1

theorem scheduleDeletion (a : Address) :
    Lockstep (Knowing hash c) (scheduleDeletion a : HostM (Engine β) Unit)
      (scheduleDeletion a) := by
  unfold Engine.scheduleDeletion
  refine .get_bind fun e f hsame => ?_
  obtain ⟨rfl, hknown⟩ := hsame
  refine Lockstep.ite ?_ (.pure _) e e ⟨rfl, hknown⟩
  refine (tied_of_edits (NoCode.setBalance a 0)).onState.bind fun _ => .modify ?_
  exact marks_of_changes fun j => markDestroyed_changes j ⟨nofun, nofun⟩

/-- **An engine never forgets a code**, as long as no other code with its hash
    is deployed. -/
theorem agree :
    EnginesAgree (Knowing hash c : Engine β → Engine β → Prop)
      (fun hash' c' => hash' = hash → c' = c) fun _ => True where
  env _ _ h := h.1 ▸ rfl
  config _ _ h := h.1 ▸ rfl
  precompiles _ _ h := h.1 ▸ rfl
  checkpoint _ _ h := h.1 ▸ rfl
  isDestroyed _ _ _ h := h.1 ▸ rfl
  tload _ _ _ h := h.1 ▸ rfl
  isCold _ _ _ h := h.1 ▸ rfl
  isColdSlot _ _ _ h := h.1 ▸ rfl
  warmAddress _ := marks_of_changes fun j => warmAddress_changes j ⟨nofun, nofun⟩
  warmSlot _ := marks_of_changes fun j => warmSlot_changes j ⟨nofun, nofun⟩
  tstore _ _ := marks_of_changes fun j => tstore_changes j ⟨nofun, nofun⟩
  addLog _ := marks_of_changes fun j => addLog_changes j ⟨nofun, nofun⟩
  revert checkpoint := marks fun j => revert_codes j checkpoint
  markCreated _ _ := marks_of_changes fun j => markCreated_changes j ⟨nofun, nofun⟩
  account a := tied_of_edits (NoCode.account a)
  isEmpty a := tied_of_edits (NoCode.isEmpty a)
  balance a := tied_of_edits (NoCode.balance a)
  code a := tied fun _ hj => (hj.code a).1
  blockHash n := tied_of_edits (NoCode.blockHash n)
  storage s := tied_of_edits (NoCode.storage s)
  slot s := tied_of_edits (NoCode.slot s)
  setStorage s value := tied_of_edits (NoCode.setStorage s value)
  transfer a b amount := tied_of_edits (NoCode.transfer a b amount)
  incrementNonce a := tied_of_edits (NoCode.incrementNonce a)
  endow _ a := tied_of_edits ((NoCode.setNonce a 1).bind fun _ => NoCode.transfer _ _ _)
  setCode a _ _ hc := tied fun _ hj => hj.setCode a hc
  scheduleDeletion := scheduleDeletion
  analyze _ _ _ := by
    intro e f hsame
    obtain ⟨rfl, hknown⟩ := hsame
    exact ⟨rfl, ⟨rfl, hknown⟩, trivial⟩
  knownCode a _ _ found j h := (h.2.code a).2 found j
  untaken _ _ _ _ _ _ _ _ := trivial

end Knowing

/-- So the code is still known when a request has been carried out. -/
theorem perform_remembers {request : Request} (h : Remembers hash c e.journal)
    (hcodes : ∀ c' ∈ request.deployments e, c'.isEmpty = false → keccak256 c' = hash → c' = c) :
    Remembers hash c (request.perform e).2.journal :=
  (Knowing.agree.perform ⟨rfl, h⟩ hcodes).2.2

end Engine

/-! ## Transactions on a database -/

theorem ne_emptyCodeHash {account : Account} (h : account.hasCode = true) :
    account.codeHash ≠ emptyCodeHash := by
  intro heq
  simp [Account.hasCode, heq] at h

/-- Where an account has a hash and the code is there, the account has the
    code. -/
theorem Database.codeAt_of_code? {db : Database} {a : Address} {account : Account}
    (hfound : db.accounts[a]? = some account) (hne : account.codeHash ≠ emptyCodeHash)
    (hcode : db.code? account.codeHash = some c) : db.codeAt a = c := by
  unfold Database.code? at hcode
  rw [if_neg hne] at hcode
  unfold Database.codeAt
  rw [hfound]
  show db.code.getD account.codeHash ByteArray.empty = c
  rw [Std.ExtTreeMap.getD_eq_getD_getElem?, hcode]
  rfl

/-- A settlement leaves an account its code, if the account was there with it
    before anything was created, and the code is known. -/
theorem Journal.settle_codeAt {s j : Journal Database} (h : Spares s j) (hnew : s.created = ∅)
    (haccurate : j.Accurate) {a : Address} {account : Account}
    (hseen : s.presentAccount a = .ok (some account)) (hcode : account.hasCode = true)
    (hholds : Holds account.codeHash c j) :
    ∃ logs j', settle j = .ok logs j' ∧ j'.backend.codeAt a = c := by
  have htaken : Taken (some account) := .inr hcode
  have hkept : a ∉ j.destroyed := by
    intro hmem
    rcases h.created a (h.destroyed a hmem) with hbefore | hfree
    · exact absurd (hnew ▸ hbefore) Std.ExtTreeSet.not_mem_empty
    · exact hfree ⟨_, hseen, htaken⟩
  obtain ⟨found, hfound, hendures⟩ := h.endures a _ hseen
  have hstill := hendures.taken htaken
  cases found with
  | none => exact absurd hstill not_taken_none
  | some found =>
    obtain ⟨logs, j', hsettle, hleft⟩ := settle_taken haccurate hfound hstill hkept
    have hhash : found.codeHash = account.codeHash := hendures.code htaken
    have hstored := (hholds.settle hsettle).stored
    refine ⟨logs, j', hsettle, Database.codeAt_of_code? hleft ?_ ?_⟩
    · rw [hhash]
      exact ne_emptyCodeHash hcode
    · rw [hhash]
      exact hstored

/-- A database takes every write. -/
theorem Write.make_database (write : Write) (db : Database) : ∃ db', write.make db = .ok db' := by
  cases write <;> exact ⟨_, rfl⟩

namespace Engine

variable {e : Engine Database} {tx : Transaction}

/-- **A transaction that fails leaves a database as it was.** -/
theorem failed_transaction_database (hfails : (transact tx e).1.success = false) :
    (transact tx e).2.journal.backend = e.journal.backend := by
  have hbackend := (prepare_changes tx e).backend
  rw [transact_eq] at hfails ⊢
  by_cases hgas : tx.gasLimit < intrinsicGas e.config tx
  · rw [if_pos hgas]
  rw [if_neg hgas] at hfails ⊢
  generalize prepare tx e = prepared at hfails hbackend ⊢
  obtain ⟨answer, e'⟩ := prepared
  cases answer with
  | error err => exact (discard_backend e').trans hbackend
  | ok u =>
    simp only at hfails ⊢
    generalize tx.request (tx.gasLimit - intrinsicGas e.config tx) = request at hfails ⊢
    have hran := (request.perform_reverts e').backend.trans hbackend
    rcases finish_failure hfails with hsame | ⟨cause, _, ⟨_, refused, _, _, _, hrefused⟩, _⟩
    · exact hsame.trans hran
    · obtain ⟨db', hok⟩ := refused.make_database _
      rw [hok] at hrefused
      cases hrefused

/-- **A transaction does not take code away** from an account that is there with
    it when the transaction starts, whatever code runs, if no other code with
    its hash is deployed. -/
theorem transact_keeps_code (hcancun : e.config.hardfork.includes .cancun = true)
    (haccurate : e.journal.Accurate) (hnew : e.journal.created = ∅)
    (hgone : e.journal.destroyed = ∅) {a : Address} {account : Account}
    (hseen : e.journal.presentAccount a = .ok (some account))
    (hstored : e.journal.backend.accounts[a]? = some account) (hcode : account.hasCode = true)
    (hholds : Holds account.codeHash c e.journal)
    (hdistinct : ∀ c' ∈ deployments tx e, c'.isEmpty = false →
      keccak256 c' = account.codeHash → c' = c) :
    (transact tx e).2.journal.backend.codeAt a = c := by
  have hsame : ∀ j : Journal Database, j.backend = e.journal.backend →
      j.backend.codeAt a = c := by
    intro j hj
    rw [hj]
    exact Database.codeAt_of_code? hstored (ne_emptyCodeHash hcode) hholds.stored
  have hstart : Spares e.journal e.journal :=
    .start fun a ha => absurd (hgone ▸ ha) Std.ExtTreeSet.not_mem_empty
  have hprepared := prepare_spares hstart tx
  have hchanges := prepare_changes tx e
  have hsetup := prepare_setup tx e
  have htransacted := transact_spec tx e
  unfold deployments at hdistinct
  generalize (transact tx e).2 = after at htransacted
  cases htransacted with
  | rejected _ => exact hsame _ rfl
  | unprepared hprepare =>
    rw [hprepare] at hchanges
    exact hsame _ ((revert_backend _ ⟨0⟩).trans hchanges.backend)
  | @ran e' _ hgas hprepare hfinished =>
    rw [if_neg (Nat.not_lt.mpr hgas), hprepare] at hdistinct
    rw [hprepare] at hprepared hchanges hsetup
    simp only at hdistinct
    generalize tx.request (tx.gasLimit - intrinsicGas e.config tx) = request at hfinished hdistinct
    have hran := (request.perform_reverts e').backend.trans hchanges.backend
    have hspared : Spares e.journal (request.perform e').2.journal :=
      (maintains_spares (hsetup.config ▸ hcancun) e.journal).perform rfl hprepared
    have hany : Changes Edit.Any e.journal e'.journal := hchanges.mono fun _ _ => trivial
    have hloaded : (request.perform e').2.journal.Accurate :=
      request.perform_keeps accurate_undoable accurate_kept
        (hany.invariant (fun edit j j' hedit happ => accurate_kept edit j j' hedit happ) haccurate)
    -- the preparation is of no code
    have hknown : Remembers account.codeHash c e'.journal := by
      refine hholds.cached.changes (hchanges.mono fun edit hedit => ?_)
      cases edit <;> first | exact hedit.elim | exact ⟨nofun, nofun⟩
    have hheld : Holds account.codeHash c (request.perform e').2.journal :=
      ⟨perform_remembers hknown hdistinct, by rw [hran]; exact hholds.stored⟩
    obtain ⟨logs, j', hsettle, hleft⟩ := settle_codeAt hspared hnew hloaded hseen hcode hheld
    cases hfinished with
    | discarded _ => exact hsame _ ((revert_backend _ ⟨0⟩).trans hran)
    | settled _ hsettled =>
      rw [hsettle] at hsettled
      cases hsettled
      exact hleft
    | refused _ hrefused =>
      rw [hsettle] at hrefused
      cases hrefused

/-! ## Executing code -/

/-- The engine that code is executed on. Unless there is no code it was
    installed. -/
def forExecution (code : Bytes) (caller target : Address) (block : BlockEnv) (db : Database) :
    Engine Database :=
  let engine := new db ⟨block, { TxEnv.default with origin := caller }⟩ (.ofHardfork .cancun)
  if code.isEmpty then engine else (installCode target code engine).2

end Engine

theorem execute_eq (code input : Bytes) (caller target : Address) (value : Word)
    (gasLimit : Nat) (block : BlockEnv) (db : Database)
    (hhash : code.isEmpty = false →
      keccak256 code ≠ emptyCodeHash ∧ (keccak256 code).isZero = false) :
    execute code input caller target value gasLimit block db =
      let ran := Engine.transact ⟨caller, .call target, value, input, gasLimit, []⟩
        (Engine.forExecution code caller target block db)
      (ran.1, ran.2.journal.backend) := by
  unfold execute Engine.forExecution
  cases hcode : code.isEmpty with
  | true => rfl
  | false =>
    obtain ⟨hne, hzero⟩ := hhash hcode
    have hfull : (db.withCode target code).hasCode = true := by
      simp [Account.hasCode, Database.withCode, hne, hzero]
    simp only [Bool.false_eq_true, if_false, state_bind_apply]
    rw [Engine.installCode_new _ _ _ _ hcode hfull]
    rfl

/-- The state that code is called on has the account with the code, in the
    database and in the caches, and nothing was created or is to be deleted. -/
theorem Journal.deployed_accurate (db : Database) (a : Address) {code : Bytes}
    (hcode : code.isEmpty = false) : (deployed db a code).Accurate := by
  intro a' cached hcached
  rcases getElem?_insert_eq_some _ hcached with ⟨rfl, rfl⟩ | hnone
  · show Except.ok (db.deploy a code).2.accounts[a]? = _
    rw [db.deploy_eq a code hcode, Std.ExtTreeMap.getElem?_insert_self]
  · simp at hnone

theorem Journal.deployed_holds (db : Database) (a : Address) {code : Bytes}
    (hcode : code.isEmpty = false) (hne : keccak256 code ≠ emptyCodeHash) :
    Holds (keccak256 code) code (deployed db a code) where
  cached := Std.ExtTreeMap.getElem?_insert_self
  stored := by
    show (db.deploy a code).2.code? (keccak256 code) = some code
    unfold Database.code?
    rw [if_neg hne, db.deploy_eq a code hcode, Std.ExtTreeMap.getElem?_insert_self]

/-- **Code that is executed stays.** If the call is not a success, the database
    is as it was, but for the code that was deployed on it. In any case the
    account has that code afterwards, whatever the code did: it may call itself,
    destroy itself, create contracts and send its balance away. No other code
    that is deployed has the same hash. -/
theorem execute_keeps_code (code input : Bytes) (caller target : Address) (value : Word)
    (gasLimit : Nat) (block : BlockEnv) (db : Database)
    (hhash : code.isEmpty = false →
      keccak256 code ≠ emptyCodeHash ∧ (keccak256 code).isZero = false)
    (hdistinct : Set.InjOn keccak256
      {c | c ∈ code :: Engine.deployments ⟨caller, .call target, value, input, gasLimit, []⟩
        (Engine.forExecution code caller target block db)}) :
    let db' := if code.isEmpty then db else (db.deploy target code).2
    let ran := execute code input caller target value gasLimit block db
    (ran.1.success = false → ran.2 = db') ∧
      (code.isEmpty = false → ran.2.codeAt target = code) := by
  intro db' ran
  have hran : ran = _ := execute_eq code input caller target value gasLimit block db hhash
  unfold Engine.forExecution at hdistinct hran
  cases hcode : code.isEmpty with
  | true =>
    rw [hcode] at hran
    refine ⟨fun hfails => ?_, nofun⟩
    simp only [hran] at hfails ⊢
    simp only [db', hcode]
    exact Engine.failed_transaction_database hfails
  | false =>
    obtain ⟨hne, hzero⟩ := hhash hcode
    have hfull : (db.withCode target code).hasCode = true := by
      simp [Account.hasCode, Database.withCode, hne, hzero]
    have hstored : (db.deploy target code).2.accounts[target]? =
        some (db.withCode target code) := by
      rw [db.deploy_eq target code hcode, Std.ExtTreeMap.getElem?_insert_self]
    have hseen : (deployed db target code).presentAccount target =
        .ok (some (db.withCode target code)) := by
      unfold presentAccount deployed
      rw [Std.ExtTreeMap.getElem?_insert_self]
    simp only [hcode, Bool.false_eq_true, if_false, Engine.installCode_new _ _ _ _ hcode hfull]
      at hran hdistinct
    have hother : ∀ c' ∈ Engine.deployments _ _, c'.isEmpty = false →
        keccak256 c' = keccak256 code → c' = code :=
      fun c' hc' _ hsame =>
        hdistinct (List.mem_cons_of_mem _ hc') List.mem_cons_self hsame
    have hholds : Holds (db.withCode target code).codeHash code (deployed db target code) :=
      deployed_holds db target hcode hne
    have hkept := Engine.transact_keeps_code rfl (deployed_accurate db target hcode) rfl rfl hseen
      hstored hfull hholds hother
    refine ⟨fun hfails => ?_, fun _ => ?_⟩
    · rw [hran] at hfails ⊢
      simp only [db', hcode]
      exact Engine.failed_transaction_database hfails
    · rw [hran]
      exact hkept

/-- Code that destroys itself in favour of another account, which gets its five
    coins; and the same code with too little gas. -/
theorem execute_keeps_code_destroyed :
    let code : Bytes := ⟨#[0x60, 55, 0xff]⟩
    let target : Address := .ofNat 77
    let db := Database.empty.setBalance target 5
    let run (gasLimit : Nat) :=
      execute code ByteArray.empty (.ofNat 3) target 0 gasLimit .default db
    (run 100000).1.success = true ∧ (run 100000).2.codeAt target = code ∧
      (run 100000).2.accounts[target]?.map Account.balance = some 0 ∧
      (run 100).1.success = false ∧ (run 100).2 = (db.deploy target code).2 := by
  intro code target db run
  let deployed (gasLimit : Nat) : List Bytes :=
    Engine.deployments ⟨.ofNat 3, .call target, 0, ByteArray.empty, gasLimit, []⟩
      (Engine.forExecution code (.ofNat 3) target .default db)
  obtain ⟨hne, hzero, hnone, hsucceeds, hbalance, hnone', hfails⟩ :
      keccak256 code ≠ emptyCodeHash ∧ (keccak256 code).isZero = false ∧
        (deployed 100000).isEmpty = true ∧ (run 100000).1.success = true ∧
        (run 100000).2.accounts[target]?.map Account.balance = some 0 ∧
        (deployed 100).isEmpty = true ∧ (run 100).1.success = false := by decide +kernel
  have hkeeps : ∀ gasLimit, (deployed gasLimit).isEmpty = true →
      ((run gasLimit).1.success = false → (run gasLimit).2 = (db.deploy target code).2) ∧
        (run gasLimit).2.codeAt target = code := by
    intro gasLimit hdeployed
    have hdistinct : Set.InjOn keccak256 {c | c ∈ code :: deployed gasLimit} := by
      rw [List.isEmpty_iff.mp hdeployed]
      simp
    obtain ⟨hfailure, hcode⟩ := execute_keeps_code code ByteArray.empty (.ofNat 3) target 0
      gasLimit .default db (fun _ => ⟨hne, hzero⟩) hdistinct
    exact ⟨hfailure, hcode rfl⟩
  exact ⟨hsucceeds, (hkeeps 100000 hnone).2, hbalance, hfails, (hkeeps 100 hnone').1 hfails⟩

end Evm
