import Evm.Proofs.Engine.Recached
import Evm.Proofs.Engine.Warmth
import Evm.Proofs.Journal.Settlement
import Evm.State.Database

/-! # Engines at rest

    What is accessed, logged or stored for one transaction alone is dropped when
    a transaction ends, not when the next one starts. A call or creation of its
    own does not end anything: what it leaves pending is still there when a
    transaction starts afterwards (`transact_after_call`).

    An engine is at rest where nothing of that kind is pending
    (`Journal.AtRest`). It is so when it is new, after every transaction that
    pays for its envelope and every code that was installed, and stays so with
    whatever does not leave anything pending (`Concluded`). From there a
    transaction starts with what it declares and nothing else, and what ran
    before shows only in accounts, slots and codes (`transaction_from_rest`).
-/

namespace Evm

open Journal

variable {β : Type} [Backend β]

/-! ## States -/

/-- An edit that logs nothing and is not of transient storage. -/
def Edit.Silent (edit : Edit) : Prop := edit.part ≠ .logs ∧ edit.part ≠ .transient

/-- An edit of what outlives a transaction: accounts, slots and codes. -/
structure Edit.Lasts (edit : Edit) : Prop where
  sparesWarmth : edit.SparesWarmth
  silent : edit.Silent
  created : edit.part ≠ .created
  destroyed : edit.part ≠ .destroyed

theorem Edit.Lasts.of_deploys {a : Address} {edit : Edit} (h : edit.Deploys a) : edit.Lasts := by
  cases edit <;> first | exact h.elim | exact ⟨⟨nofun, nofun⟩, ⟨nofun, nofun⟩, nofun, nofun⟩

theorem Transaction.Prepares.silent {tx : Transaction} {edit : Edit} (h : tx.Prepares edit) :
    edit.Silent := by
  cases edit <;> first | exact h.elim | exact ⟨nofun, nofun⟩

theorem CallMessage.opens_silent {message : CallMessage} {edit : Edit} (h : message.Opens edit) :
    edit.Silent := by
  cases edit <;> first | exact h.elim | exact ⟨nofun, nofun⟩

theorem CreateMessage.counts_silent {message : CreateMessage} {edit : Edit}
    (h : message.Counts edit) : edit.Silent := by
  cases edit <;> first | exact h.elim | exact ⟨nofun, nofun⟩

theorem CreateMessage.opens_silent {message : CreateMessage} {address : Address} {edit : Edit}
    (h : message.Opens address edit) : edit.Silent := by
  cases edit <;> first | exact h.elim | exact ⟨nofun, nofun⟩

namespace Journal

omit [Backend β] in
/-- Nothing is pending of what lasts for one transaction. -/
structure AtRest (j : Journal β) : Prop where
  warmAddresses : j.warmAddresses = ∅
  warmSlots : j.warmSlots = ∅
  logs : j.logs = []
  transient : j.transient = .empty
  created : j.created = ∅
  destroyed : j.destroyed = ∅

omit [Backend β] in
/-- What a transaction starts with: exactly what is declared is warm, and there
    are no logs and no transient storage. -/
structure Begins (declared : AccessKey → Prop) (j : Journal β) : Prop where
  warm : ∀ key, j.IsWarm key ↔ declared key
  logs : j.logs = []
  transient : j.transient = .empty

variable {j j' : Journal β}

theorem Changes.silent (h : Changes Edit.Silent j j') :
    j'.logs = j.logs ∧ j'.transient = j.transient :=
  ⟨h.same (p := .logs) fun _ hedit => hedit.1, h.same (p := .transient) fun _ hedit => hedit.2⟩

namespace AtRest

omit [Backend β] in
theorem ofBackend (store : β) : (Journal.ofBackend store).AtRest := ⟨rfl, rfl, rfl, rfl, rfl, rfl⟩

omit [Backend β] in
theorem endTransaction (j : Journal β) : j.endTransaction.2.AtRest := ⟨rfl, rfl, rfl, rfl, rfl, rfl⟩

omit [Backend β] in
theorem not_warm (h : j.AtRest) (key : AccessKey) : ¬j.IsWarm key := by
  cases key with
  | account a =>
    show ¬a ∈ j.warmAddresses
    rw [h.warmAddresses]
    exact Std.ExtTreeSet.not_mem_empty
  | slot s =>
    show ¬s ∈ j.warmSlots
    rw [h.warmSlots]
    exact Std.ExtTreeSet.not_mem_empty

/-- Changes of what outlives a transaction leave a state at rest. -/
theorem changes (h : j.AtRest) (hchanges : Changes Edit.Lasts j j') : j'.AtRest where
  warmAddresses := Eq.trans
    (hchanges.same (p := .warmAddresses) fun _ hedit => hedit.sparesWarmth.1) h.warmAddresses
  warmSlots := Eq.trans
    (hchanges.same (p := .warmSlots) fun _ hedit => hedit.sparesWarmth.2) h.warmSlots
  logs := Eq.trans (hchanges.same (p := .logs) fun _ hedit => hedit.silent.1) h.logs
  transient := Eq.trans (hchanges.same (p := .transient) fun _ hedit => hedit.silent.2) h.transient
  created := Eq.trans (hchanges.same (p := .created) fun _ hedit => hedit.created) h.created
  destroyed := Eq.trans (hchanges.same (p := .destroyed) fun _ hedit => hedit.destroyed) h.destroyed

theorem restored (h : j.AtRest) (hrestored : Restored j j') : j'.AtRest where
  warmAddresses := hrestored.warmAddresses.trans h.warmAddresses
  warmSlots := hrestored.warmSlots.trans h.warmSlots
  logs := hrestored.logs.trans h.logs
  transient := hrestored.transient.trans h.transient
  created := hrestored.created.trans h.created
  destroyed := hrestored.destroyed.trans h.destroyed

/-- A settlement leaves a state at rest also where it is refused. -/
theorem settle (h : j.AtRest) : (endState (Journal.settle j)).AtRest := by
  obtain ⟨backend, accounts, slots, hstores | hends⟩ := Journal.settle_ends j
  · rw [hstores]
    exact { h with }
  · rw [hends]
    exact .endTransaction _

end AtRest

/-- After a settlement that succeeds nothing is pending, whatever was before. -/
theorem settle_rests {logs : List Log} (h : settle j = .ok logs j') : j'.AtRest := by
  obtain ⟨_, _, _, h⟩ := bind_ok h
  obtain ⟨_, _, _, h⟩ := bind_ok h
  obtain ⟨_, _, _, h⟩ := bind_ok h
  obtain ⟨_, _, _, h⟩ := bind_ok h
  obtain ⟨_, j1, _, h⟩ := bind_ok h
  cases h
  exact .endTransaction j1

end Journal

/-! ## Engines -/

namespace Engine

variable {first e f : Engine β}

/-- A transaction that pays for its envelope leaves nothing pending, whatever was
    pending before. -/
theorem transact_rests {tx : Transaction} (hpaid : intrinsicGas e.config tx ≤ tx.gasLimit) :
    (transact tx e).2.journal.AtRest := by
  have htransacted := transact_spec tx e
  generalize (transact tx e).2 = e' at htransacted
  cases htransacted with
  | rejected hgas => omega
  | unprepared _ => exact .endTransaction _
  | ran _ _ hfinished =>
    cases hfinished with
    | discarded _ => exact .endTransaction _
    | settled _ hsettle => exact settle_rests hsettle
    | refused _ _ => exact .endTransaction _

/-- So does code that was installed. -/
theorem installCode_rests {a : Address} {code : Bytes} {hash : Hash}
    (h : (installCode a code e).1 = .ok hash) : (installCode a code e).2.journal.AtRest := by
  unfold installCode at h ⊢
  rw [state_bind_apply] at h ⊢
  cases hinstall : (do
      let hash ← Journal.setCode a code
      let _ ← Journal.settle
      return hash : JournalM β Hash) e.journal with
  | error err j =>
    rw [attempt_error hinstall] at h
    cases h
  | ok hash' j =>
    rw [attempt_ok hinstall]
    obtain ⟨_, _, _, hrest⟩ := bind_ok hinstall
    obtain ⟨logs, _, hsettle, hdone⟩ := bind_ok hrest
    cases hdone
    exact settle_rests hsettle

/-- Engines that come out of sessions with nothing left pending: the last thing
    that could leave something pending was ended by a transaction or by code that
    was installed. -/
inductive Concluded (first : Engine β) : Engine β → Prop where
  | start : Concluded first first
  /-- Whatever ran before, a transaction that pays for its envelope ends it. -/
  | transacted {e : Engine β} (tx : Transaction) :
    Session first e → intrinsicGas e.config tx ≤ tx.gasLimit → Concluded first (transact tx e).2
  | transact {e : Engine β} (tx : Transaction) :
    Concluded first e → Concluded first (transact tx e).2
  /-- A call that fails leaves nothing behind. -/
  | failedCall {e : Engine β} (message : CallMessage) :
    Concluded first e → (call message e).1.isSuccess = false → Concluded first (call message e).2
  /-- So does code that could be installed. -/
  | installed {e : Engine β} (a : Address) (code : Bytes) {hash : Hash} :
    Session first e → (installCode a code e).1 = .ok hash →
    Concluded first (installCode a code e).2
  | installCode {e : Engine β} (a : Address) (code : Bytes) :
    Concluded first e → Concluded first (installCode a code e).2
  | setEnv {e : Engine β} (env : Environment) :
    Concluded first e → Concluded first { e with env }

namespace Concluded

theorem session (h : Concluded first e) : Session first e := by
  induction h with
  | start => exact .start
  | transacted tx hsession _ => exact .transact tx hsession
  | transact tx _ ih => exact .transact tx ih
  | failedCall message _ _ ih => exact .perform (.call message) ih
  | installed a code hsession _ => exact .installCode a code hsession
  | installCode a code _ ih => exact .installCode a code ih
  | setEnv env _ ih => exact .setEnv env ih

/-- **Such an engine is at rest**, if the first one was. -/
theorem atRest (hfirst : first.journal.AtRest) (h : Concluded first e) : e.journal.AtRest := by
  induction h with
  | start => exact hfirst
  | transacted tx _ hpaid => exact transact_rests hpaid
  | @transact e tx _ ih =>
    by_cases hpaid : intrinsicGas e.config tx ≤ tx.gasLimit
    · exact transact_rests hpaid
    · rw [transact_eq, if_pos (Nat.lt_of_not_le hpaid)]
      exact ih
  | @failedCall e message _ hfailure ih =>
    have hkeeps : Undoable fun _ : Journal β => True := fun _ _ _ _ _ _ _ => trivial
    have hrestored : Restored e.journal (call message e).2.journal := (call_keeps hkeeps trivial
      (fun _ _ _ _ _ _ => trivial) fun _ _ _ _ _ _ _ _ => trivial).2 hfailure
    exact ih.restored hrestored
  | installed a code _ hok => exact installCode_rests hok
  | @installCode e a code _ ih =>
    obtain ⟨j, hinstalled, hspec⟩ := installCode_spec a code e
    have hdeploys : Edits (Edit.Deploys a) (Journal.setCode a code : JournalM β Hash) :=
      setCode_edits trivial (fun _ => trivial) (fun _ => trivial) fun hash _ => ⟨rfl, hash, rfl⟩
    have hset := ih.changes ((hdeploys e.journal).mono fun _ => .of_deploys)
    rw [hinstalled]
    cases hspec with
    | ungiven herror =>
      rw [herror] at hset
      exact hset
    | given hok =>
      rw [hok] at hset
      exact hset.settle
  | setEnv env _ ih => exact ih

end Concluded

/-- Two engines hold the same accounts, slots and codes, written or yet to be
    written, and are set up in the same way. -/
structure HoldsSame (e f : Engine β) : Prop where
  backend : e.journal.backend = f.journal.backend
  accounts : e.journal.accounts = f.journal.accounts
  slots : e.journal.slots = f.journal.slots
  codes : e.journal.codes = f.journal.codes
  newCode : e.journal.newCode = f.journal.newCode
  entries : e.journal.entries = f.journal.entries
  env : e.env = f.env
  config : e.config = f.config
  precompiles : e.precompiles = f.precompiles

omit [Backend β] in
/-- What is cached of analyses is none of that. -/
theorem HoldsSame.recached (e : Engine β) (codeCache : CodeCache) :
    HoldsSame e { e with codeCache } :=
  ⟨rfl, rfl, rfl, rfl, rfl, rfl, rfl, rfl, rfl⟩

omit [Backend β] in
/-- At rest there is nothing else to a state. -/
theorem HoldsSame.journal (h : HoldsSame e f) (he : e.journal.AtRest) (hf : f.journal.AtRest) :
    e.journal = f.journal := by
  obtain ⟨⟨_, _, _, _, _, _, _, _, _, _, _, _⟩, _, _, _, _⟩ := e
  obtain ⟨⟨_, _, _, _, _, _, _, _, _, _, _, _⟩, _, _, _, _⟩ := f
  obtain ⟨rfl, rfl, rfl, rfl, rfl, rfl, _, _, _⟩ := h
  obtain ⟨rfl, rfl, rfl, rfl, rfl, rfl⟩ := he
  obtain ⟨rfl, rfl, rfl, rfl, rfl, rfl⟩ := hf
  rfl

end Engine

/-! ## Transactions -/

/-- A transaction starts afresh: when it comes to its request, and when the first
    frame of that starts, exactly what it declares is warm, besides the address
    that its own creation derives, and nothing is logged or stored in transient
    storage. -/
structure Transaction.StartsAfresh (tx : Transaction) (e : Engine β) : Prop where
  prepared : ∀ e', Engine.prepare tx e = (.ok (), e') → e'.journal.Begins (tx.Declares e)
  started : ∀ e' act e'', Engine.prepare tx e = (.ok (), e') →
    (tx.request (tx.gasLimit - Engine.intrinsicGas e.config tx)).start e' = (.run act, e'') →
    e''.journal.Begins fun key => tx.Declares e key ∨
      key ∈ ((tx.request (tx.gasLimit - Engine.intrinsicGas e.config tx)).claims e').map .account

namespace Engine

variable {first e : Engine β}

/-- Opening a frame logs nothing and leaves transient storage alone. -/
theorem start_silent {request : Request} {e' : Engine β} {act : Activation}
    (h : request.start e = (.run act, e')) : Changes Edit.Silent e.journal e'.journal := by
  cases request with
  | call message =>
    have hspec := startCall_spec message e
    rw [show startCall message e = (.run act, e') from h] at hspec
    cases hspec with
    | opened hchanges => exact hchanges.mono fun _ => CallMessage.opens_silent
  | create message =>
    have hspec := startCreate_spec message e
    rw [show startCreate message e = (.run act, e') from h] at hspec
    cases hspec with
    | opened hcounted hchanges =>
      exact (hcounted.changes.mono fun _ => CreateMessage.counts_silent).trans
        (hchanges.mono fun _ => CreateMessage.opens_silent)

/-- A transaction on an engine at rest. -/
theorem startsAfresh (he : e.journal.AtRest) (tx : Transaction) : tx.StartsAfresh e := by
  have hprepared : ∀ e', prepare tx e = (.ok (), e') → e'.journal.Begins (tx.Declares e) := by
    intro e' hprepare
    have hwarm := prepare_isWarm tx e
    have hsilent := ((prepare_changes tx e).mono fun _ hedit => hedit.silent).silent
    rw [hprepare] at hwarm hsilent
    refine ⟨fun key => ?_, hsilent.1.trans he.logs, hsilent.2.trans he.transient⟩
    rw [hwarm, or_iff_right (he.not_warm key)]
  refine ⟨hprepared, fun e' act e'' hprepare hstart => ?_⟩
  have hbegins := hprepared e' hprepare
  have hsilent := (start_silent hstart).silent
  have hopened :=
    (tx.request (tx.gasLimit - intrinsicGas e.config tx)).start_isWarm e'
  rw [hstart] at hopened
  cases hopened with
  | run _ _ _ _ hwarm _ =>
    refine ⟨fun key => ?_, hsilent.1.trans hbegins.logs, hsilent.2.trans hbegins.transient⟩
    rw [hwarm, hbegins.warm]

/-- **From rest a transaction starts afresh**, and it has the result that it has
    on every other engine at rest that holds the same accounts, slots and codes.
    What is cached of codes has to be of the codes of their hashes. -/
theorem transaction_from_rest {store : β} (hnew : first.journal = .ofBackend store)
    (h : Concluded first e) (tx : Transaction) :
    tx.StartsAfresh e ∧
      ∀ (f : Engine β) (known : Hash → Option Bytes), f.journal.AtRest → HoldsSame e f →
        e.codeCache.Analyzes known → f.codeCache.Analyzes known → Knows known e.journal →
        Vouches known (deployments tx e) →
        (transact tx e).1 = (transact tx f).1 ∧
          (transact tx e).2.journal = (transact tx f).2.journal := by
  have hfirst : first.journal.AtRest := by
    rw [hnew]
    exact .ofBackend store
  have he := h.atRest hfirst
  refine ⟨startsAfresh he tx, fun f known hf hsame hleft hright hknows hvouched => ?_⟩
  have hinterchangeable : Interchangeable known e f :=
    { journal := hsame.journal he hf, env := hsame.env, config := hsame.config,
      precompiles := hsame.precompiles, left := hleft, right := hright, knows := hknows }
  obtain ⟨hresult, hafter⟩ := hinterchangeable.transact hvouched
  exact ⟨hresult, hafter.journal⟩

/-- A call leaves things pending, a transaction ends them, and the next one starts
    afresh. It has the same result on an engine that has no analyses cached. -/
theorem transaction_from_rest_again :
    let probing : Bytes := ⟨#[0x60, 0, 0x5c, 0x60, 0, 0x52, 0x60, 1, 0x60, 0, 0x5d, 0x60, 0, 0x60,
      0, 0xa0, 0x61, 0x20, 0, 0x31, 0x50, 0x60, 0x20, 0x60, 0, 0xf3]⟩
    let db : Database :=
      { Database.empty with
        accounts := Std.ExtTreeMap.empty.insert (.ofNat 77) ⟨0, 0, ⟨1⟩⟩
        code := Std.ExtTreeMap.empty.insert ⟨1⟩ probing }
    let message : CallMessage := ⟨.call, .ofNat 3, .ofNat 77, .ofNat 77, .transfer 0,
      ByteArray.empty, 100000, false, 0⟩
    let tx : Transaction := ⟨.ofNat 3, .call (.ofNat 77), 0, ByteArray.empty, 100000, []⟩
    let first := Engine.new db .default (.ofHardfork .cancun)
    let e := (transact tx (call message first).2).2
    Concluded first e ∧ tx.StartsAfresh e ∧
      (transact tx e).1 = (transact tx { e with codeCache := .empty }).1 := by
  intro probing db message tx first e
  have hcalled : Session first (call message first).2 := .perform (.call message) .start
  have hpaid : intrinsicGas (call message first).2.config tx ≤ tx.gasLimit := by
    rw [hcalled.config]
    decide
  have hconcluded : Concluded first e := .transacted tx hcalled hpaid
  have hnew : first.journal = .ofBackend db := rfl
  obtain ⟨hafresh, hsame⟩ := transaction_from_rest hnew hconcluded tx
  refine ⟨hconcluded, hafresh, ?_⟩
  -- all codes that are anywhere are the one under its hash
  let known (hash : Hash) : Option Bytes := if hash = ⟨1⟩ then some probing else none
  have honly : ∀ {α : Type} {entries : Std.ExtTreeMap Hash α compare} {v : α},
      entries.keys = [⟨1⟩] → entries[(⟨1⟩ : Hash)]? = some v →
      ∀ (hash : Hash) (w : α), entries[hash]? = some w → hash = ⟨1⟩ ∧ w = v := by
    intro α entries v hkeys hv hash w hw
    have hmem : hash ∈ entries.keys := by
      rw [Std.ExtTreeMap.mem_keys, Std.ExtTreeMap.mem_iff_isSome_getElem?, hw]
      rfl
    rw [hkeys, List.mem_singleton] at hmem
    subst hmem
    rw [hv] at hw
    exact ⟨rfl, (Option.some.inj hw).symm⟩
  obtain ⟨hcached, hstored, hanalyzed, hdeploys⟩ :
      (e.journal.codes.keys = [⟨1⟩] ∧ e.journal.codes[(⟨1⟩ : Hash)]? = some probing) ∧
      (e.journal.backend.code.keys = [⟨1⟩] ∧
        e.journal.backend.code[(⟨1⟩ : Hash)]? = some probing) ∧
      (e.codeCache.entries.keys = [⟨1⟩] ∧
        e.codeCache.entries[(⟨1⟩ : Hash)]? = some (.analyze probing)) ∧
      deployments tx e = [] := by
    decide +kernel
  have hrest : e.journal.AtRest := hconcluded.atRest (.ofBackend db)
  clear_value e
  have hnone : CodeCache.empty.Analyzes known := fun hash dests hdests => nomatch hdests
  refine (hsame { e with codeCache := .empty } known hrest (.recached e .empty) ?_ hnone
    ⟨?_, ?_⟩ ?_).1
  · intro hash dests hdests
    obtain ⟨hhash, hdests⟩ := honly hanalyzed.1 hanalyzed.2 hash dests hdests
    exact ⟨probing, if_pos hhash, hdests⟩
  · intro hash c _ hc
    obtain ⟨hhash, rfl⟩ := honly hcached.1 hcached.2 hash c hc
    exact if_pos hhash
  · intro hash c hne hc
    have hfound : (if hash = emptyCodeHash then some ByteArray.empty
        else e.journal.backend.code[hash]?) = some c := Except.ok.inj hc
    rw [if_neg hne] at hfound
    obtain ⟨hhash, rfl⟩ := honly hstored.1 hstored.2 hash c hfound
    exact if_pos hhash
  · intro c hc
    rw [hdeploys] at hc
    cases hc

/-- **A call leaves things pending that the next transaction finds**: an address
    that it does not declare is warm, a log and a value in transient storage are
    there. They show in its gas, its logs and its output, which on a new engine
    over the same store are others. -/
theorem transact_after_call :
    let probing : Bytes := ⟨#[0x60, 0, 0x5c, 0x60, 0, 0x52, 0x60, 1, 0x60, 0, 0x5d, 0x60, 0, 0x60,
      0, 0xa0, 0x61, 0x20, 0, 0x31, 0x50, 0x60, 0x20, 0x60, 0, 0xf3]⟩
    let db : Database :=
      { Database.empty with
        accounts := Std.ExtTreeMap.empty.insert (.ofNat 77) ⟨0, 0, ⟨1⟩⟩
        code := Std.ExtTreeMap.empty.insert ⟨1⟩ probing }
    let message : CallMessage := ⟨.call, .ofNat 3, .ofNat 77, .ofNat 77, .transfer 0,
      ByteArray.empty, 100000, false, 0⟩
    let tx : Transaction := ⟨.ofNat 3, .call (.ofNat 77), 0, ByteArray.empty, 100000, []⟩
    let first := Engine.new db .default (.ofHardfork .cancun)
    let e := (call message first).2
    Session first e ∧ intrinsicGas e.config tx ≤ tx.gasLimit ∧
      (prepare tx e).1.isOk = true ∧
      (prepare tx e).2.journal.IsWarm (.account (.ofNat 0x2000)) ∧
      ¬tx.Declares e (.account (.ofNat 0x2000)) ∧
      (prepare tx e).2.journal.logs.length = 1 ∧
      (prepare tx e).2.journal.tload ⟨.ofNat 77, 0⟩ = 1 ∧
      [transact tx e, transact tx first].map
        (fun out => (out.1.gasUsed, out.1.logs.length, Word.ofBytesAt out.1.output 0)) =
          [(710, 2, 1), (3210, 1, 0)] := by
  intro probing db message tx first e
  have hcalled : Session first e := .perform (.call message) .start
  refine ⟨hcalled, ?_⟩
  unfold IsWarm Transaction.Declares
  decide +kernel

end Engine

end Evm
