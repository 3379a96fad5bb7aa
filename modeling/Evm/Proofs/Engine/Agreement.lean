import Evm.Proofs.Containers
import Evm.Proofs.Engine.Preparation
import Evm.Proofs.Frame.Lockstep

/-! # Engines that do the same

    An engine is related to another one if what they differ in does not show:
    what is cached, or where the store keeps things. What has to be known of
    such a relation is said once, operation by operation of the state
    (`EnginesAgree`). From it follows all the rest: related engines answer alike
    as hosts, they open calls and creations and close frames in the same way,
    and they prepare transactions alike.

    Two things depend on what the relation is. An account may be created only at
    an address that is free for it, and code may be deployed only if it is the
    one that is known under its hash.
-/

namespace Evm

open Journal

/-! ## Cached analyses -/

/-- The analyses in a cache are of the codes that their hashes are of. -/
def CodeCache.Analyzes (known : Hash → Option Bytes) (cache : CodeCache) : Prop :=
  ∀ (hash : Hash) (dests : JumpDests), cache.entries[hash]? = some dests →
    ∃ c, known hash = some c ∧ dests = .analyze c

/-- So an analysis is that of the code, whether it was cached or not. -/
theorem CodeCache.Analyzes.getOrAnalyze {known : Hash → Option Bytes} {cache : CodeCache}
    (h : cache.Analyzes known) {hash : Hash} {c : Bytes} (hc : known hash = some c) :
    (cache.getOrAnalyze hash c).1 = .analyze c ∧
      (cache.getOrAnalyze hash c).2.Analyzes known := by
  unfold CodeCache.getOrAnalyze
  cases hentry : cache.entries[hash]? with
  | some dests =>
    obtain ⟨c', hc', rfl⟩ := h hash dests hentry
    rw [hc] at hc'
    cases hc'
    exact ⟨rfl, h⟩
  | none =>
    refine ⟨rfl, fun hash' dests hdests => ?_⟩
    rcases getElem?_insert_eq_some _ hdests with ⟨rfl, rfl⟩ | hbefore
    · exact ⟨c, hc, rfl⟩
    · exact h hash' dests hbefore

namespace Engine

variable {β γ α δ : Type} {R : Engine β → Engine γ → Prop}

/-! ## Operations of the state -/

/-- Two operations of the state that cannot be told apart on related engines, and
    leave them related. -/
def Tied (R : Engine β → Engine γ → Prop) (op : JournalM β α) (op' : JournalM γ α) : Prop :=
  ∀ e f, R e f →
    Matches (fun j k => R { e with journal := j } { f with journal := k }) (op e.journal)
      (op' f.journal)

/-- Two changes of the state that leave engines related. -/
def Marks (R : Engine β → Engine γ → Prop) (mark : Journal β → Journal β)
    (mark' : Journal γ → Journal γ) : Prop :=
  ∀ e f, R e f → R (modifyState mark e) (modifyState mark' f)

namespace Tied

variable {op : JournalM β α} {op' : JournalM γ α}

/-- What comes of the operations may be put in another form. -/
theorem map (h : Tied R op op') (f : α → δ) :
    Tied R (do let a ← op; pure (f a)) (do let a ← op'; pure (f a)) := by
  intro e e' hR
  have hop := h e e' hR
  rw [bind_apply, bind_apply]
  generalize op e.journal = result, op' e'.journal = result' at hop
  cases hop with
  | ok a hleft => exact .ok _ hleft
  | error err hleft => exact .error err hleft

/-- The operations on behalf of a frame. -/
theorem onState (h : Tied R op op') : Lockstep R (onState op) (onState op') := by
  intro e f hR
  have hop := h e f hR
  unfold Engine.onState
  generalize op e.journal = result, op' f.journal = result' at hop
  cases hop with
  | ok a hleft => exact .ok a hleft
  | error err hleft => exact .error _ hleft

/-- The operations with their failures told. -/
theorem attempt (h : Tied R op op') :
    Parallel R (fun _ => True) (attempt op) (attempt op') := by
  intro e f hR
  have hop := h e f hR
  unfold Engine.attempt
  generalize op e.journal = result, op' f.journal = result' at hop
  cases hop with
  | ok a hleft => exact ⟨rfl, hleft, trivial⟩
  | error err hleft => exact ⟨rfl, hleft, trivial⟩

/-- An attempt whose success tells something of its result. -/
theorem attempt_post (h : Tied R op op') {post : α → Prop}
    (hpost : ∀ e f a j, R e f → op e.journal = .ok a j → post a) :
    Parallel R (fun result => ∀ a, result = .ok a → post a) (Engine.attempt op)
      (Engine.attempt op') := by
  intro e f hR
  obtain ⟨hsame, hleft, _⟩ := h.attempt e f hR
  refine ⟨hsame, hleft, ?_⟩
  intro a hresult
  unfold Engine.attempt at hresult
  split at hresult
  · next hok =>
    cases hresult
    exact hpost e f a _ hR hok
  · cases hresult

end Tied

/-- Look a code up in the cache of analyses, or analyze it. -/
def analyze (hash : Hash) (code : Bytes) : StateM (Engine β) JumpDests :=
  modifyGet fun engine => ((engine.codeCache.getOrAnalyze hash code).1,
    { engine with codeCache := (engine.codeCache.getOrAnalyze hash code).2 })

end Engine

/-- Two kinds of engines do the same where they are related, and stay related. -/
structure EnginesAgree {β γ : Type} [Backend β] [Backend γ] (R : Engine β → Engine γ → Prop)
    (known : Hash → Bytes → Prop) (free : Address → Prop) : Prop where
  env : ∀ e f, R e f → e.env = f.env
  config : ∀ e f, R e f → e.config = f.config
  precompiles : ∀ e f, R e f → e.precompiles = f.precompiles
  checkpoint : ∀ e f, R e f → e.journal.checkpoint = f.journal.checkpoint
  isDestroyed : ∀ a e f, R e f → e.journal.isDestroyed a = f.journal.isDestroyed a
  tload : ∀ s e f, R e f → e.journal.tload s = f.journal.tload s
  isCold : ∀ a e f, R e f → (e.journal.warmAddress a).1 = (f.journal.warmAddress a).1
  isColdSlot : ∀ s e f, R e f → (e.journal.warmSlot s).1 = (f.journal.warmSlot s).1
  warmAddress : ∀ a, Engine.Marks R (fun j => (j.warmAddress a).2) (fun k => (k.warmAddress a).2)
  warmSlot : ∀ s, Engine.Marks R (fun j => (j.warmSlot s).2) (fun k => (k.warmSlot s).2)
  tstore : ∀ s value, Engine.Marks R (·.tstore s value) (·.tstore s value)
  addLog : ∀ entry, Engine.Marks R (·.addLog entry) (·.addLog entry)
  revert : ∀ c, Engine.Marks R (·.revert c) (·.revert c)
  markCreated : ∀ a, free a → Engine.Marks R (·.markCreated a) (·.markCreated a)
  account : ∀ a, Engine.Tied R (Journal.account a) (Journal.account a)
  isEmpty : ∀ a, Engine.Tied R (Journal.isEmpty a) (Journal.isEmpty a)
  balance : ∀ a, Engine.Tied R (Journal.balance a) (Journal.balance a)
  code : ∀ a, Engine.Tied R (Journal.code a) (Journal.code a)
  blockHash : ∀ n, Engine.Tied R (Journal.blockHash n) (Journal.blockHash n)
  storage : ∀ s, Engine.Tied R (Journal.storage s) (Journal.storage s)
  slot : ∀ s, Engine.Tied R (Journal.slot s) (Journal.slot s)
  setStorage : ∀ s value, Engine.Tied R (Journal.setStorage s value) (Journal.setStorage s value)
  transfer : ∀ a b amount,
    Engine.Tied R (Journal.transfer a b amount) (Journal.transfer a b amount)
  incrementNonce : ∀ a, Engine.Tied R (Journal.incrementNonce a) (Journal.incrementNonce a)
  endow : ∀ message a, Engine.Tied R (Engine.endow message a) (Engine.endow message a)
  setCode : ∀ a c, free a → (c.isEmpty = false → known (keccak256 c) c) →
    Engine.Tied R (Journal.setCode a c) (Journal.setCode a c)
  scheduleDeletion : ∀ a, Lockstep R (Engine.scheduleDeletion a : HostM (Engine β) Unit)
    (Engine.scheduleDeletion a)
  analyze : ∀ hash c, known hash c →
    Parallel R (fun _ => True) (Engine.analyze hash c) (Engine.analyze hash c)
  /-- Code that is read is known as that of its hash. -/
  knownCode : ∀ a e f found j, R e f → Journal.code a e.journal = .ok found j →
    found.1.isEmpty = false → known found.2 found.1
  /-- An address is free if no account is seen there. -/
  untaken : ∀ a e f account j, R e f → Journal.account a e.journal = .ok account j →
    Engine.isTaken account = false → free a

/-- If a frame creates an account, it is one at a free address. -/
def FrameKind.Clear (free : Address → Prop) : FrameKind → Prop
  | .call _ => True
  | .create _ address => free address

/-- The same of what became of a request. -/
def FrameStart.Clear (free : Address → Prop) : FrameStart → Prop
  | .done _ => True
  | .run activation => activation.kind.Clear free

/-- Each of the codes may be known by its hash, as far as it is not empty. -/
def AllKnown (known : Hash → Bytes → Prop) (codes : List Bytes) : Prop :=
  ∀ c ∈ codes, c.isEmpty = false → known (keccak256 c) c

/-- Each of the codes is the one of its hash, as far as it is not empty. -/
def Vouches (known : Hash → Option Bytes) (codes : List Bytes) : Prop :=
  ∀ c ∈ codes, c.isEmpty = false → known (keccak256 c) = some c

namespace EnginesAgree

variable {β γ : Type} [Backend β] [Backend γ] {R : Engine β → Engine γ → Prop}
  {known : Hash → Bytes → Prop} {free : Address → Prop} (agree : EnginesAgree R known free)

include agree

/-! ## As hosts -/

theorem touch (a : Address) :
    Lockstep R (Engine.touch a : HostM (Engine β) Bool) (Engine.touch a) := by
  intro e f hR
  rw [Engine.HostEdits.touch_apply, Engine.HostEdits.touch_apply, agree.isCold a e f hR]
  exact .ok _ (agree.warmAddress a e f hR)

theorem touchSlot (s : Slot) :
    Lockstep R (Engine.touchSlot s : HostM (Engine β) Bool) (Engine.touchSlot s) := by
  intro e f hR
  rw [Engine.HostEdits.touchSlot_apply, Engine.HostEdits.touchSlot_apply,
    agree.isColdSlot s e f hR]
  exact .ok _ (agree.warmSlot s e f hR)

theorem destroy (address target : Address) :
    Lockstep R (Engine.destroy address target : HostM (Engine β) _)
      (Engine.destroy address target) := by
  have hsweep : ∀ balance, Lockstep R
      (Engine.sweep address target balance : HostM (Engine β) Unit)
      (Engine.sweep address target balance) :=
    fun balance => .ite (agree.transfer address target balance).onState (.pure _)
  unfold Engine.destroy
  refine (agree.touch target).bind fun _ => (agree.balance address).onState.bind fun _ => ?_
  refine (agree.isEmpty target).onState.bind fun _ => .get_bind fun e f hR => ?_
  rw [agree.isDestroyed address e f hR]
  exact ((hsweep _).bind fun _ => (agree.scheduleDeletion address).bind fun _ => .pure _) e f hR

theorem recentBlockHash (number : Word) :
    Lockstep R (Engine.recentBlockHash number : HostM (Engine β) Hash)
      (Engine.recentBlockHash number) := by
  unfold Engine.recentBlockHash
  refine .get_bind fun e f hR => ?_
  rw [agree.env e f hR]
  exact Lockstep.ite (.pure _) (agree.blockHash number.toNat).onState e f hR

/-- **As hosts they answer alike.** -/
theorem hosts : HostsAgree R where
  env := agree.env
  config := agree.config
  loadAccount a := (agree.touch a).bind fun _ => (agree.isEmpty a).onState.bind fun _ => .pure _
  balance a := (agree.touch a).bind fun _ => (agree.balance a).onState.bind fun _ => .pure _
  code a := (agree.touch a).bind fun _ => (agree.code a).onState.bind fun _ => .pure _
  codeHash a := (agree.touch a).bind fun _ => (agree.isEmpty a).onState.bind fun _ =>
    .ite (.pure _) ((agree.code a).onState.bind fun _ => .pure _)
  blockHash number := agree.recentBlockHash number
  sload s := (agree.touchSlot s).bind fun _ => (agree.storage s).onState.bind fun _ => .pure _
  sstore s value := (agree.touchSlot s).bind fun _ => (agree.slot s).onState.bind fun _ =>
    (agree.setStorage s value).onState.bind fun _ => .pure _
  tload s := by
    refine .get_bind fun e f hR => ?_
    rw [agree.tload s e f hR]
    exact .ok _ hR
  tstore s value := .modify (agree.tstore s value)
  log entry := .modify (agree.addLog entry)
  selfDestruct address target := agree.destroy address target

/-! ## Opening -/

theorem endCall (checkpoint : Checkpoint) (result : FrameResult) :
    Parallel R (fun _ => True) (Engine.endCall checkpoint result)
      (Engine.endCall checkpoint result) := by
  unfold Engine.endCall
  refine .ite (fun _ => .pure trivial) fun _ => ?_
  exact .bind (.modify (agree.revert checkpoint)) fun _ _ => .pure trivial

/-- **Calls are opened in the same way.** -/
theorem startCall (message : CallMessage) :
    Parallel R (FrameStart.Clear free) (Engine.startCall message) (Engine.startCall message) := by
  unfold Engine.startCall
  refine .get_bind fun e f hR => ?_
  rw [agree.config e f hR]
  refine .ite (fun _ => .pure trivial) fun _ => .get_bind fun e f hR => ?_
  rw [agree.checkpoint e f hR]
  refine .bind (agree.transfer _ _ _).attempt fun paid _ => ?_
  cases paid with
  | error err => exact .bind (.modify (agree.revert _)) fun _ _ => .pure trivial
  | ok u =>
    refine .get_bind fun e f hR => ?_
    rw [agree.precompiles e f hR]
    cases f.precompiles[message.codeAddress]? with
    | some precompile => exact .bind (agree.endCall _ _) fun _ _ => .pure trivial
    | none =>
      refine .bind ((agree.code message.codeAddress).attempt_post
        (agree.knownCode message.codeAddress)) fun found hfound => ?_
      cases found with
      | error err => exact .bind (agree.endCall _ _) fun _ _ => .pure trivial
      | ok found =>
        obtain ⟨c, hash⟩ := found
        refine .ite (fun _ => .bind (agree.endCall _ _) fun _ _ => .pure trivial) fun hempty => ?_
        have hc : known hash c := hfound (c, hash) rfl (Bool.eq_false_iff.mpr hempty)
        refine .bind (agree.analyze hash c hc) fun _ _ => .get_bind fun e f hR => ?_
        rw [agree.config e f hR]
        exact .pure trivial

/-- Opening the frame of a creation at a free address. -/
theorem openCreate (message : CreateMessage) {address : Address} (hfree : free address) :
    Parallel R (FrameStart.Clear free) (Engine.openCreate message address)
      (Engine.openCreate message address) := by
  unfold Engine.openCreate
  refine .get_bind fun e f hR => ?_
  rw [agree.checkpoint e f hR]
  refine .bind (.modify (agree.markCreated address hfree)) fun _ _ => ?_
  refine .bind (agree.endow message address).attempt fun paid _ => ?_
  cases paid with
  | error err => exact .bind (.modify (agree.revert _)) fun _ _ => .pure trivial
  | ok u =>
    refine .get_bind fun e f hR => ?_
    rw [agree.config e f hR]
    exact .pure hfree

/-- **Creations are opened in the same way.** -/
theorem startCreate (message : CreateMessage) :
    Parallel R (FrameStart.Clear free) (Engine.startCreate message)
      (Engine.startCreate message) := by
  have hclaim : ∀ nonce, Parallel R (FrameStart.Clear free)
      (Engine.claimAddress message nonce) (Engine.claimAddress message nonce) := by
    intro nonce
    unfold Engine.claimAddress
    refine .bind (agree.incrementNonce message.caller).attempt fun counted _ => ?_
    cases counted with
    | error err => exact .pure trivial
    | ok u =>
      refine .bind (.modify (agree.warmAddress (Engine.newAddress message nonce))) fun _ _ => ?_
      refine .bind ((agree.account _).attempt_post (agree.untaken _)) fun existing hexisting => ?_
      cases existing with
      | error err => exact .pure trivial
      | ok account =>
        refine .ite (fun _ => .pure trivial) fun huntaken => ?_
        exact agree.openCreate message (hexisting account rfl (Bool.eq_false_iff.mpr huntaken))
  unfold Engine.startCreate
  refine .get_bind fun e f hR => ?_
  rw [agree.config e f hR]
  refine .ite (fun _ => .pure trivial) fun _ => .ite (fun _ => .pure trivial) fun _ => ?_
  refine .bind (agree.account message.caller).attempt fun creator _ => ?_
  cases creator with
  | error err => exact .pure trivial
  | ok account =>
    exact .ite (fun _ => .pure trivial) fun _ => .ite (fun _ => .pure trivial) fun _ => hclaim _

/-- **Requests are opened in the same way.** -/
theorem start (request : Request) :
    Parallel R (FrameStart.Clear free) request.start request.start := by
  cases request with
  | call message => exact agree.startCall message
  | create message => exact agree.startCreate message

/-! ## Closing -/

theorem deploy {address : Address} {code : Bytes} (hfree : free address)
    (hknown : code.isEmpty = false → known (keccak256 code) code) (gas : Gas) :
    Parallel R (fun _ => True) (Engine.deploy address code gas)
      (Engine.deploy address code gas) := by
  unfold Engine.deploy
  refine .get_bind fun e f hR => ?_
  rw [agree.config e f hR]
  refine .ite (fun _ => .pure trivial) fun _ => .ite (fun _ => .pure trivial) fun _ => ?_
  cases gas.charge? (Gas.codeDeposit code.size) with
  | none => exact .pure trivial
  | some left =>
    refine .bind (agree.setCode address code hfree hknown).attempt fun set _ => ?_
    cases set with
    | error err => exact .pure trivial
    | ok hash => exact .pure trivial

/-- **Frames are closed in the same way**, if the code that a creation deploys
    is the one of its hash. -/
theorem endFrame {kind : FrameKind} {ending : Ending} (hclear : kind.Clear free)
    (hknown : ∀ checkpoint address, kind = .create checkpoint address →
      ending.exit.isSuccess = true → ending.output.isEmpty = false →
      known (keccak256 ending.output) ending.output) :
    Parallel R (fun _ => True) (Engine.endFrame kind ending) (Engine.endFrame kind ending) := by
  cases kind with
  | call checkpoint => exact agree.endCall _ _
  | create checkpoint address =>
    show Parallel _ _ (Engine.endCreate checkpoint address ending)
      (Engine.endCreate checkpoint address ending)
    unfold Engine.endCreate
    refine .ite (fun _ => .bind (.modify (agree.revert _)) fun _ _ => .pure trivial)
      fun hexit => ?_
    have hsuccess : ending.exit.isSuccess = true := by simpa using hexit
    refine .bind (agree.deploy hclear (hknown checkpoint address rfl hsuccess) _)
      fun deployed _ => ?_
    cases deployed with
    | ok gas => exact .pure trivial
    | error err => exact .bind (.modify (agree.revert _)) fun _ _ => .pure trivial

/-! ## Transactions -/

/-- **Transactions are prepared in the same way.** -/
theorem prepare (tx : Transaction) :
    Parallel R (fun _ => True) (Engine.prepare tx) (Engine.prepare tx) := by
  have hwarm : ∀ e f, R e f → R (Engine.warmTransaction tx e) (Engine.warmTransaction tx f) :=
    fun e f hR => Engine.warmTransaction_related
      (R := fun j k => R { e with journal := j } { f with journal := k })
      (fun a j k h => agree.warmAddress a { e with journal := j } { f with journal := k } h)
      (fun s j k h => agree.warmSlot s { e with journal := j } { f with journal := k } h)
      (agree.env e f hR) (agree.config e f hR) (agree.precompiles e f hR) hR tx
  unfold Engine.prepare
  refine .get_bind fun e f hR => ?_
  rw [agree.config e f hR]
  refine .bind (.modify hwarm) fun _ _ => .ite (fun _ => ?_) fun _ => .pure trivial
  exact ((agree.incrementNonce tx.caller).map fun _ => ()).attempt

end EnginesAgree

end Evm
