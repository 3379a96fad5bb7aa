import Evm.Proofs.Engine.Invariant
import Evm.Proofs.Engine.Preparation
import Evm.Proofs.Journal.Settlement
import Evm.State.Database

/-! # Static calls

    A call that may not write changes nothing that a transaction can observe,
    but for which accesses count as the first. Every frame under a static one
    is static (`static_inherited`), and what is done on behalf of a static
    frame are reads and accesses only.

    The invariant is `OnlyRead`. It is stronger than the theorem in that it
    also says of the cache that what was read is as it was read; that is what
    makes a state that was reverted read alike, and what makes the settlement
    of a static transaction write nothing.
-/

namespace Evm

open Journal

variable {β : Type} [Backend β]

/-! ## States that were only read -/

/-- Nothing was done to a state but reads and accesses, and what was read is
    still as it was read. -/
structure OnlyRead (b j : Journal β) : Prop extends Extends b j where
  readSlots : ∀ (s : Slot) (value : SlotValue),
    b.slots[s]? = none → j.slots[s]? = some value →
    value.present = value.initial ∧ b.storedValue s = .ok value.initial

namespace OnlyRead

variable {b j k : Journal β}

theorem refl (b : Journal β) : OnlyRead b b where
  toExtends := .refl b
  readSlots s value hnone hsome := by rw [hnone] at hsome; cases hsome

theorem storedValue_eq (h : OnlyRead b j) (s : Slot) : j.storedValue s = b.storedValue s := by
  unfold storedValue
  rw [h.created, h.backend]

theorem trans (h : OnlyRead b j) (h' : OnlyRead j k) : OnlyRead b k where
  toExtends := h.toExtends.trans h'.toExtends
  readSlots s value hb hk := by
    cases hj : j.slots[s]? with
    | none =>
      have hread := h'.readSlots s value hj hk
      rwa [h.storedValue_eq] at hread
    | some v =>
      rw [h'.slots s v hj] at hk
      cases hk
      exact h.readSlots s value hb hj

/-- Every slot has the value that it had. -/
theorem presentStorage_eq (h : OnlyRead b j) (s : Slot) :
    j.presentStorage s = b.presentStorage s := by
  unfold presentStorage
  cases hb : b.slots[s]? with
  | some value => rw [h.slots s value hb]
  | none =>
    cases hj : j.slots[s]? with
    | none => exact h.storedValue_eq s
    | some value =>
      obtain ⟨hpresent, hstored⟩ := h.readSlots s value hb hj
      simp only [hpresent, hstored]

/-- A state that was only read since the start of a transaction is clean. -/
theorem clean (store : β) (h : OnlyRead (.ofBackend store) j) : Clean j := by
  refine ⟨?_, ?_, h.newCode, h.destroyed⟩
  · intro a cached hcached
    exact (h.readAccounts a cached rfl hcached).1.symm
  · intro s value hvalue
    exact (h.readSlots s value rfl hvalue).1

end OnlyRead

/-- **Undoing keeps it.** What was read in a scope that was reverted is still
    as it was read. -/
theorem onlyRead_undoable (b : Journal β) : Undoable (OnlyRead b) := by
  intro k j j' hk hj hrestored hinitial
  refine ⟨hk.toExtends.trans hrestored.toExtends, ?_⟩
  intro s value hb hj'
  cases hks : k.slots[s]? with
  | some v =>
    rw [hrestored.slots s v hks] at hj'
    cases hj'
    exact hk.readSlots s value hb hks
  | none =>
    -- the slot was read in the scope, and its initial value stays cached
    have hpresent := hrestored.readSlots s value hks hj'
    have hmap := hinitial s
    rw [hj', Option.map_some] at hmap
    obtain ⟨v, hv, hvalue⟩ := Option.map_eq_some_iff.mp hmap.symm
    have hread := (hj.readSlots s v hb hv).2
    rw [hvalue] at hread
    exact ⟨hpresent, hread⟩

/-- **Nothing but reads and accesses is done on behalf of a static frame.** -/
theorem onlyRead_static (b : Journal β) (self : Address) :
    KeptBy (OnlyRead b) (Edit.By self true) := by
  intro e j j' he happ hj
  cases happ with
  | readAccount hnone hread =>
    exact { hj with
      toExtends := hj.toExtends.trans (Edit.restored_of_read_account hnone hread).toExtends }
  | @readSlot _ s value hnone hread =>
    refine ⟨hj.toExtends.trans (Edit.restored_of_read_slot hnone).toExtends, ?_⟩
    intro r v hb hcached
    by_cases hr : s = r
    · subst hr
      rw [Std.ExtTreeMap.getElem?_insert_self] at hcached
      cases hcached
      rw [hj.storedValue_eq] at hread
      exact ⟨rfl, hread⟩
    · rw [getElem?_insert_of_ne _ hr] at hcached
      exact hj.readSlots r v hb hcached
  | learnCode hash code => exact { hj with }
  | warmAddress _ => exact { hj with }
  | warmSlot _ => exact { hj with }
  -- every other edit asks for a frame that is not static
  | account new _ => cases he.1
  | storage new _ => cases he.2
  | transient s new => cases he.2
  | log entry => cases he.2
  | queueCode _ => cases he
  | created _ => cases he.2
  | destroyed _ => cases he.2

/-! ## Static frames -/

/-- **Static frames ask for static frames only**: for no creation, and under
    each of the four schemes for a static call. -/
theorem static_inherited : Machine.Inherited fun ctx => ctx.isStatic = true where
  call := by
    intro ctx message hstatic hrequested code jumpDests hardfork
    obtain ⟨scheme, callee, value, input, gasLimit, rfl, _⟩ := hrequested
    cases scheme with
    | call => exact hstatic
    | callCode => exact hstatic
    | delegateCall => exact hstatic
    | staticCall => rfl
  create := by
    intro ctx message hstatic hrequested address hardfork
    obtain ⟨_, _, hwritable⟩ := hrequested
    rw [hstatic] at hwritable
    cases hwritable

namespace Engine

variable {e : Engine β}

/-- Every frame of a static call is static. -/
theorem callVisits_static {message : CallMessage} (hstatic : message.isStatic = true)
    {m : Machine β} (h : CallVisits message e m) :
    m.current.frame.context.isStatic = true := by
  obtain ⟨act, e', hstart, hvisits⟩ := h
  have hspec := startCall_spec message e
  rw [hstart] at hspec
  cases hspec with
  | @opened code jumpDests j codeCache _ =>
    have hfirst : Machine.Contexts (fun ctx => ctx.isStatic = true)
        (⟨{ e with journal := j, codeCache },
          ⟨callFrame message code jumpDests e.config.hardfork, .call e.journal.checkpoint⟩,
          [], none⟩ : Machine β) := by
      intro act hact
      rw [List.mem_singleton.mp hact]
      exact hstatic
    exact hfirst.visits static_inherited hvisits _ List.mem_cons_self

/-- A static call that moves nothing only reads. -/
theorem call_onlyRead {message : CallMessage} (hstatic : message.isStatic = true)
    (hmoved : message.value.moved = 0) : OnlyRead e.journal (call message e).2.journal := by
  have hopens : KeptBy (OnlyRead e.journal) message.Opens := by
    refine (onlyRead_static e.journal message.caller).mono ?_
    intro edit hedit
    cases edit with
    | account a previous new => exact absurd hmoved hedit.1
    | readAccount _ => trivial
    | learnCode _ _ => trivial
    | _ => exact hedit.elim
  have hframes : ∀ m, CallVisits message e m →
      KeptIn (OnlyRead e.journal) m.current.frame.context := by
    intro m hm
    unfold KeptIn
    rw [callVisits_static hstatic hm]
    exact onlyRead_static e.journal _
  exact (call_keeps (onlyRead_undoable _) (.refl _) hopens hframes).1

/-- Whatever a call does, it is done to the state. -/
theorem call_setup (message : CallMessage) (e : Engine β) :
    SameSetup e (call message e).2 := by
  have hcall : call message e = complete (startCall message e).1 (startCall message e).2 := rfl
  have hstart := startCall_spec message e
  rw [hcall]
  generalize startCall message e = started at hstart ⊢
  have hsetup := hstart.setup
  obtain ⟨start, e'⟩ := started
  cases start with
  | done result => exact hsetup
  | run act => exact hsetup.trans (Machine.drive_setup ⟨e', act, [], none⟩ rfl rfl)

/-! ## Static transactions -/

/-- Marking what a transaction is known to access is no change. -/
theorem warmTransaction_onlyRead (tx : Transaction) :
    OnlyRead e.journal (warmTransaction tx e).journal := by
  have hwarm : ∀ (j : Journal β) a, OnlyRead e.journal j →
      OnlyRead e.journal (j.warmAddress a).2 := by
    intro j a hj
    unfold Journal.warmAddress
    split
    · exact hj
    · exact { hj with }
  have hwarmSlot : ∀ (j : Journal β) s, OnlyRead e.journal j →
      OnlyRead e.journal (j.warmSlot s).2 := by
    intro j s hj
    unfold Journal.warmSlot
    split
    · exact hj
    · exact { hj with }
  exact warmTransaction_related (R := fun j _ : Journal β => OnlyRead e.journal j)
    (fun a j _ => hwarm j a) (fun s j _ => hwarmSlot j s) rfl rfl rfl (.refl e.journal) tx

/-- A transaction whose envelope is not charged runs its call or creation with
    all its gas. -/
theorem transact_free {tx : Transaction} (hfree : e.config.intrinsicGas = false) :
    transact tx e =
      finish tx.gasLimit (runTransaction tx tx.gasLimit (warmTransaction tx e)).1
        (runTransaction tx tx.gasLimit (warmTransaction tx e)).2 := by
  have hnothing : intrinsicGas e.config tx = 0 := by
    unfold intrinsicGas
    rw [hfree]
    rfl
  have hnonce : ¬(e.config.intrinsicGas = true ∧ (!tx.kind.isCreate) = true) := by
    rw [hfree]
    rintro ⟨h, _⟩
    cases h
  unfold transact
  rw [state_get_bind_apply]
  simp only
  rw [hnothing, state_ite_apply, if_neg (Nat.not_lt_zero _), state_modify_bind_apply, if_neg hnonce]
  rfl

omit [Backend β] in
theorem discard_backend (e : Engine β) :
    (discard e).2.journal.backend = e.journal.backend :=
  revert_backend e.journal ⟨0⟩

/-- Settling a clean state leaves the store alone, and so does discarding any
    state. -/
theorem finish_backend {gasLimit : Nat} {frame : FrameResult} (hclean : Clean e.journal) :
    (finish gasLimit frame e).2.journal.backend = e.journal.backend := by
  unfold finish
  rw [state_get_bind_apply]
  simp only
  rw [state_ite_apply]
  cases frame.isSuccess with
  | false => exact discard_backend e
  | true =>
    rw [if_pos rfl, state_bind_apply]
    obtain ⟨logs, j', hsettle, hbackend⟩ := hclean.settle
    rw [attempt_ok hsettle]
    exact hbackend

/-- **A static call changes nothing.** For every state, whatever code runs and
    whatever frames it starts, a static call that moves no value leaves every
    account, every slot and everything else that a transaction can observe as
    it was, whether it succeeds or fails; only the sets of accesses, the
    caches, and the entries that undo accesses may differ. A static
    transaction on a new engine that does not charge the envelope leaves the
    store as it was. -/
theorem static_call_changes_nothing :
    (∀ (e : Engine β) (message : CallMessage), message.isStatic = true →
      message.value.moved = 0 →
      let after := (call message e).2
      (∀ a, after.journal.presentAccount a = e.journal.presentAccount a) ∧
      (∀ s, after.journal.presentStorage s = e.journal.presentStorage s) ∧
      after.journal.transient = e.journal.transient ∧
      after.journal.logs = e.journal.logs ∧
      after.journal.created = e.journal.created ∧
      after.journal.destroyed = e.journal.destroyed ∧
      after.journal.newCode = e.journal.newCode ∧
      after.journal.backend = e.journal.backend ∧
      SameSetup e after) ∧
    (∀ (store : β) (env : Environment) (config : Config) (tx : Transaction) (callee : Address),
      config.intrinsicGas = false → tx.kind = .staticCall callee →
      (transact tx (new store env config)).2.journal.backend = store) := by
  constructor
  · intro e message hstatic hmoved after
    have h : OnlyRead e.journal after.journal := call_onlyRead hstatic hmoved
    exact ⟨h.presentAccount_eq, h.presentStorage_eq, h.transient, h.logs, h.created, h.destroyed,
      h.newCode, h.backend, call_setup message e⟩
  · intro store env config tx callee hfree hkind
    have hwarm : OnlyRead (new store env config).journal
        (warmTransaction tx (new store env config)).journal := warmTransaction_onlyRead tx
    have hrun : OnlyRead (warmTransaction tx (new store env config)).journal
        (runTransaction tx tx.gasLimit (warmTransaction tx (new store env config))).2.journal := by
      unfold runTransaction
      rw [hkind]
      exact call_onlyRead rfl rfl
    have h := hwarm.trans hrun
    rw [transact_free hfree, finish_backend (h.clean store)]
    exact h.backend

/-- A static call of a contract that reads a slot and then tries to set it,
    and the transaction that makes such a call. -/
theorem static_call_changes_nothing_reading :
    let code : Bytes := ⟨#[0x60, 1, 0x54, 0x60, 1, 0x55]⟩
    let store : Database :=
      { Database.empty with
        accounts := Std.ExtTreeMap.empty.insert (.ofNat 77) ⟨1, 0, ⟨1⟩⟩
        code := Std.ExtTreeMap.empty.insert ⟨1⟩ code }
    let config := Config.ofHardfork .cancun
    let message : CallMessage :=
      ⟨.staticCall, .ofNat 3, .ofNat 77, .ofNat 77, .transfer 0, ByteArray.empty, 50000, true, 0⟩
    let tx : Transaction := ⟨.ofNat 3, .staticCall (.ofNat 77), 0, ByteArray.empty, 50000, []⟩
    message.isStatic = true ∧ message.value.moved = 0 ∧
      (∀ s, (call message (new store .default config)).2.journal.presentStorage s =
        (new store .default config).journal.presentStorage s) ∧
      config.intrinsicGas = false ∧ tx.kind = .staticCall (.ofNat 77) ∧
      (transact tx (new store .default config)).2.journal.backend = store := by
  intro code store config message tx
  have hcall := static_call_changes_nothing.1 (new store .default config) message rfl rfl
  exact ⟨rfl, rfl, hcall.2.1, rfl, rfl,
    static_call_changes_nothing.2 store .default config tx (.ofNat 77) rfl rfl⟩

end Engine

end Evm
