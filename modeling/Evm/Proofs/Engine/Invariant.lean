import Evm.Proofs.Engine.Driver

/-! # What a whole call or creation keeps

    A property of the state holds after a call with all its frames if it
    holds before, if every edit on behalf of a frame of the run keeps it, and
    if undoing keeps it. This module proves that once; the statements about
    failed calls, static calls and foreign accounts are instances.

    The invariant of the driver is `Sound`. It says that the property holds,
    that the checkpoints of the frames under way lie on one another as open
    scopes do (`Nested`), with the property true at each of them, and that the
    frame of a creation acts for the account that is created.
-/

namespace Evm

open Journal

variable {β : Type} [Backend β]

/-! ## Properties that are kept -/

/-- A property that every edit of a set keeps. -/
def KeptBy (P : Journal β → Prop) (ok : Edit → Prop) : Prop :=
  ∀ (e : Edit) (j j' : Journal β), ok e → e.Applies j j' → P j → P j'

/-- A property that is kept by whatever is done on behalf of a frame. -/
def KeptIn (P : Journal β → Prop) (ctx : FrameContext) : Prop :=
  KeptBy P (Edit.By ctx.address ctx.isStatic)

/-- A property that undoing keeps: it holds of a state that is restored to one
    where it held. The slots that were read in between stay cached with the
    value they had at the start, so it may be used that the property held of
    the state that was undone. -/
def Undoable (P : Journal β → Prop) : Prop :=
  ∀ b j j' : Journal β, P b → P j → Restored b j' →
    (∀ s : Slot, (j'.slots[s]?).map SlotValue.initial = (j.slots[s]?).map SlotValue.initial) →
    P j'

section Kept

variable {P : Journal β → Prop} {ok ok' : Edit → Prop} {b j : Journal β}

theorem KeptBy.changes (hkept : KeptBy P ok) (h : Changes ok b j) (hb : P b) : P j :=
  h.invariant hkept hb

theorem KeptBy.mono (hkept : KeptBy P ok) (himp : ∀ e, ok' e → ok e) : KeptBy P ok' :=
  fun e j j' he => hkept e j j' (himp e he)

theorem KeptBy.or (hkept : KeptBy P ok) (hkept' : KeptBy P ok') :
    KeptBy P fun e => ok e ∨ ok' e := by
  intro e j j' he happ hj
  rcases he with he | he
  · exact hkept e j j' he happ hj
  · exact hkept' e j j' he happ hj

/-- Reverting a scope keeps the property. -/
theorem Undoable.revert (hP : Undoable P) (hb : P b) (hj : P j) (h : RevertsTo b j) :
    P (j.revert b.checkpoint) :=
  hP b j _ hb hj h.restored fun s => revert_initial j _ s

/-- Reverting a scope in which no slot was touched keeps a property that need
    not have held in it. -/
theorem Undoable.revert_of_slots (hP : Undoable P) (hb : P b) (h : RevertsTo b j)
    (hslots : j.slots = b.slots) : P (j.revert b.checkpoint) := by
  refine hP b b _ hb hb h.restored fun s => ?_
  rw [revert_initial, hslots]

end Kept

/-! ## Requests and their frames -/

section Requests

variable {ctx : FrameContext}

/-- Opening a call that a frame asks for is done on its behalf: it moves value
    only from the account that the frame acts for. -/
theorem CallMessage.RequestedBy.opens {message : CallMessage} (h : message.RequestedBy ctx)
    {e : Edit} (he : message.Opens e) : Edit.By ctx.address ctx.isStatic e := by
  obtain ⟨scheme, callee, value, input, gasLimit, rfl, hwritable⟩ := h
  cases e with
  | account a previous new =>
    obtain ⟨hvalue, hne, hmoved⟩ := he
    -- under the other schemes nothing is moved, or from an account to itself
    cases scheme with
    | call =>
      refine ⟨hwritable rfl hvalue, ?_⟩
      rcases hmoved with ⟨rfl, _⟩ | ⟨_, hcredited⟩
      · exact .inl rfl
      · exact .inr ⟨value, hcredited⟩
    | callCode => exact absurd rfl hne
    | delegateCall => exact absurd rfl hvalue
    | staticCall => exact absurd rfl hvalue
  | readAccount _ => trivial
  | learnCode _ _ => trivial
  | _ => exact he.elim

/-- Looking at accounts is open to everyone. -/
theorem Edit.IsLook.by_self {e : Edit} (h : e.IsLook) (self : Address) (isStatic : Bool) :
    Edit.By self isStatic e := by
  cases e <;> trivial

theorem CreateMessage.counts_by {message : CreateMessage} {e : Edit} (h : message.Counts e) :
    Edit.By message.caller false e := by
  cases e with
  | account a previous new => exact ⟨rfl, .inl h.1⟩
  | _ => trivial

/-- Opening a creation is done on behalf of the creator and of the new
    account. -/
theorem CreateMessage.opens_by {message : CreateMessage} {address : Address} {e : Edit}
    (h : message.Opens address e) :
    Edit.By message.caller false e ∨ Edit.By address false e := by
  cases e with
  | account a previous new =>
    rcases h with ⟨ha, _⟩ | ⟨_, _, ⟨ha, _⟩ | ⟨ha, _⟩⟩
    · exact .inr ⟨rfl, .inl ha⟩
    · exact .inl ⟨rfl, .inl ha⟩
    · exact .inr ⟨rfl, .inl ha⟩
  | readAccount _ => exact .inl trivial
  | created a => exact .inr ⟨h, rfl⟩
  | _ => exact h.elim

theorem CreateMessage.opens_slots {message : CreateMessage} {address : Address}
    {b j : Journal β} (h : Changes (message.Opens address) b j) : j.slots = b.slots := by
  have hpart : ∀ e : Edit, message.Opens address e → e.part ≠ .slots := by
    intro e he hslots
    cases e <;> cases hslots <;> exact he
  exact h.same hpart

theorem Edit.deploys_by {address : Address} {e : Edit} (h : Edit.Deploys address e) :
    Edit.By address false e := by
  cases e with
  | account a previous new => exact ⟨rfl, .inl h.1⟩
  | queueCode _ => rfl
  | _ => trivial

/-- The frame of a creation acts for the account that is created, and may
    write. -/
def Activation.Proper (act : Activation) : Prop :=
  ∀ checkpoint address, act.kind = .create checkpoint address →
    act.frame.context.address = address ∧ act.frame.context.isStatic = false

theorem Activation.Proper.closes {act : Activation} (h : act.Proper) {e : Edit}
    (he : act.kind.Closes e) :
    Edit.By act.frame.context.address act.frame.context.isStatic e := by
  cases hkind : act.kind with
  | call checkpoint =>
    rw [hkind] at he
    exact he.elim
  | create checkpoint address =>
    obtain ⟨haddress, hstatic⟩ := h checkpoint address hkind
    rw [hkind] at he
    rw [haddress, hstatic]
    exact Edit.deploys_by he

end Requests

/-! ## Open scopes -/

/-- The frames under way are scopes that lie on one another: the state reverts
    to the checkpoint of the innermost frame, the state there to that of the
    next one, and so on down to `b`. The property holds at every checkpoint. -/
inductive Nested (P : Journal β → Prop) (b : Journal β) : List FrameKind → Journal β → Prop where
  | first {kind : FrameKind} {j : Journal β} :
    kind.checkpoint = b.checkpoint → RevertsTo b j → Nested P b [kind] j
  | inner {kind : FrameKind} {kinds : List FrameKind} {outer base j : Journal β} :
    Nested P b kinds outer → RevertsTo outer base → P base →
    kind.checkpoint = base.checkpoint → RevertsTo base j → Nested P b (kind :: kinds) j

theorem Nested.trans {P : Journal β → Prop} {b j j' : Journal β} {kinds : List FrameKind}
    (h : Nested P b kinds j) (hjj' : RevertsTo j j') : Nested P b kinds j' := by
  cases h with
  | first hkind hb => exact .first hkind (hb.trans hjj')
  | inner houter hbase hP hkind hj => exact .inner houter hbase hP hkind (hj.trans hjj')

/-- Whatever frames are under way, the state reverts to the first checkpoint. -/
theorem Nested.revertsTo {P : Journal β → Prop} {b j : Journal β} {kinds : List FrameKind}
    (h : Nested P b kinds j) : RevertsTo b j := by
  induction h with
  | first _ hb => exact hb
  | inner _ hbase _ _ hj ih => exact ih.trans (hbase.trans hj)

/-- The innermost scope falls away. What is done from its checkpoint on, and
    can be undone, leaves the scopes below it. -/
theorem Nested.close {P : Journal β → Prop} {b j j' : Journal β} {kind : FrameKind}
    {kinds : List FrameKind} (h : Nested P b (kind :: kinds) j) (hb : P b)
    (hclose : ∀ base, P base → kind.checkpoint = base.checkpoint → RevertsTo base j →
      P j' ∧ RevertsTo base j') : P j' ∧ (kinds ≠ [] → Nested P b kinds j') := by
  cases h with
  | first hkind hj => exact ⟨(hclose b hb hkind hj).1, fun hne => absurd rfl hne⟩
  | inner houter hbase hP hkind hj =>
    obtain ⟨hj', hreverts⟩ := hclose _ hP hkind hj
    exact ⟨hj', fun _ => houter.trans (hbase.trans hreverts)⟩

namespace Machine

/-- The invariant of the driver. -/
structure Sound (P : Journal β → Prop) (b : Journal β) (m : Machine β) : Prop where
  holds : P m.engine.journal
  nested : Nested P b (m.current.kind :: m.parents.map Activation.kind) m.engine.journal
  proper : ∀ act ∈ m.current :: m.parents, act.Proper

variable {P : Journal β → Prop} {b : Journal β} {m m' : Machine β}

namespace Sound

/-- Going on with the current frame after something was done for it. -/
theorem answered (hm : Sound P b m) {action : Action} {frame : Frame} {engine engine' : Engine β}
    {result : FrameResult} (hran : Ran m action frame engine) (hP : P engine'.journal)
    (hengine : RevertsTo engine.journal engine'.journal) :
    Sound P b (afterStart (.done result) engine' ⟨frame, m.current.kind⟩ m.parents) := by
  refine ⟨hP, hm.nested.trans (hran.edited.1.revertsTo.trans hengine), ?_⟩
  intro act hact
  rcases List.mem_cons.mp hact with rfl | hparent
  · intro checkpoint address hkind
    have hproper := hm.proper _ List.mem_cons_self checkpoint address hkind
    rwa [← hran.context] at hproper
  · exact hm.proper act (List.mem_cons_of_mem _ hparent)

/-- Going on with a new frame. -/
theorem opened (hm : Sound P b m) {action : Action} {frame : Frame} {engine engine' : Engine β}
    {child : Activation} {base : Journal β} (hran : Ran m action frame engine)
    (hbase : RevertsTo engine.journal base) (hP : P base)
    (hkind : child.kind.checkpoint = base.checkpoint)
    (hengine : RevertsTo base engine'.journal) (hP' : P engine'.journal) (hchild : child.Proper) :
    Sound P b (afterStart (.run child) engine' ⟨frame, m.current.kind⟩ m.parents) := by
  refine ⟨hP', ?_, ?_⟩
  · exact .inner (hm.nested.trans hran.edited.1.revertsTo) hbase hP hkind hengine
  · intro act hact
    rcases List.mem_cons.mp hact with rfl | hact
    · exact hchild
    rcases List.mem_cons.mp hact with rfl | hparent
    · intro checkpoint address hkind
      have hproper := hm.proper _ List.mem_cons_self checkpoint address hkind
      rwa [← hran.context] at hproper
    · exact hm.proper act (List.mem_cons_of_mem _ hparent)

/-- **One turn keeps the invariant.** -/
theorem advance (hP : Undoable P) (hm : Sound P b m)
    (hkept : KeptIn P m.current.frame.context) (h : m.advance = .running m')
    (hkept' : KeptIn P m'.current.frame.context) : Sound P b m' := by
  have hturn := advance_turn m
  rw [h] at hturn
  cases hturn with
  | called hran hstart =>
    have hran' := hkept.changes hran.edited.1 hm.holds
    have hopens := hkept.mono fun _ he => hran.allowed.opens he
    cases hstart with
    | failed _ _ hchanges =>
      have hreverts := hchanges.revertsTo
      have hj := hP.revert hran' (hopens.changes hchanges hran') hreverts
      exact hm.answered hran hj hreverts.restored.revertsTo
    | settled _ _ hchanges =>
      exact hm.answered hran (hopens.changes hchanges hran') hchanges.revertsTo
    | opened hchanges =>
      refine hm.opened hran (.refl _) hran' rfl hchanges.revertsTo
        (hopens.changes hchanges hran') ?_
      intro checkpoint address hkind
      cases hkind
  | created hran hstart =>
    have hran' := hkept.changes hran.edited.1 hm.holds
    obtain ⟨hcaller, _, hwritable⟩ := hran.allowed
    unfold KeptIn at hkept
    rw [← hcaller, hwritable] at hkept
    have hcounts := hkept.mono fun _ he => CreateMessage.counts_by he
    cases hstart with
    | refused _ _ hlooks =>
      have hj := (hkept.mono fun _ he => he.by_self _ _).changes hlooks hran'
      exact hm.answered hran hj hlooks.revertsTo
    | failed _ _ hcounted hopens =>
      -- counting stays, and what came after it touched no slot
      have hbase := hcounts.changes hcounted.changes hran'
      have hreverts := hopens.revertsTo
      exact hm.answered hran (hP.revert_of_slots hbase hreverts (CreateMessage.opens_slots hopens))
        (hcounted.changes.revertsTo.trans hreverts.restored.revertsTo)
    | opened hcounted hopens =>
      -- the endowment is moved for the creator, the new account marked for itself
      have hbase := hcounts.changes hcounted.changes hran'
      have hj := ((hkept.or hkept').mono fun _ he => CreateMessage.opens_by he).changes hopens hbase
      refine hm.opened hran hcounted.changes.revertsTo hbase rfl hopens.revertsTo hj ?_
      intro checkpoint address hkind
      cases hkind
      exact ⟨rfl, rfl⟩
  | returned hparents hran hclosed =>
    have hran' := hkept.changes hran.edited.1 hm.holds
    have hcloses := hkept.mono fun _ he => (hm.proper _ List.mem_cons_self).closes he
    have hnested := hm.nested.trans hran.edited.1.revertsTo
    have hproper : ∀ act ∈ m.parents, act.Proper :=
      fun act hact => hm.proper act (List.mem_cons_of_mem _ hact)
    rw [hparents] at hnested hproper
    -- the scope of the frame that ended falls away
    cases hnested with
    | inner houter hbase hPbase hkind hj =>
      cases hclosed with
      | kept _ _ hchanges =>
        have houter' := houter.trans (hbase.trans (hj.trans hchanges.revertsTo))
        exact ⟨hcloses.changes hchanges hran', houter', hproper⟩
      | undone _ _ hchanges =>
        rw [hkind]
        have hreverts := hj.trans hchanges.revertsTo
        have houter' := houter.trans (hbase.trans hreverts.restored.revertsTo)
        exact ⟨hP.revert hPbase (hcloses.changes hchanges hran') hreverts, houter', hproper⟩

/-- The invariant holds at every machine that the driver comes to. -/
theorem visits (hP : Undoable P) (hm : Sound P b m)
    (hkept : ∀ m', Visits m m' → KeptIn P m'.current.frame.context) (h : Visits m m') :
    Sound P b m' := by
  induction h with
  | refl => exact hm
  | tail hvisits hstep ih =>
    exact ih.advance hP (hkept _ hvisits) hstep (hkept _ (hvisits.tail hstep))

/-- **The last turn** leaves the property, and the first state if the outcome
    is a failure. -/
theorem finish (hP : Undoable P) (hb : P b) (hm : Sound P b m)
    (hkept : KeptIn P m.current.frame.context) {result : FrameResult} {engine : Engine β}
    (h : m.advance = .finished result engine) :
    P engine.journal ∧ (result.isSuccess = false → Restored b engine.journal) := by
  have hturn := advance_turn m
  rw [h] at hturn
  cases hturn with
  | finished hparents hran hclosed =>
    have hran' := hkept.changes hran.edited.1 hm.holds
    have hcloses := hkept.mono fun _ he => (hm.proper _ List.mem_cons_self).closes he
    have hnested := hm.nested.trans hran.edited.1.revertsTo
    rw [hparents] at hnested
    -- only the scope of the whole run is open
    cases hnested with
    | inner houter _ _ _ _ => cases houter
    | first hkind hj =>
      cases hclosed with
      | kept hsuccess _ hchanges =>
        refine ⟨hcloses.changes hchanges hran', fun hfailure => ?_⟩
        rw [hsuccess] at hfailure
        cases hfailure
      | undone _ _ hchanges =>
        rw [hkind]
        have hreverts := hj.trans hchanges.revertsTo
        exact ⟨hP.revert hb (hcloses.changes hchanges hran') hreverts, fun _ => hreverts.restored⟩

end Sound

/-- **A whole run keeps the property**, and goes back to the first state if it
    fails. -/
theorem drive_keeps (hP : Undoable P) (hb : P b) (hm : Sound P b m) (hparents : m.parents = [])
    (hanswer : m.answer = none)
    (hkept : ∀ m', Visits m m' → KeptIn P m'.current.frame.context) :
    P m.drive.2.journal ∧ (m.drive.1.isSuccess = false → Restored b m.drive.2.journal) := by
  obtain ⟨last, hvisits, hlast⟩ := drive_finishes m hparents hanswer
  exact (hm.visits hP hkept hvisits).finish hP hb (hkept last hvisits) hlast

/-- The invariant at the start of a run with one frame. -/
theorem Sound.start {act : Activation} {engine : Engine β} (hP : P engine.journal)
    (hkind : act.kind.checkpoint = b.checkpoint) (hb : RevertsTo b engine.journal)
    (hproper : act.Proper) : Sound P b ⟨engine, act, [], none⟩ := by
  refine ⟨hP, .first hkind hb, ?_⟩
  intro act' hact
  rw [List.mem_singleton.mp hact]
  exact hproper

end Machine

namespace Engine

variable {P : Journal β → Prop} {e : Engine β}

/-! ## Calls and creations -/

/-- The machines that a call comes to. Each frame of the call is the current
    one of some of them. -/
def CallVisits (message : CallMessage) (e : Engine β) (m : Machine β) : Prop :=
  ∃ act e', startCall message e = (.run act, e') ∧ Machine.Visits ⟨e', act, [], none⟩ m

/-- The machines that a creation comes to. -/
def CreateVisits (message : CreateMessage) (e : Engine β) (m : Machine β) : Prop :=
  ∃ act e', startCreate message e = (.run act, e') ∧ Machine.Visits ⟨e', act, [], none⟩ m

/-- **What a call keeps.** A call that fails leaves the state as it was. -/
theorem call_keeps {message : CallMessage} (hP : Undoable P) (he : P e.journal)
    (hopens : KeptBy P message.Opens)
    (hframes : ∀ m, CallVisits message e m → KeptIn P m.current.frame.context) :
    P (call message e).2.journal ∧
      ((call message e).1.isSuccess = false →
        Restored e.journal (call message e).2.journal) := by
  have hcall : call message e = complete (startCall message e).1 (startCall message e).2 := rfl
  have hstart := startCall_spec message e
  unfold CallVisits at hframes
  rw [hcall]
  generalize startCall message e = started at hstart hframes ⊢
  cases hstart with
  | failed hfailure _ hchanges =>
    have hreverts := hchanges.revertsTo
    exact ⟨hP.revert he (hopens.changes hchanges he) hreverts, fun _ => hreverts.restored⟩
  | settled hsuccess _ hchanges =>
    refine ⟨hopens.changes hchanges he, fun hfailure => ?_⟩
    cases hsuccess.symm.trans hfailure
  | @opened code jumpDests j codeCache hchanges =>
    have hsound : Machine.Sound P e.journal ⟨{ e with journal := j, codeCache },
        ⟨callFrame message code jumpDests e.config.hardfork, .call e.journal.checkpoint⟩,
        [], none⟩ := by
      refine .start (hopens.changes hchanges he) rfl hchanges.revertsTo ?_
      intro checkpoint address hkind
      cases hkind
    exact Machine.drive_keeps hP he hsound rfl rfl fun m hvisits =>
      hframes m ⟨_, _, rfl, hvisits⟩

/-- **What a creation keeps.** A creation that fails leaves the state as it
    was, or as it was after counting. -/
theorem create_keeps {message : CreateMessage} (hP : Undoable P) (he : P e.journal)
    (hcaller : KeptBy P (Edit.By message.caller false))
    (hframes : ∀ m, CreateVisits message e m → KeptIn P m.current.frame.context) :
    P (create message e).2.journal ∧
      ((create message e).1.isSuccess = false →
        Restored e.journal (create message e).2.journal ∨
          ∃ nonce counted, Counted message nonce e.journal counted ∧
            Restored counted (create message e).2.journal) := by
  have hcreate : create message e =
      complete (startCreate message e).1 (startCreate message e).2 := rfl
  have hstart := startCreate_spec message e
  unfold CreateVisits at hframes
  rw [hcreate]
  generalize startCreate message e = started at hstart hframes ⊢
  have hcounts := hcaller.mono fun _ he => CreateMessage.counts_by he
  cases hstart with
  | refused _ _ hlooks =>
    have hj := (hcaller.mono fun _ he => he.by_self _ _).changes hlooks he
    exact ⟨hj, fun _ => .inl (Changes.restored (hlooks.mono fun _ he => he.isRead))⟩
  | failed _ _ hcounted hopens =>
    have hbase := hcounts.changes hcounted.changes he
    have hreverts := hopens.revertsTo
    have hj := hP.revert_of_slots hbase hreverts (CreateMessage.opens_slots hopens)
    exact ⟨hj, fun _ => .inr ⟨_, _, hcounted, hreverts.restored⟩⟩
  | @opened nonce b j hcounted hopens =>
    have hbase := hcounts.changes hcounted.changes he
    have hchild := hframes _ ⟨_, _, rfl, .refl⟩
    have hj := ((hcaller.or hchild).mono fun _ he => CreateMessage.opens_by he).changes hopens hbase
    have hsound : Machine.Sound P b ⟨{ e with journal := j },
        ⟨createFrame message (newAddress message nonce) e.config.hardfork,
          .create b.checkpoint (newAddress message nonce)⟩, [], none⟩ := by
      refine .start hj rfl hopens.revertsTo ?_
      intro checkpoint address hkind
      cases hkind
      exact ⟨rfl, rfl⟩
    obtain ⟨hkeeps, hrestored⟩ := Machine.drive_keeps hP hbase hsound rfl rfl fun m hvisits =>
      hframes m ⟨_, _, rfl, hvisits⟩
    exact ⟨hkeeps, fun hfailure => .inr ⟨_, _, hcounted, hrestored hfailure⟩⟩

end Engine

end Evm
