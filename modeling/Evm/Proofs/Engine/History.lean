import Evm.Proofs.Engine.Accesses
import Evm.Proofs.Engine.Session
import Evm.Proofs.Engine.Warmth
import Evm.State.Database

/-! # The accesses of a transaction

    A frame pays more for the first access to an account or a slot than for later
    ones. What is a first one is told by the set of what is warm, which accesses
    add to and which goes back with a frame that fails.

    The history of a transaction says it without that set: it is the record of
    what the frames were told of their accesses and paid for them, and of the
    addresses that their creations derived, less what frames that were undone have
    added (`History`, `Machine.noted`). What is warm at a tick is what the transaction
    declares and what is on this record (`Machine.Logged`), so an access is told to be
    cold just if it is to something else, and pays its surcharge just then
    (`access_isCold_iff`).
-/

namespace Evm

open Journal

variable {β : Type} [Backend β]

/-! ## Histories -/

/-- What is on record of the frames under way, newest first: of the current one
    with the frames that ended within it, and of each frame that waits. The last
    layer is of the transaction itself. -/
structure History where
  own : List Entry
  below : List (List Entry)

namespace History

/-- Before anything was accessed. -/
def empty : History := ⟨[], []⟩

/-- Everything on record. -/
def standing (h : History) : List Entry := h.own ++ h.below.flatten

/-- The current frame adds to the record. -/
def add (entries : List Entry) (h : History) : History := { h with own := entries ++ h.own }

/-- A frame is opened within the current one. -/
def enter (h : History) : History := ⟨[], h.own :: h.below⟩

/-- The current frame is closed. What it has added stays on record if the frame is
    kept, and is lost if it is undone. -/
def leave (kept : Bool) (h : History) : History :=
  match h.below with
  | [] => h
  | outer :: below => ⟨if kept then h.own ++ outer else outer, below⟩

/-- A request is opened. The address that a creation derives is added to the record
    of the one who asks for it. -/
def ask (request : Request) (e : Engine β) (h : History) : History :=
  let asked := h.add ((request.claims e).map .derived)
  match (request.start e).1 with
  | .run _ => asked.enter
  | .done _ => asked

section Standing

variable {request : Request} {e e' : Engine β} (h : History) (entries : List Entry)

theorem add_standing : (h.add entries).standing = entries ++ h.standing :=
  List.append_assoc _ _ _

/-- Of a frame that is kept nothing is lost. -/
theorem leave_standing {outer : List Entry} {below : List (List Entry)}
    (hbelow : h.below = outer :: below) :
    h.leave true = ⟨h.own ++ outer, below⟩ ∧ (h.leave true).standing = h.standing := by
  have hleave : h.leave true = ⟨h.own ++ outer, below⟩ := by
    unfold leave
    rw [hbelow]
    rfl
  refine ⟨hleave, ?_⟩
  rw [hleave, standing, standing, hbelow, List.flatten_cons, List.append_assoc]

/-- Of a frame that is undone nothing stays. -/
theorem leave_undone {outer : List Entry} {below : List (List Entry)}
    (hbelow : h.below = outer :: below) : h.leave false = ⟨outer, below⟩ := by
  unfold leave
  rw [hbelow]
  rfl

theorem ask_done {result : FrameResult} (hstart : request.start e = (.done result, e')) :
    h.ask request e = h.add ((request.claims e).map .derived) := by
  unfold ask
  rw [hstart]

theorem ask_run {child : Activation} (hstart : request.start e = (.run child, e')) :
    h.ask request e = (h.add ((request.claims e).map .derived)).enter := by
  unfold ask
  rw [hstart]

/-- Opening a request adds addresses that were derived. -/
theorem mem_ask {entry : Entry} (hentry : entry ∈ (h.ask request e).standing) :
    entry ∈ h.standing ∨ ∃ a, entry = .derived a := by
  have hasked : entry ∈ (h.add ((request.claims e).map .derived)).standing := by
    unfold ask at hentry
    split at hentry
    · exact hentry
    · exact hentry
  rw [add_standing] at hasked
  rcases List.mem_append.mp hasked with hderived | hbefore
  · obtain ⟨a, _, rfl⟩ := List.mem_map.mp hderived
    exact .inr ⟨a, rfl⟩
  · exact .inl hbefore

/-- Closing a frame adds nothing. -/
theorem mem_leave {entry : Entry} {kept : Bool} (hentry : entry ∈ (h.leave kept).standing) :
    entry ∈ h.standing := by
  cases hbelow : h.below with
  | nil =>
    rw [leave, hbelow] at hentry
    exact hentry
  | cons outer below =>
    cases kept with
    | true => rwa [(h.leave_standing hbelow).2] at hentry
    | false =>
      rw [h.leave_undone hbelow] at hentry
      rw [standing, hbelow]
      exact List.mem_append_right _ hentry

end Standing

end History

namespace Machine

/-- What the current frame is told of its accesses in the next tick, newest first, and
    what it pays on top for them. A recorder of the engine notes it and changes nothing
    (`Exec.tick_recorded`). In taking an answer a frame makes no access. -/
def reports (m : Machine β) : List Entry :=
  match m.answer with
  | some _ => []
  | none => Exec.reports ⟨m.current.frame, m.engine⟩

/-- A report is of an instruction, and of what that has paid unless it has failed. -/
theorem accounts (m : Machine β) {r : Report} (hr : .report r ∈ m.reports) :
    m.answer = none ∧ ∀ s y, Exec.step ⟨m.current.frame, m.engine⟩ = .ok s y →
      m.stepCurrent = Exec.settle (.ok s y) ∧
        Exec.Accounts ⟨m.current.frame, m.engine⟩ s y r := by
  unfold reports at hr
  cases hanswer : m.answer with
  | some result =>
    rw [hanswer] at hr
    cases hr
  | none =>
    rw [hanswer] at hr
    refine ⟨rfl, fun s y hstep => ⟨?_, ?_⟩⟩
    · simp only [stepCurrent, hanswer]
      rw [Exec.tick, hstep]
    · rcases Exec.reports_of_ok hstep with hnone | ⟨r', hreports, haccounts⟩
      · rw [hnone] at hr
        cases hr
      · rw [hreports, List.mem_singleton] at hr
        cases hr
        exact haccounts

/-- The history after the next tick. -/
def noted (m : Machine β) (h : History) : History :=
  let told := h.add m.reports
  match m.stepCurrent with
  | (none, _) => told
  | (some (.call message), x) => told.ask (.call message) x.host
  | (some (.create message), x) => told.ask (.create message) x.host
  | (some (.finished ending), x) =>
    told.leave (Engine.endFrame m.current.kind ending x.host).1.isSuccess

end Machine

/-- The machines that a transaction leads to, with the history that led there. -/
inductive Transaction.Recorded (tx : Transaction) (e : Engine β) : Machine β → History → Prop where
  | start {e' e'' : Engine β} {act : Activation} :
    Engine.intrinsicGas e.config tx ≤ tx.gasLimit → Engine.prepare tx e = (.ok (), e') →
    (tx.request (tx.gasLimit - Engine.intrinsicGas e.config tx)).start e' = (.run act, e'') →
    Recorded tx e ⟨e'', act, [], none⟩
      (History.empty.ask (tx.request (tx.gasLimit - Engine.intrinsicGas e.config tx)) e')
  | tick {m m' : Machine β} {h : History} :
    Recorded tx e m h → m.tick = .running m' → Recorded tx e m' (m.noted h)

/-- Every machine that a transaction leads to has a history. -/
theorem Transaction.Ticks.recorded {tx : Transaction} {e : Engine β} {m : Machine β}
    (hm : tx.Ticks e m) : ∃ h, tx.Recorded e m h := by
  obtain ⟨hpaid, e', hprepare, act, e'', hstart, hticks⟩ := hm
  induction hticks with
  | refl => exact ⟨_, .start hpaid hprepare hstart⟩
  | tail _ htick ih =>
    obtain ⟨h, hrecorded⟩ := ih
    exact ⟨_, hrecorded.tick htick⟩

/-! ## What is warm -/

/-- What opening a request makes warm is on record of the one who asks. -/
theorem Journal.WarmBy.ask {seen : AccessKey → Prop} {request : Request} {e : Engine β}
    {j : Journal β} {h : History} (hwarm : e.journal.WarmBy seen h.standing)
    (hj : ∀ key, j.IsWarm key ↔
      e.journal.IsWarm key ∨ key ∈ (request.claims e).map AccessKey.account) :
    j.WarmBy seen (h.add ((request.claims e).map .derived)).standing := by
  rw [History.add_standing]
  refine hwarm.add fun key => ?_
  rw [hj, List.map_map]
  rfl

namespace Machine

variable {declared : AccessKey → Prop} {m m' : Machine β} {h : History} {x : Exec (Engine β)}

/-- The frames under way as scopes that lie on one another. What is warm at the
    checkpoint of a frame is on record of the frames below. -/
inductive Scoped (declared : AccessKey → Prop) :
    FrameKind → List Activation → List (List Entry) → Journal β → Prop where
  | first {kind : FrameKind} {outer : List Entry} {base j : Journal β} :
    base.WarmBy declared outer → kind.checkpoint = base.checkpoint → RevertsTo base j →
    Scoped declared kind [] [outer] j
  | inner {kind : FrameKind} {parent : Activation} {parents : List Activation}
      {outer : List Entry} {below : List (List Entry)} {b base j : Journal β} :
    Scoped declared parent.kind parents below b → RevertsTo b base →
    base.WarmBy declared (outer ++ below.flatten) → kind.checkpoint = base.checkpoint →
    RevertsTo base j → Scoped declared kind (parent :: parents) (outer :: below) j

theorem Scoped.trans {kind : FrameKind} {parents : List Activation} {below : List (List Entry)}
    {j j' : Journal β} (h : Scoped declared kind parents below j) (hjj' : RevertsTo j j') :
    Scoped declared kind parents below j' := by
  cases h with
  | first hwarm hkind hj => exact .first hwarm hkind (hj.trans hjj')
  | inner hbelow hb hwarm hkind hj => exact .inner hbelow hb hwarm hkind (hj.trans hjj')

/-- The history of a machine tells what is warm, now and at the checkpoints, and is
    right about what was cold. -/
structure Logged (declared : AccessKey → Prop) (m : Machine β) (h : History) : Prop where
  warm : m.engine.journal.WarmBy declared h.standing
  scopes : Scoped declared m.current.kind m.parents h.below m.engine.journal
  right : Right declared h.standing

namespace Logged

/-- What the current frame is told in a tick. -/
theorem told (hm : Logged declared m h) : Right declared (h.add m.reports).standing := by
  rw [History.add_standing]
  unfold reports
  cases m.answer with
  | none => exact (Exec.reports_right _).continues hm.right hm.warm
  | some result => exact hm.right

/-- What the current frame makes warm in a tick, unless it fails. -/
theorem stepped (hm : Logged declared m h) {action : Option Action}
    (hstep : m.stepCurrent = (action, x))
    (hends : ∀ ending, action = some (.finished ending) → ending.exit.isSuccess = true) :
    x.host.journal.WarmBy declared (h.add m.reports).standing := by
  rw [History.add_standing]
  unfold reports
  cases hanswer : m.answer with
  | none =>
    simp only [stepCurrent, hanswer] at hstep
    exact hm.warm.add (Exec.tick_warmBy hstep hends)
  | some result =>
    have hhost := Exec.take_host result ⟨m.current.frame, m.engine⟩
    simp only [stepCurrent, hanswer] at hstep
    rw [hstep] at hhost
    exact hm.warm.congr (by rw [hhost])

/-- Opening what the current frame asks for. -/
theorem requested (hm : Logged declared m h) {request : Request} {start : FrameStart}
    {engine : Engine β} (hstep : m.stepCurrent = (some request.action, x))
    (hstart : request.start x.host = (start, engine)) :
    Logged declared (afterStart start engine ⟨x.frame, m.current.kind⟩ m.parents)
      ((h.add m.reports).ask request x.host) := by
  -- a frame that asks for something has not ended
  have hwarm := hm.stepped hstep (by
    intro ending hends
    cases request <;> cases hends)
  have hscopes := hm.scopes.trans (stepCurrent_reverts hstep)
  have hreverts := (Request.start_balanced request x.host).reverts
  have hopened := Request.start_isWarm request x.host
  have hright := hm.told.derived (request.claims x.host)
  rw [hstart] at hreverts hopened
  rw [← History.add_standing] at hright
  cases hopened with
  | done hj =>
    rw [History.ask_done _ hstart]
    exact ⟨hwarm.ask hj, hscopes.trans hreverts, hright⟩
  | run hbefore hbase hkind hinner hj _ =>
    -- a derived address is warm at the checkpoint of the new frame, so it is on
    -- record of the one who asks and outlives the frame
    rw [History.ask_run _ hstart]
    exact ⟨hwarm.ask hj, .inner hscopes hbefore (hwarm.ask hbase) hkind hinner, hright⟩

/-- Closing the current frame. One that is undone takes with it what it has made
    warm. -/
theorem returned (hm : Logged declared m h) {ending : Ending} {result : FrameResult}
    {engine : Engine β} {parent : Activation} {parents : List Activation}
    (hstep : m.stepCurrent = (some (.finished ending), x))
    (hparents : m.parents = parent :: parents)
    (hend : Engine.endFrame m.current.kind ending x.host = (result, engine)) :
    Logged declared ⟨engine, parent, parents, some result⟩
      ((h.add m.reports).leave result.isSuccess) := by
  have hscopes := hm.scopes
  rw [hparents] at hscopes
  generalize hlayers : h.below = below at hscopes
  cases hscopes with
  | @inner _ _ _ outer below b base _ hbelow hb hwarm hkind hj =>
    have hran := hj.trans (stepCurrent_reverts hstep)
    cases hsuccess : result.isSuccess with
    | true =>
      -- what the frame has on record goes to the one who waits for it
      obtain ⟨hexit, hafter, _⟩ := Engine.endFrame_success hend hsuccess
      have hstepped := hm.stepped hstep (by
        rintro _ ⟨⟩
        exact hexit)
      obtain ⟨hleave, hstanding⟩ := (h.add m.reports).leave_standing hlayers
      refine ⟨?_, ?_, ?_⟩
      · rw [hstanding]
        exact hstepped.congr (Engine.endFrame_isWarm hend hsuccess)
      · rw [hleave]
        exact hbelow.trans (hb.trans (hran.trans hafter))
      · rw [hstanding]
        exact hm.told
    | false =>
      -- the state is as at the checkpoint, and the record as far as that
      have hrestored := Engine.endFrame_failure hend hsuccess hkind hran
      have hright := hm.right
      rw [History.standing, hlayers] at hright
      rw [(h.add m.reports).leave_undone hlayers]
      exact ⟨hwarm.congr hrestored.isWarm, hbelow.trans (hb.trans hrestored.revertsTo),
        hright.suffix⟩

/-- **A tick keeps the history.** -/
theorem tick (hm : Logged declared m h) (htick : m.tick = .running m') :
    Logged declared m' (m.noted h) := by
  have hmoved := tick_moved m
  rw [htick] at hmoved
  unfold noted
  cases hmoved with
  | wentOn hstep =>
    have hwarm := hm.stepped hstep (by rintro _ ⟨⟩)
    rw [hstep]
    exact ⟨hwarm, hm.scopes.trans (stepCurrent_reverts hstep), hm.told⟩
  | @requested request x _ _ hstep hstart =>
    have hlogged := hm.requested hstep hstart
    rw [hstep]
    cases request with
    | call message => exact hlogged
    | create message => exact hlogged
  | returned hstep hparents hend =>
    have hlogged := hm.returned hstep hparents hend
    rw [hstep]
    simp only [hend]
    exact hlogged

end Logged

/-- The machine and its history after some ticks, if it does not end before. -/
def notedFor : (bound : Nat) → Machine β → History → Option (Machine β × History)
  | 0, m, h => some (m, h)
  | bound + 1, m, h =>
    match m.tick with
    | .running m' => notedFor bound m' (m.noted h)
    | .finished _ _ => none

end Machine

/-! ## Transactions -/

namespace Transaction.Recorded

variable {tx : Transaction} {e : Engine β} {m m' : Machine β} {h h' : History}

/-- A transaction leads to every machine that has a history. -/
theorem ticks (hm : tx.Recorded e m h) : tx.Ticks e m := by
  induction hm with
  | start hpaid hprepare hstart => exact ⟨hpaid, _, hprepare, _, _, hstart, .refl⟩
  | tick _ htick ih =>
    obtain ⟨hpaid, e', hprepare, act, e'', hstart, hticks⟩ := ih
    exact ⟨hpaid, e', hprepare, act, e'', hstart, hticks.tail htick⟩

theorem notedFor {bound : Nat} (hm : tx.Recorded e m h)
    (hrun : m.notedFor bound h = some (m', h')) : tx.Recorded e m' h' := by
  induction bound generalizing m h with
  | zero =>
    cases hrun
    exact hm
  | succ bound ih =>
    unfold Machine.notedFor at hrun
    split at hrun
    · next htick => exact ih (hm.tick htick) hrun
    · cases hrun

/-- What is on record was told to a frame, or derived. -/
theorem standing_forall {P : Entry → Prop} (hderived : ∀ a, P (.derived a))
    (hreports : ∀ x : Exec (Engine β), ∀ entry ∈ x.reports, P entry) (hm : tx.Recorded e m h) :
    ∀ entry ∈ m.reports ++ h.standing, P entry := by
  have htold (m : Machine β) : ∀ entry ∈ m.reports, P entry := by
    intro entry hentry
    unfold Machine.reports at hentry
    cases hanswer : m.answer with
    | none =>
      rw [hanswer] at hentry
      exact hreports _ entry hentry
    | some result =>
      rw [hanswer] at hentry
      cases hentry
  suffices hstanding : ∀ entry ∈ h.standing, P entry from fun entry hentry =>
    (List.mem_append.mp hentry).elim (htold m entry) (hstanding entry)
  have hasked {request : Request} {e : Engine β} {h : History}
      (hbefore : ∀ entry ∈ h.standing, P entry) :
      ∀ entry ∈ (h.ask request e).standing, P entry := by
    intro entry hentry
    rcases h.mem_ask hentry with hentry | ⟨a, rfl⟩
    · exact hbefore entry hentry
    · exact hderived a
  induction hm with
  | start _ _ _ => exact hasked nofun
  | @tick m m' h _ _ ih =>
    have hadded : ∀ entry ∈ (h.add m.reports).standing, P entry := by
      intro entry hentry
      rw [History.add_standing] at hentry
      exact (List.mem_append.mp hentry).elim (htold m entry) (ih entry)
    intro entry hentry
    unfold Machine.noted at hentry
    dsimp only at hentry
    split at hentry
    · exact hadded entry hentry
    · exact hasked hadded entry hentry
    · exact hasked hadded entry hentry
    · exact hadded entry (History.mem_leave _ hentry)

/-- **The history of a transaction on a new engine** tells what is warm. -/
theorem logged {store : β} (hnew : e.journal = .ofBackend store) (hm : tx.Recorded e m h) :
    m.Logged (tx.Declares e) h := by
  induction hm with
  | @start e' e'' act _ hprepare hstart =>
    have hprepared : e'.journal.WarmBy (tx.Declares e) History.empty.standing := by
      have hwarm := Engine.prepare_isWarm tx e
      rw [hprepare, hnew] at hwarm
      intro key
      rw [hwarm]
      cases key <;> simp [IsWarm, Journal.ofBackend, History.empty, History.standing]
    have hopened := Request.start_isWarm
      (tx.request (tx.gasLimit - Engine.intrinsicGas e.config tx)) e'
    have hempty : Right (tx.Declares e) History.empty.standing := trivial
    have hright := hempty.derived
      ((tx.request (tx.gasLimit - Engine.intrinsicGas e.config tx)).claims e')
    rw [History.ask_run _ hstart]
    rw [hstart] at hopened
    rw [← History.add_standing] at hright
    cases hopened with
    | run _ hbase hkind hinner hj _ =>
      refine ⟨hprepared.ask hj, .first ?_ hkind hinner, hright⟩
      have hwarm := hprepared.ask hbase
      simp only [History.standing, History.add, History.empty, List.flatten_nil,
        List.append_nil] at hwarm ⊢
      exact hwarm
  | tick _ htick ih => exact ih.tick htick

end Transaction.Recorded

namespace Engine

/-- **What an access is told, and pays.** Each tick of a transaction on a new engine has
    a history. An access that is made in the tick is told to be cold just if it is to
    something that the transaction does not declare, and that is not on record: not
    accessed earlier in the tick or by a frame that was not undone, nor derived as
    an address by an attempt of such a frame or of the transaction to create a
    contract.

    Unless the frame fails, it pays the surcharge of its instruction if it was told so,
    and nothing on top of the price of the access if it was not. Of all that is on record
    nothing was told to be cold twice, so for no account and no slot the surcharge was
    paid twice. -/
theorem access_isCold_iff {e : Engine β} {store : β} (hnew : e.journal = .ofBackend store)
    {tx : Transaction} {m : Machine β} (hm : tx.Ticks e m) :
    (∃ h, tx.Recorded e m h) ∧
      (∀ r, .report r ∈ m.reports → m.answer = none ∧
        ∀ s y, Exec.step ⟨m.current.frame, m.engine⟩ = .ok s y →
          m.stepCurrent = Exec.settle (.ok s y) ∧
            Exec.Accounts ⟨m.current.frame, m.engine⟩ s y r) ∧
      ∀ h, tx.Recorded e m h →
        (∀ later r earlier, m.reports = later ++ .report r :: earlier →
          (r.isCold = true ↔
            ¬tx.Declares e r.key ∧ r.key ∉ (earlier ++ h.standing).map Entry.key)) ∧
        ((m.reports ++ h.standing).filterMap Entry.cold?).Nodup ∧
        (∀ key ∈ (m.reports ++ h.standing).filterMap Entry.cold?, ¬tx.Declares e key) ∧
        ((m.reports ++ h.standing).filterMap Entry.surcharged?).Nodup ∧
        ∀ key ∈ (m.reports ++ h.standing).filterMap Entry.surcharged?, ¬tx.Declares e key := by
  refine ⟨hm.recorded, fun r hr => m.accounts hr, fun h hrecorded => ?_⟩
  have hright := (hrecorded.logged hnew).told
  rw [History.add_standing] at hright
  have hpaid := Entry.surcharged_sublist
    (hrecorded.standing_forall (fun _ => trivial) Exec.reports_surcharged)
  obtain ⟨honce, hundeclared⟩ := hright.cold_once
  refine ⟨fun later r earlier hreports => ?_, honce, hundeclared, honce.sublist hpaid,
    fun key hkey => hundeclared key (hpaid.subset hkey)⟩
  rw [hreports, List.append_assoc, List.cons_append] at hright
  exact hright.report

/-- A contract calls another one that makes an access and fails, and then makes that
    access itself twice. It is told to be cold at first, as it was undone, and the
    surcharge is paid. -/
theorem access_isCold_again :
    let calling : Bytes := ⟨#[0x60, 0, 0x60, 0, 0x60, 0, 0x60, 0, 0x60, 0, 0x60, 78, 0x61, 0x20, 0,
      0xf1, 0x60, 99, 0x31, 0x60, 99, 0x31]⟩
    let failing : Bytes := ⟨#[0x60, 99, 0x31, 0xfe]⟩
    let store : Database :=
      { Database.empty with
        accounts := (Std.ExtTreeMap.empty.insert (.ofNat 77) ⟨1, 0, ⟨1⟩⟩).insert (.ofNat 78)
          ⟨1, 0, ⟨2⟩⟩
        code := (Std.ExtTreeMap.empty.insert ⟨1⟩ calling).insert ⟨2⟩ failing }
    let e := new store .default (.ofHardfork .cancun)
    let tx : Transaction := ⟨.ofNat 3, .call (.ofNat 77), 0, ByteArray.empty, 100000, []⟩
    let told (address : Nat) (isCold : Bool) (surcharge : Nat) : Entry :=
      .report ⟨.account (.ofNat address), isCold, surcharge⟩
    (∃ m h, tx.Recorded e m h ∧ m.reports = [told 99 true 2500] ∧
        h.standing = [told 78 true 2500] ∧ m.answer = none) ∧
      (∃ m h, tx.Recorded e m h ∧ m.reports = [told 99 false 0] ∧
        h.standing = [told 99 true 2500, told 78 true 2500]) ∧
      ¬tx.Declares e (.account (.ofNat 99)) := by
  intro calling failing store e tx told
  have hnew : e.journal = .ofBackend store := rfl
  let request := tx.request tx.gasLimit
  have hruns : (match request.start (warmTransaction tx e) with
      | (.run act, e') => [13, 15].map fun bound =>
        (Machine.notedFor bound ⟨e', act, [], none⟩
          (History.empty.ask request (warmTransaction tx e))).map
            fun reached => (reached.1.reports, reached.2.standing)
      | (.done _, _) => []) =
        [some ([told 99 true 2500], [told 78 true 2500]),
          some ([told 99 false 0], [told 99 true 2500, told 78 true 2500])] := by
    decide +kernel
  rcases hstart : request.start (warmTransaction tx e) with ⟨result | act, e'⟩
  · rw [hstart] at hruns
    cases hruns
  · have hfirst : tx.Recorded e ⟨e', act, [], none⟩
        (History.empty.ask request (warmTransaction tx e)) :=
      .start (Nat.zero_le _) rfl hstart
    rw [hstart] at hruns
    obtain ⟨hundone, hrest⟩ := List.cons.inj hruns
    obtain ⟨⟨m, h⟩, hrun, htold⟩ := Option.map_eq_some_iff.mp hundone
    obtain ⟨⟨m', h'⟩, hrun', htold'⟩ := Option.map_eq_some_iff.mp (List.cons.inj hrest).1
    obtain ⟨hreports, hstanding⟩ := Prod.mk.inj htold
    obtain ⟨hreports', hstanding'⟩ := Prod.mk.inj htold'
    have hm := hfirst.notedFor hrun
    obtain ⟨_, haccounts, hhistory⟩ := access_isCold_iff hnew hm.ticks
    refine ⟨⟨m, h, hm, hreports, hstanding, ?_⟩,
      ⟨m', h', hfirst.notedFor hrun', hreports', hstanding'⟩, ?_⟩
    · exact (haccounts _ (by rw [hreports]; exact List.mem_singleton_self _)).1
    · -- what is told to be cold is not declared
      obtain ⟨hcold, _⟩ := hhistory h hm
      exact ((hcold [] ⟨.account (.ofNat 99), true, 2500⟩ [] hreports).mp rfl).1

end Engine

end Evm
