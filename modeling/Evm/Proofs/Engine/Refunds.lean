import Evm.Proofs.Engine.Owed
import Evm.State.Database

/-! # Refunds over a whole run

    A frame may take back a refund that another one was given, so the counter of
    a single frame says little. All counters together cover what the state owes
    at every tick: what moves it is booked by the frame that moves it, and a
    frame that fails loses its counter when the state goes back to its
    checkpoint, where the frames below cover what is owed (`Covers`,
    `Ledger.tick`). A first frame that succeeds has nothing below it, so its
    counter is not negative.

    No counter runs away, either: what is booked is paid for in gas, and the gas
    of a run only falls (`tick_weight`).
-/

namespace Evm

open Journal

variable {β : Type} [Backend β]

/-- The counter fits into 64 bits, of which one is for the sign. -/
def Gas.CounterFits (gas : Gas) : Prop := -2 ^ 63 ≤ gas.refunded ∧ gas.refunded < 2 ^ 63

/-- As much gas as `2 ^ 55` cannot pay for a counter that does not fit. -/
theorem Gas.CounterFits.of_natAbs {gas : Gas}
    (h : gas.refunded.natAbs ≤ Gas.refundRate * 2 ^ 55) : gas.CounterFits := by
  unfold Gas.refundRate at h
  unfold Gas.CounterFits
  omega

/-- What a step books covers what it adds to what is owed. -/
theorem Exec.Booked.covers {x x' : Exec (Engine β)} {s : Step} (h : Exec.Booked x s x') :
    x'.host.journal.owed x.frame.hardfork + x.frame.gas.refunded ≤
      x.host.journal.owed x.frame.hardfork + x'.frame.gas.refunded := by
  cases h with
  | nothing hsteps hsame =>
    have howed : x'.host.journal.owed x.frame.hardfork = x.host.journal.owed x.frame.hardfork := by
      refine hsteps.keeps (P := fun y => y.host.journal.owed x.frame.hardfork =
        x.host.journal.owed x.frame.hardfork) ?_ rfl
      rintro y z hstep hy
      cases hstep with
      | host hsuits hperform =>
        have hused := Engine.use_owed hsuits y.host x.frame.hardfork
        rw [hperform, endState_ok] at hused
        exact hused.trans hy
      | _ => exact hy
    omega
  | stored hhost hbooked _ =>
    have hcovered := Engine.sstore_owed hhost x.frame.hardfork
    omega
  | destroyed hhost hbooked _ =>
    have hcovered := Engine.destroy_owed hhost x.frame.hardfork
    omega

namespace Machine

variable {fork : Hardfork} {b : Journal β} {m m' : Machine β} {x : Exec (Engine β)}

/-! ## Sums -/

/-- The refund counters of the frames that wait. -/
def waitingRefunds : List Activation → Int
  | [] => 0
  | parent :: parents => parent.frame.gas.refunded + waitingRefunds parents

/-- The refund counters of all frames under way. -/
def refunds (m : Machine β) : Int := m.current.frame.gas.refunded + waitingRefunds m.parents

/-- What an answer brings to the frame that takes it. -/
def answerRefund : Option FrameResult → Int
  | some result => result.refund
  | none => 0

/-! ## The ledger -/

/-- The frames under way as scopes that lie on one another. What is owed at the
    checkpoint of a frame is covered by the frames below, which wait for it. -/
inductive Covers (fork : Hardfork) (b : Journal β) :
    FrameKind → List Activation → Journal β → Prop where
  | first {kind : FrameKind} {j : Journal β} :
    kind.checkpoint = b.checkpoint → RevertsTo b j → Covers fork b kind [] j
  | inner {kind : FrameKind} {parent : Activation} {parents : List Activation}
      {outer base j : Journal β} :
    Covers fork b parent.kind parents outer → RevertsTo outer base →
    base.owed fork ≤ waitingRefunds (parent :: parents) → kind.AwaitedBy parent.frame →
    kind.checkpoint = base.checkpoint → RevertsTo base j →
    Covers fork b kind (parent :: parents) j

theorem Covers.trans {kind : FrameKind} {parents : List Activation} {j j' : Journal β}
    (h : Covers fork b kind parents j) (hjj' : RevertsTo j j') : Covers fork b kind parents j' := by
  cases h with
  | first hkind hb => exact .first hkind (hb.trans hjj')
  | inner houter hbase howed hwaits hkind hj =>
    exact .inner houter hbase howed hwaits hkind (hj.trans hjj')

/-- The invariant of refunds. -/
structure Ledger (fork : Hardfork) (b : Journal β) (m : Machine β) : Prop where
  config : m.engine.config.hardfork = fork
  rules : ∀ act ∈ m.current :: m.parents, act.frame.hardfork = fork
  covered : m.engine.journal.owed fork ≤ m.refunds + answerRefund m.answer
  scopes : Covers fork b m.current.kind m.parents m.engine.journal
  takes : ∀ result, m.answer = some result → m.current.frame.Takes result

/-- The rules of a frame stay. -/
theorem stepCurrent_hardfork {action : Option Action} (h : m.stepCurrent = (action, x)) :
    x.frame.hardfork = m.current.frame.hardfork := by
  cases hanswer : m.answer with
  | none =>
    have hkept := Exec.tick_hardfork ⟨m.current.frame, m.engine⟩
    simp only [stepCurrent, hanswer] at h
    rwa [h] at hkept
  | some result =>
    have hkept := Exec.take_hardfork result ⟨m.current.frame, m.engine⟩
    simp only [stepCurrent, hanswer] at h
    rwa [h] at hkept

namespace Ledger

/-- What the current frame books in a tick, unless it fails. -/
theorem stepped (hm : Ledger fork b m) {action : Option Action}
    (h : m.stepCurrent = (action, x))
    (hends : ∀ ending, action = some (.finished ending) → ending.exit.isSuccess = true) :
    x.host.journal.owed fork ≤ x.frame.gas.refunded + waitingRefunds m.parents := by
  have hcovered := hm.covered
  have hrules := hm.rules _ List.mem_cons_self
  unfold refunds at hcovered
  cases hanswer : m.answer with
  | none =>
    -- what an instruction adds to what is owed it has booked
    simp only [stepCurrent, hanswer] at h
    obtain ⟨s, hbooked⟩ := Exec.tick_booked h hends
    have hmoved := hbooked.covers
    simp only [hrules] at hmoved
    simp only [hanswer, answerRefund] at hcovered
    omega
  | some result =>
    -- what the answer brings was counted already, and the state stays
    have hbooked := Exec.take_refunded (x := ⟨m.current.frame, m.engine⟩) (hm.takes result hanswer)
    have hhost := Exec.take_host result ⟨m.current.frame, m.engine⟩
    simp only [stepCurrent, hanswer] at h
    rw [h] at hbooked hhost
    simp only at hbooked hhost
    simp only [hanswer, answerRefund] at hcovered
    rw [hhost]
    omega

/-- The frames under way after a tick of the current one. -/
theorem rules_stepped (hm : Ledger fork b m) {action : Option Action}
    (h : m.stepCurrent = (action, x)) :
    ∀ act ∈ (⟨x.frame, m.current.kind⟩ :: m.parents : List Activation),
      act.frame.hardfork = fork := by
  intro act hact
  rcases List.mem_cons.mp hact with rfl | hact
  · exact (stepCurrent_hardfork h).trans (hm.rules _ List.mem_cons_self)
  · exact hm.rules act (List.mem_cons_of_mem _ hact)

section Closing

variable {ending : Ending} {result : FrameResult} {engine : Engine β}

/-- A frame that is closed with success tells what it booked. -/
theorem succeeded (hm : Ledger fork b m) (hstep : m.stepCurrent = (some (.finished ending), x))
    (hend : Engine.endFrame m.current.kind ending x.host = (result, engine))
    (hsuccess : result.isSuccess = true) :
    engine.journal.owed fork ≤ result.refund + waitingRefunds m.parents := by
  have hbooked := hm.stepped hstep (by
    rintro _ ⟨⟩
    exact (Engine.endFrame_success hend hsuccess).1)
  have hcounter : result.gas.refunded = x.frame.gas.refunded := by
    rw [← stepCurrent_finished hstep]
    rcases Engine.endFrame_refunded hend with hsame | ⟨hfailure, _⟩
    · exact hsame
    · rw [hsuccess] at hfailure
      cases hfailure
  rw [FrameResult.refund_of_success hsuccess, hcounter, Engine.endFrame_owed hend hsuccess fork]
  exact hbooked

/-- Closing the current frame. A failure goes back to where the frames below cover
    what is owed. -/
theorem closed (hm : Ledger fork b m) {parent : Activation} {parents : List Activation}
    (hstep : m.stepCurrent = (some (.finished ending), x))
    (hparents : m.parents = parent :: parents)
    (hend : Engine.endFrame m.current.kind ending x.host = (result, engine)) :
    engine.journal.owed fork ≤ result.refund + waitingRefunds m.parents ∧
      Covers fork b parent.kind parents engine.journal ∧ parent.frame.Takes result := by
  have hscopes := hm.scopes
  rw [hparents] at hscopes
  cases hscopes with
  | @inner _ _ _ outer base _ houter hbase howed hwaits hkind hj =>
    have hran := hj.trans (stepCurrent_reverts hstep)
    cases hsuccess : result.isSuccess with
    | true =>
      have hafter := hran.trans (Engine.endFrame_success hend hsuccess).2.1
      exact ⟨hm.succeeded hstep hend hsuccess, houter.trans (hbase.trans hafter),
        Engine.endFrame_takes hend hwaits⟩
    | false =>
      -- the counter is lost, and so is all that was owed since the checkpoint
      have hrestored := Engine.endFrame_failure hend hsuccess hkind hran
      refine ⟨?_, houter.trans (hbase.trans hrestored.revertsTo),
        Engine.endFrame_takes hend hwaits⟩
      rw [hrestored.owed_eq fork, FrameResult.refund_of_failure hsuccess, hparents]
      omega

end Closing

/-- Opening what the current frame asks for. -/
theorem requested (hm : Ledger fork b m) {request : Request} {start : FrameStart}
    {engine : Engine β} (hstep : m.stepCurrent = (some request.action, x))
    (hstart : request.start x.host = (start, engine)) :
    Ledger fork b (afterStart start engine ⟨x.frame, m.current.kind⟩ m.parents) := by
  have hgoes : ∀ ending, some request.action = some (.finished ending) →
      ending.exit.isSuccess = true := by
    intro ending hends
    cases request <;> cases hends
  have hbooked := hm.stepped hstep hgoes
  have hscopes := hm.scopes.trans (stepCurrent_reverts hstep)
  have hconfig : x.host.config.hardfork = fork :=
    (congrArg Config.hardfork (stepCurrent_setup hstep).config).trans hm.config
  have hsetup := Request.start_setup request x.host
  have hreverts := (Request.start_balanced request x.host).reverts
  have hopened := Request.start_owed request x.host fork
  rw [hstart] at hsetup hreverts hopened
  have hrules : engine.config.hardfork = fork :=
    (congrArg Config.hardfork hsetup.config).trans hconfig
  -- only an instruction makes a request, and its frame waits for what comes of it
  have hwaits : request.AwaitedBy x.frame := by
    have hanswer := stepCurrent_requests hstep
    simp only [stepCurrent, hanswer] at hstep
    exact (Exec.tick_requests hstep).2
  cases hopened with
  | @done result _ howed =>
    obtain ⟨htakes, hnone⟩ := Request.start_answer hwaits hstart
    refine ⟨hrules, hm.rules_stepped hstep, ?_, hscopes.trans hreverts, ?_⟩
    · simp only [afterStart, refunds, answerRefund]
      omega
    · rintro _ ⟨⟩
      exact htakes
  | @run child base _ hbefore hbase hkind hinner howed hawaited =>
    -- all counters are now those of frames that wait; the new one is zero
    have hfull := Request.start_run hstart
    refine ⟨hrules, ?_, ?_, .inner hscopes hbefore ?_ (hawaited _ hwaits) hkind hinner, ?_⟩
    · intro act hact
      rcases List.mem_cons.mp hact with rfl | hact
      · exact (Request.start_hardfork hstart).trans hconfig
      · exact hm.rules_stepped hstep act hact
    · simp only [afterStart, refunds, answerRefund, waitingRefunds, hfull, Gas.full]
      omega
    · simp only [waitingRefunds]
      omega
    · rintro _ ⟨⟩

/-- **A tick keeps the ledger.** -/
theorem tick (hm : Ledger fork b m) (h : m.tick = .running m') : Ledger fork b m' := by
  have hmoved := tick_moved m
  rw [h] at hmoved
  cases hmoved with
  | @wentOn x hstep =>
    have hgoes : ∀ ending, none = some (Action.finished ending) → ending.exit.isSuccess = true := by
      rintro _ ⟨⟩
    have hbooked := hm.stepped hstep hgoes
    refine ⟨?_, hm.rules_stepped hstep, ?_, hm.scopes.trans (stepCurrent_reverts hstep), ?_⟩
    · exact (congrArg Config.hardfork (stepCurrent_setup hstep).config).trans hm.config
    · simp only [goOn, refunds, answerRefund]
      omega
    · rintro _ ⟨⟩
  | requested hstep hstart => exact hm.requested hstep hstart
  | @returned ending x result engine parent parents hstep hparents hend =>
    obtain ⟨hcovered, hscopes, htakes⟩ := hm.closed hstep hparents hend
    have hsetup := (Engine.endFrame_spec m.current.kind ending x.host).setup
    rw [hend] at hsetup
    have hrules := hm.rules
    rw [hparents] at hrules hcovered
    refine ⟨?_, fun act hact => hrules act (List.mem_cons_of_mem _ hact), ?_, hscopes, ?_⟩
    · exact (congrArg Config.hardfork
        (hsetup.config.trans (stepCurrent_setup hstep).config)).trans hm.config
    · simp only [refunds, answerRefund, waitingRefunds] at hcovered ⊢
      omega
    · rintro _ ⟨⟩
      exact htakes

theorem ticks (hm : Ledger fork b m) (h : Ticks m m') : Ledger fork b m' := by
  induction h with
  | refl => exact hm
  | tail _ hstep ih => exact ih.tick hstep

/-- **A first frame that succeeds** has a counter that covers what is owed, which
    is not negative. -/
theorem finish (hm : Ledger fork b m) {result : FrameResult} {engine : Engine β}
    (h : m.tick = .finished result engine) (hsuccess : result.isSuccess = true) :
    0 ≤ result.gas.refunded := by
  have hmoved := tick_moved m
  rw [h] at hmoved
  cases hmoved with
  | finished hstep hparents hend =>
    have hcovered := hm.succeeded hstep hend hsuccess
    have howed := engine.journal.owed_nonneg fork
    rw [hparents, FrameResult.refund_of_success hsuccess, waitingRefunds] at hcovered
    omega

end Ledger

/-! ## Bounds -/

/-- How far the refund counters of the frames that wait are from zero, taken
    together. -/
def waitingWeight : List Activation → Nat
  | [] => 0
  | parent :: parents => parent.frame.gas.refunded.natAbs + waitingWeight parents

/-- How far the counter of an answer is from zero. -/
def answerWeight : Option FrameResult → Nat
  | some result => result.gas.refunded.natAbs
  | none => 0

/-- How far all refund counters are from zero, together with the gas that is
    left to move them further. -/
def weight (m : Machine β) : Nat :=
  m.current.frame.gas.refunded.natAbs + answerWeight m.answer + waitingWeight m.parents +
    Gas.refundRate * m.gas

omit [Backend β] in
/-- A counter of a frame that waits is no further from zero than all of them. -/
theorem natAbs_le_waitingWeight {act : Activation} {parents : List Activation}
    (h : act ∈ parents) : act.frame.gas.refunded.natAbs ≤ waitingWeight parents := by
  induction parents with
  | nil => cases h
  | cons parent parents ih =>
    unfold waitingWeight
    rcases List.mem_cons.mp h with rfl | h
    · omega
    · have hrest := ih h
      omega

/-- What the current frame does pays for how far its counter is moved. -/
theorem stepCurrent_weight {action : Option Action}
    (htakes : ∀ result, m.answer = some result → m.current.frame.Takes result)
    (h : m.stepCurrent = (action, x)) :
    x.frame.gas.refunded.natAbs + Gas.refundRate * x.frame.gas.remaining ≤
      m.current.frame.gas.refunded.natAbs + answerWeight m.answer +
        Gas.refundRate * (m.current.frame.gas.remaining + answerGas m.answer) := by
  cases hanswer : m.answer with
  | none =>
    simp only [stepCurrent, hanswer] at h
    exact Exec.tick_weight h
  | some result =>
    have hbooked := Exec.take_refunded (x := ⟨m.current.frame, m.engine⟩) (htakes result hanswer)
    have hremaining := stepCurrent_takes hanswer h
    have hrefund := result.refund_natAbs_le
    simp only [stepCurrent, hanswer] at h
    rw [h] at hbooked
    simp only at hbooked
    simp only [answerWeight, answerGas]
    unfold Gas.refundRate
    omega

/-- **No tick adds to the weight.** -/
theorem tick_weight (hm : Ledger fork b m) (h : m.tick = .running m') :
    m'.weight ≤ m.weight := by
  have hmoved := tick_moved m
  rw [h] at hmoved
  unfold weight gas
  cases hmoved with
  | @wentOn x hstep =>
    have hpaid := stepCurrent_weight hm.takes hstep
    -- the answer that was waited for may be any
    generalize answerWeight m.answer = told, answerGas m.answer = brought at hpaid ⊢
    unfold Gas.refundRate at hpaid ⊢
    simp only [goOn, answerWeight, answerGas]
    omega
  | @requested request x start engine hstep hstart =>
    have hanswer := stepCurrent_requests hstep
    have hpays := stepCurrent_pays hanswer hstep
    rw [tickPrice, Request.price_action] at hpays
    -- no counter moves, and the gas that is sent goes to the new frame or comes back
    have hsame : x.frame.gas.refunded = m.current.frame.gas.refunded := by
      simp only [stepCurrent, hanswer] at hstep
      exact (Exec.tick_requests hstep).1
    unfold Gas.refundRate
    cases start with
    | done result =>
      have hback := Request.start_done hstart
      have hnone := (Request.start_meter hstart).2
      simp only [afterStart, answerWeight, answerGas, hanswer, hnone, hsame, Int.natAbs_zero]
      omega
    | run child =>
      have hfull := Request.start_run hstart
      simp only [afterStart, answerWeight, answerGas, waitingWeight, waitingGas, hanswer, hfull,
        Gas.full, hsame, Int.natAbs_zero]
      omega
  | @returned ending x result engine parent parents hstep hparents hend =>
    have hpaid := stepCurrent_weight hm.takes hstep
    have hgas := stepCurrent_finished hstep
    have hback := endFrame_remaining m.current.kind ending x.host
    have hcounter := Engine.endFrame_refunded hend
    rw [hend, hgas] at hback
    rw [hgas] at hcounter
    simp only at hback
    generalize answerWeight m.answer = told, answerGas m.answer = brought at hpaid ⊢
    unfold Gas.refundRate at hpaid ⊢
    simp only [hparents, answerWeight, answerGas, waitingWeight, waitingGas]
    omega

theorem ticks_weight (hm : Ledger fork b m) (h : Ticks m m') : m'.weight ≤ m.weight := by
  induction h with
  | refl => exact Nat.le_refl _
  | tail hticks hstep ih => exact Nat.le_trans (tick_weight (hm.ticks hticks) hstep) ih

/-- The counter that a first frame ends with. -/
theorem finish_weight (hm : Ledger fork b m) {result : FrameResult} {engine : Engine β}
    (h : m.tick = .finished result engine) : result.gas.refunded.natAbs ≤ m.weight := by
  have hmoved := tick_moved m
  rw [h] at hmoved
  cases hmoved with
  | finished hstep _ hend =>
    have hpaid := stepCurrent_weight hm.takes hstep
    have hcounter := Engine.endFrame_refunded hend
    rw [stepCurrent_finished hstep] at hcounter
    unfold weight gas
    unfold Gas.refundRate at hpaid ⊢
    omega

/-! ## What that means -/

/-- All is well with the refunds at a machine. -/
structure RefundsSound (fork : Hardfork) (m : Machine β) : Prop where
  /-- The counters of all frames under way, with what an answer is about to
      bring, cover what the state owes. -/
  covered : m.engine.journal.owed fork ≤ m.refunds + answerRefund m.answer
  /-- 64 bits hold the counter of every frame under way. -/
  counters : ∀ act ∈ m.current :: m.parents, act.frame.gas.CounterFits
  /-- Likewise for that of an answer. -/
  answer : ∀ result, m.answer = some result → result.gas.CounterFits
  /-- Likewise for what the next tick makes of the current counter, which it
      moves at most once. -/
  next : m.stepCurrent.2.frame.gas.CounterFits

theorem Ledger.refundsSound (hm : Ledger fork b m)
    (hweight : m.weight ≤ Gas.refundRate * 2 ^ 55) : RefundsSound fork m := by
  have hstep : m.stepCurrent = (m.stepCurrent.1, m.stepCurrent.2) := rfl
  have hnext := stepCurrent_weight hm.takes hstep
  unfold weight gas at hweight
  unfold Gas.refundRate at hnext hweight
  refine ⟨hm.covered, ?_, ?_, .of_natAbs (by unfold Gas.refundRate; omega)⟩
  · intro act hact
    apply Gas.CounterFits.of_natAbs
    unfold Gas.refundRate
    rcases List.mem_cons.mp hact with rfl | hact
    · omega
    · have hless := natAbs_le_waitingWeight hact
      omega
  · intro result hanswer
    apply Gas.CounterFits.of_natAbs
    unfold Gas.refundRate
    simp only [hanswer, answerWeight] at hweight
    omega

end Machine

namespace Request

variable {request : Request} {e e' : Engine β}

/-- The ledger is opened with the first frame, where nothing is owed yet. -/
theorem start_ledger {act : Activation} (hnothing : e.journal.owed e.config.hardfork = 0)
    (h : request.start e = (.run act, e')) :
    ∃ base, Machine.Ledger e.config.hardfork base (⟨e', act, [], none⟩ : Machine β) := by
  have hopened := request.start_owed e e.config.hardfork
  have hsetup := request.start_setup e
  rw [h] at hopened hsetup
  cases hopened with
  | @run _ base _ _ _ hkind hinner howed _ =>
    refine ⟨base, congrArg Config.hardfork hsetup.config, ?_, ?_, .first hkind hinner, nofun⟩
    · intro act' hact
      obtain rfl := List.mem_singleton.mp hact
      exact start_hardfork h
    · have hfull := start_run h
      simp only [Machine.refunds, Machine.waitingRefunds, Machine.answerRefund, hfull, Gas.full]
      omega

/-- At first the weight is that of the gas. -/
theorem start_weight {act : Activation} (h : request.start e = (.run act, e')) :
    (⟨e', act, [], none⟩ : Machine β).weight = Gas.refundRate * request.gasLimit := by
  simp [Machine.weight, Machine.gas, Machine.answerWeight, Machine.answerGas,
    Machine.waitingWeight, Machine.waitingGas, start_run h, Gas.full]

end Request

namespace Engine

variable {e e' : Engine β}

/-- A request that is made when nothing is owed. -/
theorem request_refunds (request : Request) (hnothing : e.journal.owed e.config.hardfork = 0)
    (hgas : request.gasLimit ≤ 2 ^ 55) :
    (∀ m, request.Ticks e m → m.RefundsSound e.config.hardfork) ∧
      (request.perform e).1.gas.CounterFits ∧
      ((request.perform e).1.isSuccess = true → 0 ≤ (request.perform e).1.gas.refunded) := by
  have hlimit : Gas.refundRate * request.gasLimit ≤ Gas.refundRate * 2 ^ 55 :=
    Nat.mul_le_mul_left _ hgas
  constructor
  · rintro m ⟨act, e', hstart, hticks⟩
    obtain ⟨base, hfirst⟩ := Request.start_ledger hnothing hstart
    have hweight := Machine.ticks_weight hfirst hticks
    rw [Request.start_weight hstart] at hweight
    exact (hfirst.ticks hticks).refundsSound (Nat.le_trans hweight hlimit)
  · rw [Request.perform_eq]
    rcases hstart : request.start e with ⟨result | act, e'⟩
    · have hnone : result.gas.refunded = 0 := (Request.start_meter hstart).2
      have hfits : result.gas.CounterFits := .of_natAbs (by rw [hnone]; exact Nat.zero_le _)
      exact ⟨hfits, fun _ => Int.le_of_eq hnone.symm⟩
    · obtain ⟨base, hfirst⟩ := Request.start_ledger hnothing hstart
      obtain ⟨last, hticks, hlast⟩ := Machine.drive_ticks e' act
      have hledger := hfirst.ticks hticks
      have hweight := Machine.ticks_weight hfirst hticks
      rw [Request.start_weight hstart] at hweight
      have hcounter := Machine.finish_weight hledger hlast
      exact ⟨.of_natAbs (Nat.le_trans hcounter (Nat.le_trans hweight hlimit)),
        hledger.finish hlast⟩

/-- **The refund counters cover what the state owes.** A transaction on a new
    engine with no more gas than `2 ^ 55` is sound in its refunds at every point,
    instruction by instruction. If its first frame succeeds, the counter of that
    frame is not negative. -/
theorem refunds_cover {store : β} (hnew : e.journal = .ofBackend store) (tx : Transaction)
    (hgas : tx.gasLimit ≤ 2 ^ 55) :
    (∀ m, tx.Ticks e m → m.RefundsSound e.config.hardfork) ∧
      ∀ e', intrinsicGas e.config tx ≤ tx.gasLimit → prepare tx e = (.ok (), e') →
        let frame := ((tx.request (tx.gasLimit - intrinsicGas e.config tx)).perform e').1
        frame.gas.CounterFits ∧ (frame.isSuccess = true → 0 ≤ frame.gas.refunded) := by
  have hlimit : (tx.request (tx.gasLimit - intrinsicGas e.config tx)).gasLimit ≤ 2 ^ 55 := by
    rw [tx.request_gasLimit]
    omega
  -- the preparation neither clears slots nor marks accounts
  have hprepared : ∀ e', prepare tx e = (.ok (), e') →
      e'.config = e.config ∧ e'.journal.owed e'.config.hardfork = 0 := by
    intro e' hprepare
    have hchanges := prepare_changes tx e
    have hsetup := prepare_setup tx e
    rw [hprepare] at hchanges hsetup
    refine ⟨hsetup.config, ?_⟩
    rw [hchanges.owed_eq (fun _ h => h.light.owesNothing), hnew]
    exact owed_ofBackend _ _
  constructor
  · rintro m ⟨_, e', hprepare, hticks⟩
    obtain ⟨hconfig, hnothing⟩ := hprepared e' hprepare
    rw [← hconfig]
    exact (request_refunds _ hnothing hlimit).1 m (hconfig ▸ hticks)
  · intro e' _ hprepare
    exact (request_refunds _ (hprepared e' hprepare).2 hlimit).2

/-- A contract that clears a slot, and then has another one put back what was
    there. The second frame ends with a counter below zero, and what the first
    one has booked makes up for it. -/
theorem refunds_cover_taking_back :
    let contract : Address := .ofNat 77
    let clearing : Bytes :=
      ⟨#[0x60, 0, 0x60, 0, 0x55, 0x60, 0, 0x60, 0, 0x60, 0, 0x60, 0, 0x60, 78, 0x5a, 0xf4]⟩
    let restoring : Bytes := ⟨#[0x60, 1, 0x60, 0, 0x55]⟩
    let store : Database :=
      { Database.empty with
        accounts :=
          (Std.ExtTreeMap.empty.insert contract ⟨1, 0, ⟨1⟩⟩).insert (.ofNat 78) ⟨1, 0, ⟨2⟩⟩
        code := (Std.ExtTreeMap.empty.insert ⟨1⟩ clearing).insert ⟨2⟩ restoring
        storage := Std.ExtTreeMap.empty.insert ⟨contract, 0⟩ 1 }
    let e := new store .default (.ofHardfork .cancun)
    let tx : Transaction := ⟨.ofNat 3, .call contract, 0, ByteArray.empty, 100000, []⟩
    tx.gasLimit ≤ 2 ^ 55 ∧ (∃ m, tx.Ticks e m ∧ m.RefundsSound .cancun) ∧
      0 ≤ ((tx.request tx.gasLimit).perform (warmTransaction tx e)).1.gas.refunded ∧
      ((tx.request tx.gasLimit).perform (warmTransaction tx e)).1.gas.refunded = 4800 - 2000 := by
  intro contract clearing restoring store e tx
  have hgas : tx.gasLimit ≤ 2 ^ 55 := by decide
  have hnew : e.journal = .ofBackend store := rfl
  obtain ⟨hsound, hends⟩ := refunds_cover hnew tx hgas
  have hruns : (match (tx.request tx.gasLimit).start (warmTransaction tx e) with
      | (.run _, _) => true
      | (.done _, _) => false) = true := by decide +kernel
  have hresult : ((tx.request tx.gasLimit).perform (warmTransaction tx e)).1.isSuccess = true ∧
      ((tx.request tx.gasLimit).perform (warmTransaction tx e)).1.gas.refunded = 4800 - 2000 := by
    decide +kernel
  have hprepared : prepare tx e = (.ok (), warmTransaction tx e) := rfl
  have huncharged : tx.gasLimit - intrinsicGas e.config tx = tx.gasLimit := rfl
  obtain ⟨_, hcounter⟩ := hends _ (Nat.zero_le _) hprepared
  rw [huncharged] at hcounter
  refine ⟨hgas, ?_, hcounter hresult.1, hresult.2⟩
  rcases hstart : (tx.request tx.gasLimit).start (warmTransaction tx e) with ⟨result | act, e'⟩
  · rw [hstart] at hruns
    cases hruns
  · have hfirst : tx.Ticks e ⟨e', act, [], none⟩ :=
      ⟨Nat.zero_le _, warmTransaction tx e, rfl, act, e', hstart, .refl⟩
    exact ⟨_, hfirst, hsound _ hfirst⟩

end Engine

end Evm
