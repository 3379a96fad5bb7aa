import Evm.Proofs.Engine.Metering
import Evm.Proofs.Engine.Session
import Evm.State.Database

/-! # What a transaction reports

    The numbers of a report are computed anew when the frames have ended, from
    the gas that the first frame has left and from its counter of refunds. Here
    is that they fit together, and what a report of a failure can hold.

    All that the report depends on is the outcome of the first frame. A frame
    that halts has no gas left wherever it does so; only a request that opens no
    frame can halt and give its gas back (`Request.perform_halt`).
-/

namespace Evm

open Journal

variable {β : Type} [Backend β]

/-! ## The outcome of a request -/

namespace Engine

variable {ending : Ending} {result : FrameResult}

omit [Backend β] in
/-- A frame that is told to have halted has no gas left, if one that halts by
    itself has none. -/
theorem ToldAs.halt {err : EvmError} (h : ToldAs ending result)
    (hending : ∀ err, ending.exit = .halt err → ending.gas.remaining = 0)
    (hexit : result.exit = .halt err) : result.gas.remaining = 0 := by
  cases h with
  | ended => exact hending err hexit
  | refused => rfl
  | deployed hsuccess _ =>
    have hhalt : ending.exit = .halt err := hexit
    rw [hhalt] at hsuccess
    cases hsuccess

/-- A frame that failed names no new contract. -/
theorem ToldAs.unnamed (h : ToldAs ending result) (hfailure : result.isSuccess = false) :
    result.createdAddress = none := by
  cases h with
  | ended => rfl
  | refused => rfl
  | deployed hsuccess _ =>
    have hfails : ending.exit.isSuccess = false := hfailure
    rw [hfails] at hsuccess
    cases hsuccess

end Engine

namespace Machine

variable {m : Machine β} {result : FrameResult} {engine : Engine β}

/-- What the last tick tells of the first frame. -/
theorem finish_told (h : m.tick = .finished result engine) :
    ∃ ending, Engine.ToldAs ending result ∧
      ∀ err, ending.exit = .halt err → ending.gas.remaining = 0 := by
  have hmoved := tick_moved m
  rw [h] at hmoved
  cases hmoved with
  | @finished ending x _ _ hstep _ hend =>
    have htold := Engine.endFrame_told m.current.kind ending x.host
    rw [hend] at htold
    exact ⟨ending, htold, fun err hexit => stepCurrent_halts hstep hexit⟩

end Machine

namespace Request

variable (request : Request) (e : Engine β)

/-- A request is settled at once, or its first frame ends as it is told. -/
theorem perform_told :
    (∃ result e', request.start e = (.done result, e') ∧ (request.perform e).1 = result) ∨
      ∃ ending, Engine.ToldAs ending (request.perform e).1 ∧
        ∀ err, ending.exit = .halt err → ending.gas.remaining = 0 := by
  rw [perform_eq]
  rcases hstart : request.start e with ⟨result | act, e'⟩
  · exact .inl ⟨result, e', rfl, rfl⟩
  · obtain ⟨last, _, hlast⟩ := Machine.drive_ticks e' act
    exact .inr (Machine.finish_told hlast)

/-- **A halt is all or nothing**: it leaves no gas, or it is of a request that
    opened no frame, and all of its gas comes back. -/
theorem perform_halt {err : EvmError} (hexit : (request.perform e).1.exit = .halt err) :
    (request.perform e).1.gas.remaining = 0 ∨
      (∃ result e', request.start e = (.done result, e')) ∧
        (request.perform e).1.gas.remaining = request.gasLimit := by
  rcases request.perform_told e with ⟨result, e', hstart, hresult⟩ | ⟨ending, htold, hending⟩
  · rw [hresult] at hexit ⊢
    exact ((start_immediate hstart).halt err hexit).imp_right fun hback =>
      ⟨⟨result, e', hstart⟩, hback⟩
  · exact .inl (htold.halt hending hexit)

/-- Only a success names a new contract. -/
theorem perform_unnamed (hfailure : (request.perform e).1.isSuccess = false) :
    (request.perform e).1.createdAddress = none := by
  rcases request.perform_told e with ⟨result, e', hstart, hresult⟩ | ⟨ending, htold, _⟩
  · rw [hresult]
    exact (start_immediate hstart).unnamed
  · exact htold.unnamed hfailure

/-- A request returns no more gas than was sent. -/
theorem perform_back : (request.perform e).1.gas.remaining ≤ request.gasLimit := by
  rw [perform_eq]
  rcases hstart : request.start e with ⟨result | act, e'⟩
  · exact start_done hstart
  · obtain ⟨last, hticks, hlast⟩ := Machine.drive_ticks e' act
    exact (((start_metered hstart).ticks hticks).finish hlast).1

end Request

/-! ## Settling the gas -/

namespace FrameResult

variable {gasLimit quotient : Nat} {frame : FrameResult}

/-- The meter of a transaction whose frames have ended: all was spent but what
    the first frame has left. -/
def meter (gasLimit : Nat) (frame : FrameResult) : Gas :=
  (Gas.empty gasLimit).giveBack frame.gas.remaining

/-- What is paid back of the gas spent. -/
def paidRefund (gasLimit quotient : Nat) (frame : FrameResult) : Nat :=
  if frame.isSuccess then ((frame.meter gasLimit).refund frame.gas.refunded).finalRefund quotient
  else 0

/-- What is reported of a frame. -/
def report (gasLimit quotient : Nat) (logs : List Log) (frame : FrameResult) :
    TransactionResult where
  success := frame.isSuccess
  gasLeft := gasLimit - ((frame.meter gasLimit).spent - frame.paidRefund gasLimit quotient)
  gasUsed := (frame.meter gasLimit).spent - frame.paidRefund gasLimit quotient
  gasRefunded := frame.paidRefund gasLimit quotient
  output := frame.output
  revertReason := if frame.exit.isRevert then RevertReason.decode frame.output else none
  logs
  exit := frame.exit
  createdAddress := frame.createdAddress

/-- Without more gas left than there was, what was spent is the difference. -/
theorem meter_spent : (frame.meter gasLimit).spent = gasLimit - frame.gas.remaining := by
  simp [meter, Gas.spent, Gas.giveBack, Gas.empty]

/-- The refund is capped by a share of what was spent. -/
theorem paidRefund_le_share :
    frame.paidRefund gasLimit quotient ≤ (frame.meter gasLimit).spent / quotient := by
  unfold paidRefund
  split
  · exact Nat.min_le_right _ _
  · exact Nat.zero_le _

theorem paidRefund_le_spent : frame.paidRefund gasLimit quotient ≤ (frame.meter gasLimit).spent :=
  Nat.le_trans paidRefund_le_share (Nat.div_le_self _ _)

theorem paidRefund_of_failure (h : frame.isSuccess = false) :
    frame.paidRefund gasLimit quotient = 0 := by
  unfold paidRefund
  rw [h]
  rfl

end FrameResult

namespace Engine

/-- What is reported when the frames of a transaction have ended. -/
inductive Reported (gasLimit quotient : Nat) (frame : FrameResult) : TransactionResult → Prop where
  | told {logs : List Log} : (frame.isSuccess = false → logs = []) →
    Reported gasLimit quotient frame (frame.report gasLimit quotient logs)
  | refused {err : EvmError} : Reported gasLimit quotient frame (.rejected err gasLimit)

/-- The report is the frame's own, unless the store refuses what was done. -/
theorem finish_reported (gasLimit : Nat) (frame : FrameResult) (e : Engine β) :
    Reported gasLimit e.config.hardfork.refundQuotient frame (finish gasLimit frame e).1 := by
  unfold finish
  rw [state_get_bind_apply]
  simp only
  rw [state_ite_apply]
  cases hsuccess : frame.isSuccess with
  | false =>
    have htold : Reported gasLimit e.config.hardfork.refundQuotient frame
        (frame.report gasLimit e.config.hardfork.refundQuotient []) := .told fun _ => rfl
    rw [FrameResult.report, FrameResult.paidRefund, hsuccess] at htold
    exact htold
  | true =>
    rw [if_pos rfl, state_bind_apply]
    cases hsettle : Journal.settle e.journal with
    | error cause j =>
      rw [attempt_error hsettle]
      exact .refused
    | ok logs j =>
      rw [attempt_ok hsettle]
      have htold : Reported gasLimit e.config.hardfork.refundQuotient frame
          (frame.report gasLimit e.config.hardfork.refundQuotient logs) :=
        .told fun hfailure => by rw [hsuccess] at hfailure; cases hfailure
      rw [FrameResult.report, FrameResult.paidRefund, hsuccess] at htold
      exact htold

/-- What a transaction reports: that it was turned down, or what came of its
    request. -/
inductive TransactReported (tx : Transaction) (e : Engine β) : TransactionResult → Prop where
  | rejected {err : EvmError} : TransactReported tx e (.rejected err tx.gasLimit)
  | ran {e' : Engine β} {result : TransactionResult} :
    intrinsicGas e.config tx ≤ tx.gasLimit → prepare tx e = (.ok (), e') →
    Reported tx.gasLimit e.config.hardfork.refundQuotient
      ((tx.request (tx.gasLimit - intrinsicGas e.config tx)).perform e').1 result →
    TransactReported tx e result

theorem transact_reported (tx : Transaction) (e : Engine β) :
    TransactReported tx e (transact tx e).1 := by
  rw [transact_eq]
  by_cases hgas : tx.gasLimit < intrinsicGas e.config tx
  · rw [if_pos hgas]
    exact .rejected
  rw [if_neg hgas]
  rcases hprepare : prepare tx e with ⟨err | ⟨⟩, e'⟩
  · exact .rejected
  · have hsetup := prepare_setup tx e
    rw [hprepare] at hsetup
    have hconfig := (hsetup.trans (Request.perform_setup
      (tx.request (tx.gasLimit - intrinsicGas e.config tx)) e')).config
    have hreported := finish_reported tx.gasLimit
      ((tx.request (tx.gasLimit - intrinsicGas e.config tx)).perform e').1
      ((tx.request (tx.gasLimit - intrinsicGas e.config tx)).perform e').2
    refine .ran (Nat.le_of_not_lt hgas) hprepare ?_
    rwa [hconfig] at hreported

end Engine

/-! ## Reports -/

/-- No subtraction falls below zero when the gas of a transaction is settled:
    neither what was spent, nor what was used after the refund, nor what is left
    of the limit. -/
structure FrameResult.SettlesExactly (gasLimit quotient : Nat) (frame : FrameResult) : Prop where
  spent : (frame.meter gasLimit).remaining ≤ (frame.meter gasLimit).limit
  used : frame.paidRefund gasLimit quotient ≤ (frame.meter gasLimit).spent
  left : (frame.meter gasLimit).spent - frame.paidRefund gasLimit quotient ≤ gasLimit

/-- The report of a transaction is in order. -/
structure Transaction.SoundReport (tx : Transaction) (e : Engine β)
    (result : TransactionResult) : Prop where
  /-- All gas is used or left. -/
  gas : result.gasUsed + result.gasLeft = tx.gasLimit
  /-- The refund is capped by a share of what was used before it. -/
  refund : result.gasRefunded ≤
    (result.gasUsed + result.gasRefunded) / e.config.hardfork.refundQuotient
  /-- A failure refunds nothing, keeps no logs and creates nothing. -/
  failure : result.success = false →
    result.gasRefunded = 0 ∧ result.logs = [] ∧ result.createdAddress = none
  success : result.success = true ↔
    result.exit = .stop ∨ result.exit = .ret ∨ result.exit = .selfDestruct
  /-- A halt that leaves gas leaves all of it but that of the envelope, and there
      was no frame. -/
  halt : ∀ err, result.exit = .halt err → result.gasLeft ≠ 0 →
    (∀ m, ¬tx.Ticks e m) ∧ result.gasLeft = tx.gasLimit - Engine.intrinsicGas e.config tx

theorem ExitReason.isSuccess_iff (exit : ExitReason) :
    exit.isSuccess = true ↔ exit = .stop ∨ exit = .ret ∨ exit = .selfDestruct := by
  cases exit <;> simp [ExitReason.isSuccess]

/-- A transaction that was turned down has used all its gas. -/
theorem Transaction.SoundReport.rejected {tx : Transaction} {e : Engine β} {err : EvmError} :
    tx.SoundReport e (.rejected err tx.gasLimit) where
  gas := rfl
  refund := Nat.zero_le _
  failure _ := ⟨rfl, rfl, rfl⟩
  success := ExitReason.isSuccess_iff (.halt err)
  halt _ _ hleft := absurd rfl hleft

namespace Engine

omit [Backend β] in
theorem settles_exactly {gasLimit : Nat} (quotient : Nat) {frame : FrameResult}
    (hback : frame.gas.remaining ≤ gasLimit) : frame.SettlesExactly gasLimit quotient where
  spent := by
    simp only [FrameResult.meter, Gas.empty, Gas.giveBack]
    omega
  used := FrameResult.paidRefund_le_spent
  left := by
    rw [FrameResult.meter_spent]
    omega

/-- The report on a frame is in order if the frame has no more gas than it got,
    and its failures are all or nothing. -/
theorem sound_of_reported {tx : Transaction} {e : Engine β} {frame : FrameResult}
    {result : TransactionResult}
    (hreported : Reported tx.gasLimit e.config.hardfork.refundQuotient frame result)
    (hback : frame.gas.remaining ≤ tx.gasLimit - intrinsicGas e.config tx)
    (hunnamed : frame.isSuccess = false → frame.createdAddress = none)
    (hhalt : ∀ err, frame.exit = .halt err → frame.gas.remaining = 0 ∨
      (∀ m, ¬tx.Ticks e m) ∧ frame.gas.remaining = tx.gasLimit - intrinsicGas e.config tx) :
    tx.SoundReport e result := by
  cases hreported with
  | refused => exact .rejected
  | @told logs hlogs =>
    have hexact := settles_exactly e.config.hardfork.refundQuotient
      (Nat.le_trans hback (Nat.sub_le _ _))
    have hused := hexact.used
    refine ⟨?_, ?_, ?_, frame.exit.isSuccess_iff, ?_⟩
    · exact Nat.add_sub_cancel' hexact.left
    · simp only [FrameResult.report]
      rw [Nat.sub_add_cancel hused]
      exact FrameResult.paidRefund_le_share
    · intro hfailure
      exact ⟨FrameResult.paidRefund_of_failure hfailure, hlogs hfailure, hunnamed hfailure⟩
    · intro err hexit hleft
      have hfailure : frame.isSuccess = false := by
        rw [FrameResult.isSuccess, show frame.exit = .halt err from hexit]
        rfl
      -- without a refund, what is left is what the frame has left
      have hkept : (frame.report tx.gasLimit e.config.hardfork.refundQuotient logs).gasLeft =
          frame.gas.remaining := by
        simp only [FrameResult.report, FrameResult.paidRefund_of_failure hfailure,
          FrameResult.meter_spent]
        omega
      rw [hkept] at hleft ⊢
      exact (hhalt err hexit).resolve_left hleft

/-- **What a transaction reports is in order**, and no subtraction on the way
    falls below zero. -/
theorem transaction_report_sound (tx : Transaction) (e : Engine β) :
    tx.SoundReport e (transact tx e).1 ∧
      ∀ e', prepare tx e = (.ok (), e') →
        ((tx.request (tx.gasLimit - intrinsicGas e.config tx)).perform e').1.SettlesExactly
          tx.gasLimit e.config.hardfork.refundQuotient := by
  have hback : ∀ e' : Engine β, ((tx.request (tx.gasLimit - intrinsicGas e.config tx)).perform
      e').1.gas.remaining ≤ tx.gasLimit - intrinsicGas e.config tx := by
    intro e'
    have hsent := (tx.request (tx.gasLimit - intrinsicGas e.config tx)).perform_back e'
    rwa [tx.request_gasLimit] at hsent
  constructor
  · have hreported := transact_reported tx e
    generalize (transact tx e).1 = result at hreported
    cases hreported with
    | rejected => exact .rejected
    | @ran e' _ hgas hprepare hreported =>
      refine sound_of_reported hreported (hback e')
        (Request.perform_unnamed _ e') fun err hexit => ?_
      have hhalt := Request.perform_halt _ e' hexit
      rw [tx.request_gasLimit] at hhalt
      refine hhalt.imp_right fun ⟨⟨result, e1, hstart⟩, hall⟩ => ⟨?_, hall⟩
      -- a request that is settled at once opens no frame
      rintro m ⟨_, e2, hprepared, act, e3, hopened, _⟩
      rw [hprepare] at hprepared
      cases hprepared
      rw [hstart] at hopened
      cases hopened
  · exact fun e' _ => settles_exactly _ (Nat.le_trans (hback e') (Nat.sub_le _ _))

/-- A sender with nothing to send: the transaction halts, and all gas but that of
    the envelope is left. -/
theorem transaction_report_sound_unpaid :
    let tx : Transaction := ⟨.ofNat 3, .call (.ofNat 77), 5, ByteArray.empty, 50000, []⟩
    let engine :=
      new Database.empty .default { Config.ofHardfork .cancun with intrinsicGas := true }
    (∃ err, (transact tx engine).1.exit = .halt err) ∧ (transact tx engine).1.gasLeft = 29000 ∧
      (∀ m, ¬tx.Ticks engine m) ∧
      (transact tx engine).1.gasUsed + (transact tx engine).1.gasLeft = 50000 := by
  intro tx engine
  have hsound := (transaction_report_sound tx engine).1
  have hexit : (transact tx engine).1.exit =
      .halt (.ofStateError (.insufficientBalance (.ofNat 3) 0 5)) := by decide +kernel
  have hleft : (transact tx engine).1.gasLeft = 29000 := by decide +kernel
  refine ⟨⟨_, hexit⟩, hleft, ?_, hsound.gas⟩
  refine (hsound.halt _ hexit ?_).1
  rw [hleft]
  decide

end Engine

end Evm
