import Evm.Proofs.Engine.Session
import Evm.Proofs.Engine.Static
import Evm.Proofs.Journal.Writing

/-! # Failed transactions and the store

    Nothing of a transaction reaches the store before it is settled, and only
    a transaction whose frames succeeded is settled. So a transaction that
    fails leaves the store as it was, with one exception: where the store
    refuses a write of the settlement, the transaction is turned down although
    its frames succeeded, and the writes before the refused one are not taken
    back. Those are the first writes that were due in the state the frames
    left, in the order of the settlement.
-/

namespace Evm

open Journal

variable {β : Type} [Backend β]

namespace Engine

variable {e : Engine β}

theorem finish_failure {gasLimit : Nat} {frame : FrameResult}
    (hfails : (finish gasLimit frame e).1.success = false) :
    (finish gasLimit frame e).2.journal.backend = e.journal.backend ∨ ∃ cause : StateError,
      frame.isSuccess = true ∧
        Write.Stopped e.journal.writes cause e.journal.backend
          (finish gasLimit frame e).2.journal.backend ∧
        (finish gasLimit frame e).1 = .rejected (.ofStateError cause) gasLimit := by
  unfold finish at hfails ⊢
  rw [state_get_bind_apply] at hfails ⊢
  simp only at hfails ⊢
  rw [state_ite_apply] at hfails ⊢
  cases hsuccess : frame.isSuccess with
  | false => exact .inl (discard_backend e)
  | true =>
    rw [hsuccess, if_pos rfl, state_bind_apply] at hfails
    rw [if_pos rfl, state_bind_apply]
    have hwrote := settle_wrote e.journal
    cases hsettle : Journal.settle e.journal with
    | ok logs j =>
      -- with its changes written the transaction succeeds
      rw [attempt_ok hsettle] at hfails
      cases hfails
    | error cause j =>
      rw [hsettle] at hwrote
      rw [attempt_error hsettle]
      cases hwrote with
      | stopped hstopped =>
        have hbackend : (discard { e with journal := j }).2.journal.backend = j.backend :=
          discard_backend _
        exact .inr ⟨cause, rfl, hbackend ▸ hstopped, rfl⟩

end Engine

end Evm
