import Evm.Proofs.Engine.Order
import Evm.Proofs.Engine.Preparation
import Evm.Proofs.Engine.Standing

/-! # Sessions

    What an engine goes through between its making and its end: it is given
    transactions, calls, creations and code, one after another (`Session`), and
    each of them leads to ticks. Here is what a transaction does to the engine
    before its first frame and after its last one, said once for whatever is to
    hold over a whole session.
-/

namespace Evm

open Journal

variable {β : Type} [Backend β]

/-! ## Before the first frame -/

namespace Transaction

/-- What the preparation of a transaction does: it makes accesses, and counts up
    the nonce of the sender. -/
def Prepares (tx : Transaction) : Edit → Prop
  | .readAccount a => a = tx.caller
  | .warmAddress _ | .warmSlot _ => True
  | .account a previous new =>
    a = tx.caller ∧
      new = { previous.getD .empty with nonce := (previous.getD .empty).nonce + 1 }
  | _ => False

variable {tx : Transaction} {edit : Edit}

theorem Prepares.quiet (h : tx.Prepares edit) : edit.Quiet := by
  cases edit with
  | account a previous new =>
    obtain ⟨_, rfl⟩ := h
    rfl
  | storage _ _ => exact h.elim
  | _ => trivial

theorem Prepares.enduring (h : tx.Prepares edit) : edit.Enduring := by
  cases edit with
  | account a previous new =>
    obtain ⟨_, rfl⟩ := h
    exact .of_code (Nat.le_succ _) rfl
  | _ => trivial

theorem Prepares.light (h : tx.Prepares edit) : edit.Light := by
  cases edit <;> first | exact h.elim | trivial

/-- The machines that a transaction leads to, tick by tick. -/
def Ticks (tx : Transaction) (e : Engine β) (m : Machine β) : Prop :=
  Engine.intrinsicGas e.config tx ≤ tx.gasLimit ∧ ∃ e', Engine.prepare tx e = (.ok (), e') ∧
    (tx.request (tx.gasLimit - Engine.intrinsicGas e.config tx)).Ticks e' m

end Transaction

namespace Engine

variable {e e' : Engine β}

/-- The preparation of a transaction makes accesses and counts a nonce up. -/
theorem prepare_changes (tx : Transaction) (e : Engine β) :
    Changes tx.Prepares e.journal (prepare tx e).2.journal := by
  have hwarm : Changes tx.Prepares e.journal (warmTransaction tx e).journal :=
    warmTransaction_related (R := fun j _ : Journal β => Changes tx.Prepares e.journal j)
      (fun a j _ h => h.trans (warmAddress_changes j trivial))
      (fun s j _ h => h.trans (warmSlot_changes j trivial)) rfl rfl rfl (.refl _) tx
  have hread : ∀ edit : Edit, edit = .readAccount tx.caller → tx.Prepares edit := by
    rintro edit rfl
    rfl
  have hcounted := incrementNonce_spec tx.caller (warmTransaction tx e).journal
  have hprepared := prepare_spec tx e
  generalize prepare tx e = prepared at hprepared
  cases hprepared with
  | uncounted _ => exact hwarm
  | failed hcount =>
    rw [hcount] at hcounted
    cases hcounted with
    | failed hreads => exact hwarm.trans (hreads.mono hread)
  | counted hcount =>
    rw [hcount] at hcounted
    cases hcounted with
    | @counted old _ _ _ hreads hn happ =>
      subst hn
      have hcounts : tx.Prepares
          (.account tx.caller old { old.getD .empty with nonce := (old.getD .empty).nonce + 1 }) :=
        ⟨rfl, rfl⟩
      exact hwarm.trans ((hreads.mono hread).trans (.single hcounts happ))

/-- No account is taken away by the preparation. -/
theorem prepare_endures (tx : Transaction) (e : Engine β) :
    e.journal.Endures (prepare tx e).2.journal :=
  .of_changes ((prepare_changes tx e).mono fun _ hedit => hedit.enduring)

theorem prepare_setup (tx : Transaction) (e : Engine β) : SameSetup e (prepare tx e).2 := by
  have hprepared := prepare_spec tx e
  generalize prepare tx e = prepared at hprepared
  cases hprepared <;> exact ⟨rfl, rfl, rfl⟩

end Engine

/-! ## Between them -/

namespace Request

/-- Whatever a request does, it is done to the state. -/
theorem perform_setup (request : Request) (e : Engine β) :
    Engine.SameSetup e (request.perform e).2 := by
  have hsetup := request.start_setup e
  rw [request.perform_eq]
  rcases hstart : request.start e with ⟨result | act, e'⟩
  · rw [hstart] at hsetup
    exact hsetup
  · rw [hstart] at hsetup
    exact hsetup.trans (Machine.drive_setup ⟨e', act, [], none⟩ rfl rfl)

/-- A request can be undone. -/
theorem perform_reverts (request : Request) (e : Engine β) :
    RevertsTo e.journal (request.perform e).2.journal := by
  have hopened := request.start_balanced e
  rw [request.perform_eq]
  rcases hstart : request.start e with ⟨result | act, e'⟩
  · rw [hstart] at hopened
    exact hopened.reverts
  · rw [hstart] at hopened
    obtain ⟨base, hbefore, _, hkind, hafter⟩ := hopened.frame act rfl
    exact hbefore.trans (evaluates_reverts (Machine.evaluates_drive e' act) hkind hafter).1

/-- What every edit and undoing keep is kept by a request. -/
theorem perform_keeps {P : Journal β → Prop} (hP : Undoable P) (hkept : KeptBy P Edit.Any)
    (request : Request) {e : Engine β} (he : P e.journal) : P (request.perform e).2.journal := by
  have hall : ∀ ok : Edit → Prop, KeptBy P ok := fun ok => hkept.mono fun _ _ => trivial
  cases request with
  | call message => exact (Engine.call_keeps hP he (hall _) fun _ _ => hall _).1
  | create message => exact (Engine.create_keeps hP he (hall _) fun _ _ => hall _).1

end Request

namespace Engine

variable {e e' : Engine β}

/-! ## After the last frame -/

/-- What becomes of the engine when the frames of a transaction have ended. -/
inductive Finished (frame : FrameResult) (e : Engine β) : Engine β → Prop where
  | discarded : frame.isSuccess = false → Finished frame e (discard e).2
  | settled {logs : List Log} {j : Journal β} :
    frame.isSuccess = true → Journal.settle e.journal = .ok logs j →
    Finished frame e { e with journal := j }
  | refused {cause : StateError} {j : Journal β} :
    frame.isSuccess = true → Journal.settle e.journal = .error cause j →
    Finished frame e (discard { e with journal := j }).2

theorem finish_spec (gasLimit : Nat) (frame : FrameResult) (e : Engine β) :
    Finished frame e (finish gasLimit frame e).2 := by
  unfold finish
  rw [state_get_bind_apply]
  simp only
  rw [state_ite_apply]
  cases hsuccess : frame.isSuccess with
  | false => exact .discarded hsuccess
  | true =>
    rw [if_pos rfl, state_bind_apply]
    cases hsettle : Journal.settle e.journal with
    | ok logs j =>
      rw [attempt_ok hsettle]
      exact .settled hsuccess hsettle
    | error cause j =>
      rw [attempt_error hsettle]
      exact .refused hsuccess hsettle

/-- What becomes of the engine with a transaction: it is turned down at once, or
    when the nonce of the sender is counted up, or its request is carried out. -/
inductive Transacted (tx : Transaction) (e : Engine β) : Engine β → Prop where
  | rejected : tx.gasLimit < intrinsicGas e.config tx → Transacted tx e e
  | unprepared {err : StateError} {e' : Engine β} :
    prepare tx e = (.error err, e') → Transacted tx e (discard e').2
  | ran {e' e'' : Engine β} :
    intrinsicGas e.config tx ≤ tx.gasLimit → prepare tx e = (.ok (), e') →
    Finished ((tx.request (tx.gasLimit - intrinsicGas e.config tx)).perform e').1
      ((tx.request (tx.gasLimit - intrinsicGas e.config tx)).perform e').2 e'' →
    Transacted tx e e''

theorem transact_spec (tx : Transaction) (e : Engine β) : Transacted tx e (transact tx e).2 := by
  rw [transact_eq]
  by_cases hgas : tx.gasLimit < intrinsicGas e.config tx
  · rw [if_pos hgas]
    exact .rejected hgas
  rw [if_neg hgas]
  rcases hprepare : prepare tx e with ⟨err | ⟨⟩, e'⟩
  · exact .unprepared hprepare
  · exact .ran (Nat.le_of_not_lt hgas) hprepare (finish_spec _ _ _)

theorem Finished.setup {frame : FrameResult} (h : Finished frame e e') : SameSetup e e' := by
  cases h <;> exact ⟨rfl, rfl, rfl⟩

theorem Transacted.setup {tx : Transaction} (h : Transacted tx e e') : SameSetup e e' := by
  cases h with
  | rejected _ => exact ⟨rfl, rfl, rfl⟩
  | unprepared hprepare =>
    have hsetup := prepare_setup tx e
    rw [hprepare] at hsetup
    exact hsetup.trans ⟨rfl, rfl, rfl⟩
  | ran _ hprepare hfinished =>
    have hsetup := prepare_setup tx e
    rw [hprepare] at hsetup
    exact (hsetup.trans (Request.perform_setup _ _)).trans hfinished.setup

/-! ## Code from outside -/

/-- What becomes of the state when code is installed: the code is given to the
    account, and if that succeeds the state is settled. -/
inductive Installing (a : Address) (code : Bytes) (j : Journal β) : Journal β → Prop where
  | ungiven {cause : StateError} {j' : Journal β} :
    Journal.setCode a code j = .error cause j' → Installing a code j j'
  | given {hash : Hash} {j' : Journal β} :
    Journal.setCode a code j = .ok hash j' →
    Installing a code j (endState (Journal.settle j'))

theorem installCode_spec (a : Address) (code : Bytes) (e : Engine β) :
    ∃ j, (installCode a code e).2 = { e with journal := j } ∧ Installing a code e.journal j := by
  unfold installCode
  rw [state_bind_apply]
  cases hcode : Journal.setCode a code e.journal with
  | error cause j =>
    have hinstall : (do
        let hash ← Journal.setCode a code
        let _ ← Journal.settle
        return hash : JournalM β Hash) e.journal = .error cause j := by
      rw [bind_apply, hcode]
    rw [attempt_error hinstall]
    exact ⟨j, rfl, .ungiven hcode⟩
  | ok hash j =>
    have hgiven : Installing a code e.journal (endState (Journal.settle j)) := .given hcode
    cases hsettle : Journal.settle j with
    | ok logs j' =>
      have hinstall : (do
          let hash ← Journal.setCode a code
          let _ ← Journal.settle
          return hash : JournalM β Hash) e.journal = .ok hash j' := by
        rw [bind_apply, hcode]
        simp only [bind_apply, hsettle]
        rfl
      rw [hsettle] at hgiven
      rw [attempt_ok hinstall]
      exact ⟨j', rfl, hgiven⟩
    | error cause j' =>
      have hinstall : (do
          let hash ← Journal.setCode a code
          let _ ← Journal.settle
          return hash : JournalM β Hash) e.journal = .error cause j' := by
        rw [bind_apply, hcode]
        simp only [bind_apply, hsettle]
      rw [hsettle] at hgiven
      rw [attempt_error hinstall]
      exact ⟨j', rfl, hgiven⟩

/-! ## One after another -/

/-- The engines that an engine becomes when it is given transactions, calls,
    creations, code and new environments, whatever comes of them. -/
inductive Session (first : Engine β) : Engine β → Prop where
  | start : Session first first
  | transact {e : Engine β} (tx : Transaction) :
    Session first e → Session first (transact tx e).2
  | perform {e : Engine β} (request : Request) :
    Session first e → Session first (request.perform e).2
  | installCode {e : Engine β} (a : Address) (code : Bytes) :
    Session first e → Session first (installCode a code e).2
  | setEnv {e : Engine β} (env : Environment) :
    Session first e → Session first { e with env }

variable {first : Engine β}

/-- The rules and limits stay. -/
theorem Session.config (h : Session first e) : e.config = first.config := by
  induction h with
  | start => rfl
  | transact tx _ ih => exact (transact_spec tx _).setup.config.trans ih
  | perform request _ ih => exact (request.perform_setup _).config.trans ih
  | @installCode e a code _ ih =>
    obtain ⟨j, hinstalled, _⟩ := installCode_spec a code e
    rw [hinstalled]
    exact ih
  | setEnv env _ ih => exact ih

end Engine

end Evm
