import Evm.Proofs.Frame.Registers

/-! # Destructions

    The one instruction that destroys an account names the beneficiary on top
    of the stack. A frame that carries it out has had the host destroy its
    own account in favour of that beneficiary, and did nothing else with the
    host.
-/

namespace Evm

/-- The frame is at a destruction that names the frame's own account as the
    beneficiary. -/
def Frame.NamesItself (frame : Frame) : Prop :=
  frame.opcode? = some .selfDestruct ∧
    ∃ target, frame.stack.head? = some target ∧ Address.ofWord target = frame.context.address

namespace Exec

variable {η : Type} [Host η] {x x' : Exec η}

/-- A block that may not use the host leaves it alone. -/
theorem MadeOf.host_eq {α : Type} {post : α → Prop} {op : StepM η α} {a : α}
    (hmade : MadeOf (fun _ => False) post op) (h : op x = .ok a x') : x'.host = x.host := by
  have hsmall : ∀ y z : Exec η, SmallStep (fun _ => False) y z →
      y.host = x.host → z.host = x.host := by
    intro y z hstep hy
    cases hstep with
    | host huse _ => exact huse.elim
    | _ => exact hy
  exact (hmade.success h).1.keeps hsmall rfl

section Blocks

omit [Host η]

theorem onHost_ok {α : Type} {op : HostM η α} {a : α} (h : onHost op x = .ok a x') :
    op x.host = .ok a x'.host ∧ x'.frame = x.frame := by
  unfold onHost at h
  cases hop : op x.host with
  | ok a' host =>
    simp only [hop] at h
    cases h
    exact ⟨rfl, rfl⟩
  | error e host =>
    simp only [hop] at h
    cases h

theorem failWhen_ok {condition : Bool} {e : EvmError} {u : Unit}
    (h : failWhen condition e x = .ok u x') : x' = x := by
  unfold failWhen at h
  split at h <;> cases h
  rfl

theorem requireWritable_ok {u : Unit} (h : requireWritable x = .ok u x') : x' = x := by
  obtain ⟨_, _, hcontext, hfail⟩ := bind_ok h
  cases hcontext
  exact failWhen_ok hfail

theorem pop_frame {w : Word} (h : pop x = .ok w x') :
    x' = { x with frame := { x.frame with stack := x'.frame.stack } } := by
  unfold pop at h
  split at h <;> cases h
  rfl

end Blocks

/-- **A destruction that succeeds** is of the frame's own account, in favour of
    the address on top of the stack. Before London it adds to the refund counter
    unless the account was destroyed already. -/
theorem selfDestruct_ok {s : Step} (h : selfDestruct x = .ok s x') :
    s = .exit .selfDestruct ByteArray.empty ∧
      ∃ target rest outcome, x.frame.stack = target :: rest ∧
        Host.selfDestruct x.frame.context.address (.ofWord target) x.host =
          .ok outcome x'.host ∧
        x'.frame.gas.refunded = x.frame.gas.refunded +
          if !x.frame.hardfork.includes .london && !outcome.previouslyDestroyed then
            Gas.selfDestructRefund else 0 := by
  unfold selfDestruct at h
  obtain ⟨_, x1, hwritable, h⟩ := bind_ok h
  obtain ⟨target, x2, htarget, h⟩ := bind_ok h
  obtain ⟨address, x3, haddress, h⟩ := bind_ok h
  cases haddress
  obtain ⟨outcome, x4, hhost, h⟩ := bind_ok h
  -- the check and the operand leave all but the stack alone
  rw [requireWritable_ok hwritable] at htarget
  have hpopped := pop_frame htarget
  obtain ⟨hdestroyed, hframe⟩ := onHost_ok hhost
  rw [hpopped] at hdestroyed hframe
  -- what follows is paid for without the host
  obtain ⟨_, x5, hcold, h⟩ := bind_ok h
  obtain ⟨_, x6, hnew, h⟩ := bind_ok h
  obtain ⟨fork, x7, hfork, h⟩ := bind_ok h
  cases hfork
  obtain ⟨_, x8, hrefund, h⟩ := bind_ok h
  cases hrefund
  cases h
  have hsteady : Frame.Steady (Frame.Tallied x.frame.gas.refunded x.frame.hardfork) :=
    Frame.Tallied.steady _ _
  have htallied : x6.frame.Tallied x.frame.gas.refunded x.frame.hardfork := by
    have hasked : x4.frame.Tallied x.frame.gas.refunded x.frame.hardfork := by
      rw [hframe]
      exact ⟨rfl, rfl⟩
    exact (Keeps.chargeWhen hsteady _ _).ok hnew ((Keeps.chargeWhen hsteady _ _).ok hcold hasked)
  have hsame : x6.host = x4.host :=
    ((MadeOf.chargeWhen _ _).host_eq hnew).trans ((MadeOf.chargeWhen _ _).host_eq hcold)
  refine ⟨rfl, target, _, outcome, pop_ok htarget, ?_, ?_⟩
  · rw [hsame]
    exact hdestroyed
  · simp only [Gas.refund, htallied.1, htallied.2]

/-- A step at a destruction that does not name the frame's own account, if it
    succeeds, destroys that account in favour of another. -/
theorem step_destroys {s : Step} (hop : x.frame.opcode? = some .selfDestruct)
    (hnames : ¬x.frame.NamesItself) (h : step x = .ok s x') :
    ∃ target outcome, target ≠ x.frame.context.address ∧
      Host.selfDestruct x.frame.context.address target x.host = .ok outcome x'.host := by
  rcases step_fetch hop with ⟨e, _, herror⟩ | ⟨gas, _, hexecute⟩
  · rw [herror] at h
    cases h
  · rw [hexecute] at h
    obtain ⟨_, target, rest, outcome, hstack, hdestroyed, _⟩ := selfDestruct_ok h
    refine ⟨.ofWord target, outcome, fun hself => ?_, hdestroyed⟩
    have hstack : x.frame.stack = target :: rest := hstack
    exact hnames ⟨hop, target, by rw [hstack]; rfl, hself⟩

end Exec

end Evm
