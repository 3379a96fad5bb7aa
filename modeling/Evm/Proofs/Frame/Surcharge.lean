import Evm.Proofs.Frame.DataReads
import Evm.Proofs.Frame.Destruction
import Evm.Proofs.Frame.Metering
import Evm.Proofs.Journal.Warmth

/-! # What an access costs

    An instruction makes at most one access to an account or slot through its host,
    and pays more for it if the host says that it was the first one. What it pays
    otherwise depends on its operands and on what else the host answered
    (`Exec.visit?`); what it pays on top is one number for each instruction
    (`Opcode.surcharge`).

    That is all that it pays, but for the growth of memory. A frame is worth its gas
    and what its memory has cost (`Exec.worth`), which growth leaves the same, so
    that the meter before and after tells the price (`execute_pays`).
-/

namespace Evm

/-! ## Prices -/

namespace Opcode

/-- The instructions that make an access. -/
def Visits : Opcode → Prop
  | .balance | .selfBalance | .extCodeSize | .extCodeCopy | .extCodeHash | .sload | .sstore
  | .call _ | .selfDestruct => True
  | _ => False

/-- What an instruction pays on top for a first access. The balance of the frame's
    own account costs the same in any case. -/
def surcharge : Opcode → Nat
  | .balance | .extCodeSize | .extCodeCopy | .extCodeHash | .call _ => 2500
  | .sload => 2000
  | .sstore => 2100
  | .selfDestruct => 2600
  | _ => 0

end Opcode

/-- What an instruction accesses, with what it is told of that. -/
structure Visit where
  key : AccessKey
  isCold : Bool
  /-- What is paid in any case, the static cost and the growth of memory aside. -/
  price : Nat

/-- A step that asks for nothing sends nothing along. -/
theorem Step.IsPlain.sent_eq {s : Step} (h : s.IsPlain) : s.sent = 0 := by
  cases s with
  | call message => exact h.elim
  | create message => exact h.elim
  | _ => rfl

/-- A write that is the first access to its slot pays 2100 more. -/
theorem Gas.sstore_eq_warm (initial present new : Word) (isCold : Bool) :
    sstore initial present new isCold =
      sstore initial present new false + if isCold then 2100 else 0 := by
  cases isCold <;> rfl

namespace Exec

variable {η α γ : Type}

/-- A visit, if the host does not fail, and the host after it. -/
def told (op : HostM η α) (host : η) (visit : α → Visit) : Option (Visit × η) :=
  match op host with
  | .ok answer host => some (visit answer, host)
  | .error _ _ => none

/-- What moving a value with a call costs, less the stipend that is sent along for it,
    and what bringing the target into being does. -/
def valuePrice (scheme : CallScheme) (value : Word) (isEmpty : Bool) : Nat :=
  (if value ≠ 0 then Gas.callValue - Gas.callStipend else 0) +
    if value ≠ 0 ∧ scheme = .call ∧ isEmpty then Gas.newAccount else 0

/-- **The access that an instruction makes**, as its operands and the host tell, and
    the host after it. -/
def visit? [Host η] (op : Opcode) (x : Exec η) : Option (Visit × η) :=
  let self := x.frame.context.address
  match op, x.frame.stack with
  | .balance, a :: _ =>
    told (Host.balance (.ofWord a)) x.host fun loaded => ⟨.account (.ofWord a), loaded.isCold, 0⟩
  | .selfBalance, _ =>
    told (Host.balance self) x.host fun loaded => ⟨.account self, loaded.isCold, 0⟩
  | .extCodeSize, a :: _ =>
    told (Host.code (.ofWord a)) x.host fun loaded => ⟨.account (.ofWord a), loaded.isCold, 0⟩
  | .extCodeCopy, a :: _ :: _ :: len :: _ =>
    told (Host.code (.ofWord a)) x.host fun loaded =>
      ⟨.account (.ofWord a), loaded.isCold, Gas.copy len.toNat⟩
  | .extCodeHash, a :: _ =>
    told (Host.codeHash (.ofWord a)) x.host fun loaded => ⟨.account (.ofWord a), loaded.isCold, 0⟩
  | .sload, key :: _ =>
    told (Host.sload ⟨self, key⟩) x.host fun loaded => ⟨.slot ⟨self, key⟩, loaded.isCold, 0⟩
  | .sstore, key :: value :: _ =>
    told (Host.sstore ⟨self, key⟩ value) x.host fun outcome =>
      ⟨.slot ⟨self, key⟩, outcome.isCold,
        Gas.sstore outcome.initial outcome.present outcome.new false⟩
  | .call scheme, _ :: a :: rest =>
    let value := if takesValue scheme then rest.headD 0 else 0
    told (Host.loadAccount (.ofWord a)) x.host fun account =>
      ⟨.account (.ofWord a), account.isCold, valuePrice scheme value account.isEmpty⟩
  | .selfDestruct, a :: _ =>
    told (Host.selfDestruct self (.ofWord a)) x.host fun outcome =>
      ⟨.account (.ofWord a), outcome.isCold,
        if outcome.hadValue && !outcome.targetExists then Gas.newAccount else 0⟩
  | _, _ => none

/-- What a frame is worth: the gas that is left and what its memory has cost. -/
def worth (x : Exec η) : Nat := x.frame.gas.remaining + Gas.memory x.frame.memory.words

/-! ## Blocks that pay a fixed amount -/

/-- The block pays a fixed amount, the growth of memory aside, and leaves the host
    alone. -/
def Costs (op : StepM η α) (amount : Nat) : Prop :=
  ∀ x a y, op x = .ok a y →
    x.worth = y.worth + amount ∧ y.host = x.host ∧ y.frame.context = x.frame.context

namespace Costs

protected theorem pure (a : α) : Costs (pure a : StepM η α) 0 := by
  rintro x _ _ ⟨⟩
  exact ⟨rfl, rfl, rfl⟩

/-- What two blocks pay adds up. -/
theorem bind {op : StepM η α} {next : α → StepM η γ} {c d : Nat} (hop : Costs op c)
    (hnext : ∀ a, Costs (next a) d) : Costs (op >>= next) (c + d) := by
  intro x b z h
  obtain ⟨a, y, hfirst, hsecond⟩ := bind_ok h
  obtain ⟨hworth, hhost, hcontext⟩ := hop x a y hfirst
  obtain ⟨hworth', hhost', hcontext'⟩ := hnext a y b z hsecond
  exact ⟨by omega, hhost'.trans hhost, hcontext'.trans hcontext⟩

/-- A first block that pays nothing. -/
theorem seq {op : StepM η α} {next : α → StepM η γ} {d : Nat} (hop : Costs op 0)
    (hnext : ∀ a, Costs (next a) d) : Costs (op >>= next) d := by
  have h := hop.bind hnext
  rwa [Nat.zero_add] at h

/-- A block after which nothing is paid. -/
theorem last {op : StepM η α} {next : α → StepM η γ} {c : Nat} (hop : Costs op c)
    (hnext : ∀ a, Costs (next a) 0) : Costs (op >>= next) c := hop.bind hnext

theorem pop : Costs (pop : StepM η Word) 0 := by
  intro x w y h
  rw [pop_frame h]
  exact ⟨rfl, rfl, rfl⟩

theorem push (w : Word) : Costs (push w : StepM η Unit) 0 := by
  intro x u y h
  unfold Exec.push at h
  split at h <;> cases h
  exact ⟨rfl, rfl, rfl⟩

theorem pushNext (w : Word) : Costs (do Exec.push w; return .next : StepM η Step) 0 :=
  (push w).last fun _ => .pure _

theorem frameGet (f : Frame → α) : Costs (frameGet f : StepM η α) 0 := by
  rintro x _ _ ⟨⟩
  exact ⟨rfl, rfl, rfl⟩

theorem failWhen (condition : Bool) (e : EvmError) :
    Costs (failWhen condition e : StepM η Unit) 0 := by
  intro x u y h
  rw [failWhen_ok h]
  exact ⟨rfl, rfl, rfl⟩

theorem requireWritable : Costs (requireWritable : StepM η Unit) 0 :=
  (frameGet _).seq fun _ => failWhen _ _

theorem refund (amount : Int) : Costs (refund amount : StepM η Unit) 0 := by
  rintro x _ _ ⟨⟩
  exact ⟨rfl, rfl, rfl⟩

theorem charge (amount : Nat) : Costs (charge amount : StepM η Unit) amount := by
  intro x u y h
  obtain ⟨hrich, rfl⟩ := charge_ok h
  refine ⟨?_, rfl, rfl⟩
  unfold worth
  simp only
  omega

theorem chargeWhen (condition : Bool) (amount : Nat) :
    Costs (chargeWhen condition amount : StepM η Unit) (if condition then amount else 0) := by
  unfold Exec.chargeWhen
  cases condition with
  | true => exact charge amount
  | false => exact .pure _

theorem chargeCold (isCold : Bool) :
    Costs (chargeCold isCold : StepM η Unit) (if isCold then 2500 else 0) :=
  chargeWhen isCold _

/-- Memory that has grown is worth what was paid for it. -/
theorem expanded_worth {x : Exec η} {offset len : Nat} (hbound : Memory.Bounded offset len)
    (hlen : len ≠ 0) (hsmall : Gas.words (offset + len) < 2 ^ 32)
    (hrich : Gas.exactExpansion x.frame.memory.words (offset + len) ≤ x.frame.gas.remaining) :
    (x.expanded offset len).worth = x.worth := by
  have hsize : (x.frame.memory.resize offset len).words =
      max x.frame.memory.words (Gas.words (offset + len)) := by
    have hresized := Memory.size_resize (m := x.frame.memory) hbound
    rw [if_neg hlen] at hresized
    have hbefore : x.frame.memory.words = x.frame.memory.size / 32 := rfl
    have hafter : (x.frame.memory.resize offset len).words =
        (x.frame.memory.resize offset len).size / 32 := rfl
    omega
  have hprice := Gas.exactExpansion_add_memory x.frame.memory.words hsmall
  unfold worth expanded
  simp only [hsize]
  omega

/-- What is set aside is paid. -/
theorem setAside_ok {requested forwarded : Nat} {x y : Exec η}
    (h : setAside requested x = .ok forwarded y) :
    x.worth = y.worth + forwarded ∧ y.host = x.host := by
  unfold setAside at h
  obtain ⟨available, _, havailable, h⟩ := bind_ok h
  cases havailable
  obtain ⟨u, z, hcharge, hforwarded⟩ := bind_ok h
  cases hforwarded
  obtain ⟨hworth, hhost, _⟩ := charge _ _ _ _ hcharge
  exact ⟨hworth, hhost⟩

theorem resizeMemory (offset len : Word) :
    Costs (resizeMemory offset len : StepM η (Nat × Nat)) 0 := by
  intro x a y h
  by_cases hempty : len = 0
  · unfold Exec.resizeMemory at h
    rw [if_pos hempty] at h
    cases h
    exact ⟨rfl, rfl, rfl⟩
  by_cases hindex : offset.IsIndex ∧ len.IsIndex
  · rw [resizeMemory_of_isIndex hempty hindex.1 hindex.2] at h
    split at h
    · cases h
    · next hrich =>
      obtain ⟨hbound, hsmall⟩ := bounded_of_isIndex hindex.1 hindex.2
      have hlen : len.toNat ≠ 0 := fun hzero => hempty (BitVec.eq_of_toNat_eq hzero)
      cases h
      exact ⟨(expanded_worth hbound hlen hsmall (Nat.le_of_not_lt hrich)).symm, rfl, rfl⟩
  · rw [resizeMemory_of_not_isIndex hempty (Decidable.not_and_iff_or_not.mp hindex)] at h
    cases h

theorem copied_host (x : Exec η) (source : Bytes) (memOffset : Nat) (dataOffset : Word)
    (len : Nat) : (x.copied source memOffset dataOffset len).host = x.host := by
  have hexpanded : (x.expanded memOffset len).host = x.host := rfl
  rw [copied, withMemory_host, spend_host, hexpanded]

theorem copied_context (x : Exec η) (source : Bytes) (memOffset : Nat) (dataOffset : Word)
    (len : Nat) :
    (x.copied source memOffset dataOffset len).frame.context = x.frame.context := by
  have hexpanded : (x.expanded memOffset len).frame.context = x.frame.context := rfl
  rw [copied, withMemory_context, spend_context, hexpanded]

/-- What is written to a range that memory has grown to leaves its size alone. -/
theorem copied_worth (x : Exec η) (source : Bytes) (dataOffset : Word) {offset len : Nat}
    (hbound : Memory.Bounded offset len)
    (hrich : Gas.copy len ≤ (x.expanded offset len).frame.gas.remaining) :
    (x.expanded offset len).worth =
      (x.copied source offset dataOffset len).worth + Gas.copy len := by
  have hwindow : (Bytes.window source dataOffset.toNatCapped len).size = len :=
    Bytes.size_window _ _ _
  have hsize : ((x.frame.memory.resize offset len).storePadded offset len source
      dataOffset.toNatCapped).size = (x.frame.memory.resize offset len).size := by
    unfold Memory.storePadded
    rw [Memory.size_store (by rwa [hwindow]), hwindow, Memory.size_resize hbound,
      Memory.size_resize hbound]
    split
    · rfl
    · omega
  have hwords : ((x.frame.memory.resize offset len).storePadded offset len source
      dataOffset.toNatCapped).words = (x.frame.memory.resize offset len).words :=
    congrArg (· / 32) hsize
  have hexpanded : (x.expanded offset len).frame.memory = x.frame.memory.resize offset len := rfl
  unfold copied worth
  rw [withMemory_memory, withMemory_gas, spend_remaining, hwords, hexpanded]
  omega

/-- A copy pays by the word, and what it writes is where memory has grown to. -/
theorem copyToMemory (source : Bytes) (memOffset dataOffset len : Word) :
    Costs (copyToMemory source memOffset dataOffset len : StepM η Step) (Gas.copy len.toNat) := by
  intro x s y h
  by_cases hempty : len = 0
  · rw [hempty, copyToMemory_empty] at h
    cases h
    rw [hempty]
    exact ⟨rfl, rfl, rfl⟩
  by_cases hindex : memOffset.IsIndex ∧ len.IsIndex
  · rw [copyToMemory_of_isIndex hempty hindex.1 hindex.2] at h
    split at h
    · cases h
    next hrich =>
    split at h
    · cases h
    next hpaid =>
    cases h
    obtain ⟨hbound, hsmall⟩ := bounded_of_isIndex hindex.1 hindex.2
    have hlen : len.toNat ≠ 0 := fun hzero => hempty (BitVec.eq_of_toNat_eq hzero)
    have hgrown := expanded_worth hbound hlen hsmall (Nat.le_of_not_lt hrich)
    have hcopied := copied_worth x source dataOffset hbound
      (by rw [Gas.copy_of_isIndex hindex.2]; exact Nat.le_of_not_lt hpaid)
    rw [hgrown] at hcopied
    exact ⟨hcopied, copied_host _ _ _ _ _, copied_context _ _ _ _ _⟩
  · rw [copyToMemory_of_not_isIndex hempty (Decidable.not_and_iff_or_not.mp hindex)] at h
    cases h

theorem popValue (scheme : CallScheme) : Costs (popValue scheme : StepM η Word) 0 := by
  unfold Exec.popValue
  split
  · exact pop
  · exact .pure _

theorem chargeCall (scheme : CallScheme) (value : Word) (account : AccountLoad) :
    Costs (chargeCall scheme value account : StepM η Unit)
      ((if account.isCold then 2500 else 0) + ((if value ≠ 0 then Gas.callValue else 0) +
        if value ≠ 0 ∧ scheme = .call ∧ account.isEmpty then Gas.newAccount else 0)) := by
  have hcosts : Costs (Exec.chargeCall scheme value account : StepM η Unit) _ :=
    (chargeCold account.isCold).bind fun _ => (chargeWhen (value ≠ 0) Gas.callValue).bind fun _ =>
      chargeWhen (value ≠ 0 ∧ scheme = .call ∧ account.isEmpty) Gas.newAccount
  simpa only [decide_eq_true_eq] using hcosts

theorem requireMovable (scheme : CallScheme) (value : Word) :
    Costs (requireMovable scheme value : StepM η Unit) 0 := by
  unfold Exec.requireMovable
  split
  · exact requireWritable
  · exact .pure _

end Costs

/-! ## Instructions that make an access -/

/-- On the way from one state to another nothing was paid but for growth, and the host
    was left alone. -/
structure Free (x y : Exec η) : Prop where
  worth : x.worth = y.worth
  host : y.host = x.host
  context : y.frame.context = x.frame.context

variable {x x' y : Exec η} {s : Step}

namespace Free

theorem refl (x : Exec η) : Free x x := ⟨rfl, rfl, rfl⟩

/-- One more block that pays nothing. -/
theorem bind {op : StepM η α} {next : α → StepM η Step} (hx : Free x x') (hop : Costs op 0)
    (h : (op >>= next) x' = .ok s y) :
    ∃ a x'', op x' = .ok a x'' ∧ Free x x'' ∧ next a x'' = .ok s y := by
  obtain ⟨a, x'', hfirst, hrest⟩ := bind_ok h
  obtain ⟨hworth, hhost, hcontext⟩ := hop x' a x'' hfirst
  exact ⟨a, x'', hfirst, ⟨hx.worth.trans hworth, hhost.trans hx.host,
    hcontext.trans hx.context⟩, hrest⟩

/-- The address of the frame is still that of its start. -/
theorem self {next : Address → StepM η Step} (hx : Free x x')
    (h : (frameGet (·.context.address) >>= next) x' = .ok s y) :
    next x.frame.context.address x' = .ok s y := by
  rw [← hx.context]
  exact h

/-- The host is asked, and what is paid for the answer depends on it. -/
theorem asked {op : HostM η α} {rest : α → StepM η Step} {amount : α → Nat} (hx : Free x x')
    (h : (onHost op >>= rest) x' = .ok s y)
    (hrest : ∀ answer, Costs (rest answer) (amount answer)) :
    ∃ answer, op x.host = .ok answer y.host ∧ x.worth = y.worth + amount answer := by
  obtain ⟨answer, z, hasked, hpaid⟩ := bind_ok h
  obtain ⟨hanswer, hframe⟩ := onHost_ok hasked
  obtain ⟨hworth, hhost, _⟩ := hrest answer z s y hpaid
  have hsame : x'.worth = z.worth := by
    unfold Exec.worth
    rw [hframe]
  refine ⟨answer, ?_, by rw [hx.worth, hsame, hworth]⟩
  rw [← hx.host, hhost]
  exact hanswer

end Free

variable [Host η]

/-- The instruction makes the access that its operands and the host tell, and pays
    for that and, if it was the first one, the surcharge. It sends `sent` along. -/
def PaysVisit (op : Opcode) (sent : Nat) (x y : Exec η) : Prop :=
  ∃ visit, x.visit? op = some (visit, y.host) ∧
    x.worth = y.worth + sent + (visit.price + if visit.isCold then op.surcharge else 0)

theorem paysVisit_of_told {op : Opcode} {sent : Nat} {ask : HostM η α} {answer : α}
    {visit : α → Visit} (hvisit : x.visit? op = told ask x.host visit)
    (hanswer : ask x.host = .ok answer y.host)
    (hpaid : x.worth = y.worth + sent +
      ((visit answer).price + if (visit answer).isCold then op.surcharge else 0)) :
    PaysVisit op sent x y := by
  refine ⟨visit answer, ?_, hpaid⟩
  rw [hvisit, told, hanswer]

/-- The operand is an address, and the answer is paid for and pushed. -/
theorem askAccount_pays {op : Opcode} {ask : Address → HostM η α} {isCold : α → Bool}
    {value : α → Word}
    (hvisit : ∀ a rest, x.frame.stack = a :: rest → x.visit? op =
      told (ask (.ofWord a)) x.host fun answer => ⟨.account (.ofWord a), isCold answer, 0⟩)
    (hsurcharge : op.surcharge = 2500)
    (h : (do
      let a ← pop
      let answer ← onHost (ask (.ofWord a))
      chargeCold (isCold answer)
      push (value answer)
      return .next : StepM η Step) x = .ok s y) :
    PaysVisit op 0 x y := by
  obtain ⟨a, x1, ha, hfree, h⟩ := (Free.refl x).bind .pop h
  obtain ⟨answer, hanswer, hpaid⟩ :=
    hfree.asked h fun _ => (Costs.chargeCold _).last fun _ => .pushNext _
  refine paysVisit_of_told (hvisit a _ (pop_ok ha)) hanswer ?_
  rw [hsurcharge]
  dsimp only
  omega

theorem selfBalance_pays {pc : Nat} (h : execute .selfBalance pc x = .ok s y) :
    PaysVisit .selfBalance 0 x y := by
  unfold execute at h
  have h := (Free.refl x).self h
  obtain ⟨loaded, hanswer, hpaid⟩ := (Free.refl x).asked h fun _ => .pushNext _
  refine paysVisit_of_told rfl hanswer ?_
  dsimp only [Opcode.surcharge]
  rw [ite_self]
  exact hpaid

theorem extCodeCopy_pays {pc : Nat} (h : execute .extCodeCopy pc x = .ok s y) :
    PaysVisit .extCodeCopy 0 x y := by
  unfold execute at h
  obtain ⟨a, x1, ha, hfree, h⟩ := (Free.refl x).bind .pop h
  obtain ⟨memOffset, x2, hmem, hfree, h⟩ := hfree.bind .pop h
  obtain ⟨codeOffset, x3, hcode, hfree, h⟩ := hfree.bind .pop h
  obtain ⟨len, x4, hlen, hfree, h⟩ := hfree.bind .pop h
  -- the operands in the order they were popped
  have hstack := pop_ok ha
  rw [pop_ok hmem, pop_ok hcode, pop_ok hlen] at hstack
  obtain ⟨loaded, hanswer, hpaid⟩ :=
    hfree.asked h fun _ => (Costs.chargeCold _).bind fun _ => .copyToMemory _ _ _ _
  refine paysVisit_of_told (by unfold visit?; rw [hstack]) hanswer ?_
  dsimp only [Opcode.surcharge]
  omega

theorem sload_pays {pc : Nat} (h : execute .sload pc x = .ok s y) : PaysVisit .sload 0 x y := by
  unfold execute at h
  obtain ⟨key, x1, hkey, hfree, h⟩ := (Free.refl x).bind .pop h
  have h := hfree.self h
  obtain ⟨loaded, hanswer, hpaid⟩ :=
    hfree.asked h fun _ => (Costs.chargeWhen _ _).last fun _ => .pushNext _
  refine paysVisit_of_told (by unfold visit?; rw [pop_ok hkey]) hanswer ?_
  simp only [Gas.coldSload, Gas.warmAccess, Nat.reduceSub] at hpaid
  dsimp only [Opcode.surcharge]
  omega

/-- The price of a write is charged at once, with the surcharge. -/
theorem storeSlot_pays (h : storeSlot x = .ok s y) : PaysVisit .sstore 0 x y := by
  unfold storeSlot at h
  obtain ⟨_, _, hwritable, hfree, h⟩ := (Free.refl x).bind .requireWritable h
  cases requireWritable_ok hwritable
  obtain ⟨left, _, hleft, hfree, h⟩ := hfree.bind (.frameGet _) h
  cases hleft
  obtain ⟨_, _, hsentry, hfree, h⟩ := hfree.bind (.failWhen _ _) h
  cases failWhen_ok hsentry
  obtain ⟨key, x1, hkey, hfree, h⟩ := hfree.bind .pop h
  obtain ⟨value, x2, hvalue, hfree, h⟩ := hfree.bind .pop h
  have h := hfree.self h
  have hstack := pop_ok hkey
  rw [pop_ok hvalue] at hstack
  obtain ⟨outcome, hanswer, hpaid⟩ := hfree.asked h fun _ =>
    (Costs.charge _).last fun _ => (Costs.frameGet _).seq fun _ =>
      (Costs.refund _).seq fun _ => .pure _
  have hprice := Gas.sstore_eq_warm outcome.initial outcome.present outcome.new outcome.isCold
  refine paysVisit_of_told (by unfold visit?; rw [hstack]) hanswer ?_
  dsimp only [Opcode.surcharge]
  omega

theorem selfDestruct_pays (h : selfDestruct x = .ok s y) : PaysVisit .selfDestruct 0 x y := by
  unfold selfDestruct at h
  obtain ⟨_, _, hwritable, hfree, h⟩ := (Free.refl x).bind .requireWritable h
  cases requireWritable_ok hwritable
  obtain ⟨target, x1, htarget, hfree, h⟩ := hfree.bind .pop h
  have h := hfree.self h
  obtain ⟨outcome, hanswer, hpaid⟩ := hfree.asked h fun _ =>
    (Costs.chargeWhen _ _).bind fun _ => (Costs.chargeWhen _ _).last fun _ =>
      (Costs.frameGet _).seq fun _ => (Costs.refund _).seq fun _ => .pure _
  refine paysVisit_of_told (by unfold visit?; rw [pop_ok htarget]) hanswer ?_
  simp only [Gas.coldAccountAccess] at hpaid
  dsimp only [Opcode.surcharge]
  omega

omit [Host η] in
theorem popValue_ok {scheme : CallScheme} {value : Word} (h : popValue scheme x = .ok value x') :
    value = if takesValue scheme then x.frame.stack.headD 0 else 0 := by
  unfold popValue at h
  split at h
  · next htakes =>
    rw [if_pos htakes, pop_ok h]
    rfl
  · next htakes =>
    cases h
    rw [if_neg htakes]

/-- A call sends along what it sets aside, and the stipend, which moving the value
    pays for. -/
theorem call_pays {scheme : CallScheme} (h : call scheme x = .ok s y) :
    PaysVisit (.call scheme) s.sent x y := by
  unfold call at h
  obtain ⟨requested, x1, hrequested, hfree, h⟩ := (Free.refl x).bind .pop h
  obtain ⟨callee, x2, hcallee, hfree, h⟩ := hfree.bind .pop h
  obtain ⟨value, x3, hvalue, hfree, h⟩ := hfree.bind (.popValue _) h
  obtain ⟨inOffset, x4, _, hfree, h⟩ := hfree.bind .pop h
  obtain ⟨inLen, x5, _, hfree, h⟩ := hfree.bind .pop h
  obtain ⟨outOffset, x6, _, hfree, h⟩ := hfree.bind .pop h
  obtain ⟨outLen, x7, _, hfree, h⟩ := hfree.bind .pop h
  obtain ⟨_, x8, _, hfree, h⟩ := hfree.bind (.requireMovable _ _) h
  obtain ⟨input, x9, _, hfree, h⟩ := hfree.bind (.resizeMemory _ _) h
  obtain ⟨output, x10, _, hfree, h⟩ := hfree.bind (.resizeMemory _ _) h
  have hstack := pop_ok hrequested
  rw [pop_ok hcallee] at hstack
  have hamount := popValue_ok hvalue
  -- what is set aside is known only when it is charged
  obtain ⟨account, x11, hasked, h⟩ := bind_ok h
  obtain ⟨_, x12, hcharged, h⟩ := bind_ok h
  obtain ⟨forwarded, x13, hforwarded, h⟩ := bind_ok h
  obtain ⟨hanswer, hframe⟩ := onHost_ok hasked
  obtain ⟨hpaid, hhost, _⟩ := Costs.chargeCall scheme value account x11 _ x12 hcharged
  obtain ⟨haside, hhost'⟩ := Costs.setAside_ok hforwarded
  cases h
  have hsame : x10.worth = x11.worth := by
    unfold worth
    rw [hframe]
  rw [hfree.host, ← hhost, ← hhost'] at hanswer
  refine paysVisit_of_told (by unfold visit?; rw [hstack]) hanswer ?_
  -- the message carries what was set aside, with the stipend
  have hsent (input : Bytes) (gasLimit : Nat) : (Step.call
      (callMessage x13.frame.context scheme (.ofWord callee) value input gasLimit)).sent =
        gasLimit := by
    cases scheme <;> rfl
  have hafter : Exec.worth { x13 with
      frame := { x13.frame with waiting := some (.call output.1 output.2) } } = x13.worth := rfl
  rw [hsent, hafter, hfree.worth, hsame, hpaid, haside]
  dsimp only [Opcode.surcharge, valuePrice, Gas.callValue, Gas.callStipend]
  rw [← hamount]
  -- the stipend that is sent along is paid for by the value
  by_cases hvalue : value ≠ 0
  · simp only [if_pos hvalue]
    omega
  · simp only [if_neg hvalue]
    omega

/-- **What an instruction pays for its access.** -/
theorem execute_pays {op : Opcode} {pc : Nat} (hop : op.Visits)
    (h : execute op pc x = .ok s y) : PaysVisit op s.sent x y := by
  have hany : ∀ use : HostUse, use.Suits op → (fun _ : HostUse => True) use :=
    fun _ _ => trivial
  by_cases hrequests : op.Requests
  · cases op with
    | call scheme => exact call_pays h
    | create => exact hop.elim
    | create2 => exact hop.elim
    | _ => exact hrequests.elim
  rw [((MadeOf.execute_plain op pc hany hrequests).success h).2.sent_eq]
  cases op with
  | balance =>
    unfold execute at h
    exact askAccount_pays (fun a rest hstack => by unfold visit?; rw [hstack]) rfl h
  | selfBalance => exact selfBalance_pays h
  | extCodeSize =>
    unfold execute at h
    exact askAccount_pays (fun a rest hstack => by unfold visit?; rw [hstack]) rfl h
  | extCodeHash =>
    unfold execute at h
    exact askAccount_pays (fun a rest hstack => by unfold visit?; rw [hstack]) rfl h
  | extCodeCopy => exact extCodeCopy_pays h
  | sload => exact sload_pays h
  | sstore => exact storeSlot_pays h
  | selfDestruct => exact selfDestruct_pays h
  | call scheme => exact absurd trivial hrequests
  | _ => exact hop.elim

/-! ## Steps -/

/-- **What a step pays for its access**, with the static cost of its instruction. -/
theorem step_pays {op : Opcode} (hat : x.frame.opcode? = some op) (hop : op.Visits)
    (h : step x = .ok s y) :
    ∃ visit, x.visit? op = some (visit, y.host) ∧
      x.worth = y.worth + s.sent + (Gas.static op + visit.price) +
        if visit.isCold then op.surcharge else 0 := by
  rcases step_fetch hat with ⟨e, _, herror⟩ | ⟨gas, hgas, hexecute⟩
  · rw [herror] at h
    cases h
  · rw [hexecute] at h
    obtain ⟨hrich, rfl⟩ := Gas.charge?_ok hgas
    obtain ⟨visit, hvisit, hpaid⟩ := execute_pays hop h
    refine ⟨visit, hvisit, ?_⟩
    unfold worth at hpaid ⊢
    simp only at hpaid
    omega

/-- **What an instruction pays on top for its access**, read off the meter: what the
    frame loses beyond what it sends along and what the access costs in any case. One
    that fails pays nothing; its frame forfeits all gas, and what it did is undone. -/
def surcharge (x : Exec η) : Nat :=
  match x.frame.opcode? with
  | none => 0
  | some op =>
    match x.visit? op, step x with
    | some (visit, _), .ok s y => x.worth - (y.worth + s.sent + (Gas.static op + visit.price))
    | _, _ => 0

theorem surcharge_eq {op : Opcode} {visit : Visit} {host : η} {amount : Nat}
    (hat : x.frame.opcode? = some op) (hvisit : x.visit? op = some (visit, host))
    (h : step x = .ok s y)
    (hpaid : x.worth = y.worth + s.sent + (Gas.static op + visit.price) + amount) :
    x.surcharge = amount := by
  unfold surcharge
  simp only [hat, hvisit, h]
  omega

end Exec

end Evm
