import Evm.Proofs.Frame.Equations
import Evm.Proofs.Frame.Expansion
import Evm.Proofs.Frame.Jumps

/-! # Reading data

    Six kinds of instructions read call data, code or return data, and all of
    them see a string that goes on with zeros for ever. The positions are words
    of 256 bits. They are cut down to 64 bits on the way, and a word that is
    pushed is put together from what is left of the string and zeros.

    Neither shows: what is read is at the position that the whole word says
    (`data_reads`), as long as the string itself is no longer than 64 bits can
    count. A copy writes its range and nothing else (`Memory.HasCopied`), and it
    is made if and only if it can be paid (`Exec.Copies`). Return data alone has
    an end, and a range that reaches past it halts the frame, be it empty.
-/

namespace Evm

/-! ## Positions that are cut down -/

/-- The last position that 64 bits hold is past the end of any string. -/
theorem Bytes.byteAt_capped {b : Bytes} (hsize : b.size ≤ Word.maxUInt64) (offset : Word)
    (i : Nat) : byteAt b (offset.toNatCapped + i) = byteAt b (offset.toNat + i) := by
  unfold Word.toNatCapped
  by_cases hfits : offset.toNat ≤ Word.maxUInt64
  · rw [Nat.min_eq_left hfits]
  · rw [byteAt_of_le b _ (by omega), byteAt_of_le b _ (by omega)]

/-- The sum of two words, wrapped around or not, against the size of a string. -/
theorem Word.endsPast_iff {size : Nat} (hsize : size ≤ maxUInt64) (offset len : Word) :
    (offset.uaddOverflow len || decide (ofNat size < offset + len)) = true ↔
      size < offset.toNat + len.toNat := by
  have hbig : maxUInt64 < 2 ^ 256 := by decide
  have hoffset := offset.isLt
  have hlen := len.isLt
  rw [Bool.or_eq_true, BitVec.uaddOverflow, decide_eq_true_eq, decide_eq_true_eq, BitVec.lt_def,
    BitVec.toNat_add, BitVec.toNat_ofNat, Nat.mod_eq_of_lt (hsize.trans_lt hbig)]
  by_cases hwraps : 2 ^ 256 ≤ offset.toNat + len.toNat
  · -- a sum that is no word any more is past the end of any string
    exact iff_of_true (.inl hwraps) (by omega)
  · rw [Nat.mod_eq_of_lt (by omega)]
    exact or_iff_right hwraps

/-! ## Words put together -/

/-- A word of the data, with its position cut down. -/
theorem Word.toNat_ofBytesAt_window {b : Bytes} (hsize : b.size ≤ maxUInt64) (offset : Word) :
    (ofBytesAt (Bytes.window b offset.toNatCapped 32) 0).toNat =
      ∑ i ∈ Finset.range 32, (Bytes.byteAt b (offset.toNat + i)).toNat * 256 ^ (31 - i) := by
  rw [toNat_ofBytesAt, Bytes.number_window, Bytes.number_eq_sum]
  apply Finset.sum_congr rfl
  intro i _
  rw [Bytes.byteAt_capped hsize]

/-- Less than a word of the code, with zeros in front. -/
theorem Word.toNat_ofBytesAt_padded (b : Bytes) (start : Nat) {n : Nat} (hn : n < 32) :
    (ofBytesAt (Bytes.zeros (32 - (n + 1)) ++ Bytes.window b start (n + 1)) 0).toNat =
      ∑ i ∈ Finset.range (n + 1), (Bytes.byteAt b (start + i)).toNat * 256 ^ (n - i) := by
  have hword : 32 = (32 - (n + 1)) + (n + 1) := by omega
  have hnumber := Bytes.number_zeros_append (Bytes.window b start (n + 1)) (32 - (n + 1)) (n + 1)
  rw [← hword, Bytes.number_window] at hnumber
  rw [toNat_ofBytesAt, hnumber, Bytes.number_eq_sum, Nat.add_sub_cancel]

/-! ## Copies in memory -/

theorem Memory.byteAt_storePadded {m : Memory} {offset len : Nat} (hbound : Bounded offset len)
    (source : Bytes) (sourceOffset i : Nat) :
    Bytes.byteAt (m.storePadded offset len source sourceOffset).data i =
      splice (Bytes.byteAt m.data) offset len
        (fun j => Bytes.byteAt source (sourceOffset + j)) i := by
  rw [storePadded, byteAt_store (by rwa [Bytes.size_window]), Update.splice_window]

/-- Memory after a copy: the range holds the bytes of the endless source, and
    all else is as it was. -/
structure Memory.HasCopied (before after : Memory) (source : Bytes)
    (memOffset dataOffset len : Nat) : Prop where
  inside : ∀ j < len,
    Bytes.byteAt after.data (memOffset + j) = Bytes.byteAt source (dataOffset + j)
  outside : ∀ i, ¬(memOffset ≤ i ∧ i < memOffset + len) →
    Bytes.byteAt after.data i = Bytes.byteAt before.data i

theorem Memory.hasCopied_empty (m : Memory) (source : Bytes) (memOffset dataOffset : Nat) :
    m.HasCopied m source memOffset dataOffset 0 where
  inside _ hj := absurd hj (Nat.not_lt_zero _)
  outside _ _ := rfl

theorem Memory.hasCopied_storePadded {m : Memory} {source : Bytes} {offset len : Nat}
    (hsize : source.size ≤ Word.maxUInt64) (hbound : Bounded offset len) (dataOffset : Word) :
    m.HasCopied ((m.resize offset len).storePadded offset len source dataOffset.toNatCapped)
      source offset dataOffset.toNat len where
  inside j hj := by
    have hin : offset ≤ offset + j ∧ offset + j < offset + len := by omega
    rw [byteAt_storePadded hbound, splice, if_pos hin, Nat.add_sub_cancel_left,
      Bytes.byteAt_capped hsize]
  outside i hi := by
    rw [byteAt_storePadded hbound, splice, if_neg hi, byteAt_resize]

/-! ## What a copy takes -/

theorem Gas.copy_of_isIndex {len : Word} (h : len.IsIndex) :
    copy len.toNat = 3 * words len.toNat := by
  unfold Word.IsIndex at h
  unfold copy capped words Word.maxUInt64
  omega

namespace Frame

/-- The frame stands at an instruction with its operands on top of `rest`, has
    room for what the instruction leaves and can pay its static cost. -/
structure Ready (frame : Frame) (op : Opcode) (operands : List Word) (rest : Stack) : Prop where
  atOpcode : frame.opcode? = some op
  stack : frame.stack = operands ++ rest
  room : rest.length + op.outputs ≤ Stack.limit
  gas : Gas.static op ≤ frame.gas.remaining

/-- What a copy of `len` bytes to `memOffset` costs: the growth of memory and
    three for each word. An empty copy costs nothing. -/
def copyPrice (frame : Frame) (memOffset len : Word) : Nat :=
  if len = 0 then 0
  else
    Gas.exactExpansion frame.memory.words (memOffset.toNat + len.toNat) + 3 * Gas.words len.toNat

/-- What it takes for a copy not to halt: a range of indices, unless it is
    empty, and its price on top of what is paid before. -/
def CanCopy (frame : Frame) (paid : Nat) (memOffset len : Word) : Prop :=
  (len = 0 ∨ memOffset.IsIndex ∧ len.IsIndex) ∧
    paid + frame.copyPrice memOffset len ≤ frame.gas.remaining

instance (frame : Frame) (paid : Nat) (memOffset len : Word) :
    Decidable (frame.CanCopy paid memOffset len) :=
  inferInstanceAs (Decidable (_ ∧ _))

end Frame

namespace Exec

variable {η : Type} {x x' : Exec η} {source : Bytes} {memOffset dataOffset len : Word}
  {rest : Stack} {paid : Nat} {result : EStateM.Result EvmError (Exec η) Step}

/-- What becomes of a copy: it is made, with its operands off the stack, if it
    can be paid, and otherwise the frame is out of gas. -/
structure Copies (source : Bytes) (memOffset dataOffset len : Word) (rest : Stack) (paid : Nat)
    (x : Exec η) (result : EStateM.Result EvmError (Exec η) Step) : Prop where
  goes : x.frame.CanCopy paid memOffset len →
    ∃ y, result = .ok .next y ∧ y.frame.stack = rest ∧
      x.frame.memory.HasCopied y.frame.memory source memOffset.toNat dataOffset.toNat len.toNat
  halts : ¬x.frame.CanCopy paid memOffset len → ∃ y, result = .error .outOfGas y

/-- Gas that is paid before the copy counts against it. -/
theorem Copies.after_payment {paid' : Nat}
    (h : Copies source memOffset dataOffset len rest paid' x' result)
    (hpaid : paid ≤ x.frame.gas.remaining)
    (hgas : x'.frame.gas.remaining = x.frame.gas.remaining - paid)
    (hmemory : x'.frame.memory = x.frame.memory) :
    Copies source memOffset dataOffset len rest (paid + paid') x result := by
  -- the price does not depend on the gas, so the payment only changes sides
  have hsame : x'.frame.CanCopy paid' memOffset len ↔
      x.frame.CanCopy (paid + paid') memOffset len := by
    unfold Frame.CanCopy Frame.copyPrice
    rw [hgas, hmemory]
    exact and_congr_right fun _ => by omega
  obtain ⟨hgoes, hhalts⟩ := h
  rw [hsame] at hgoes hhalts
  rw [hmemory] at hgoes
  exact ⟨hgoes, hhalts⟩

/-- A copy that is made or out of gas fails for no other reason. -/
theorem Copies.not_outOfBounds (h : Copies source memOffset dataOffset len rest paid x result) :
    ¬∃ y, result = .error .returnDataOutOfBounds y := by
  rintro ⟨y, hy⟩
  subst hy
  by_cases hcan : x.frame.CanCopy paid memOffset len
  · obtain ⟨_, hgoes, _⟩ := h.goes hcan
    cases hgoes
  · obtain ⟨_, hhalts⟩ := h.halts hcan
    cases hhalts

/-- The part of a copy that comes after memory has grown. -/
def payAndStore (source : Bytes) (memOffset : Nat) (dataOffset : Word) (len : Nat) :
    StepM η Step := do
  charge (Gas.copy len)
  modifyMemory (·.storePadded memOffset len source dataOffset.toNatCapped)
  return .next

theorem payAndStore_apply (source : Bytes) (memOffset : Nat) (dataOffset : Word) (len : Nat)
    (x : Exec η) :
    payAndStore source memOffset dataOffset len x =
      if x.frame.gas.remaining < Gas.copy len then .error .outOfGas x
      else .ok .next ((x.spend (Gas.copy len)).withMemory
        (x.frame.memory.storePadded memOffset len source dataOffset.toNatCapped)) := by
  rw [payAndStore, bind_apply, charge_apply]
  by_cases hpoor : x.frame.gas.remaining < Gas.copy len
  · rw [if_pos hpoor, if_pos hpoor]
  · rw [if_neg hpoor, if_neg hpoor]
    rfl

/-- An empty copy changes nothing, wherever it would go. -/
theorem copyToMemory_empty (x : Exec η) (source : Bytes) (memOffset dataOffset : Word) :
    copyToMemory source memOffset dataOffset 0 x = .ok .next x := by
  have hresize : resizeMemory memOffset 0 x = .ok (0, 0) x := by
    unfold resizeMemory
    rw [if_pos rfl]
    rfl
  have hrest : copyToMemory source memOffset dataOffset 0 x =
      payAndStore source 0 dataOffset 0 x := by
    rw [copyToMemory, bind_apply, hresize]
    rfl
  have hcopy : Gas.copy 0 = 0 := rfl
  have hstore : x.frame.memory.storePadded 0 0 source dataOffset.toNatCapped = x.frame.memory := by
    rw [Memory.storePadded, Memory.store, if_pos (Bytes.size_window _ _ _)]
  rw [hrest, payAndStore_apply, hcopy, if_neg (Nat.not_lt_zero _), hstore]
  rfl

/-- A frame that has grown its memory for a copy, paid for the copy and made
    it. -/
def copied (x : Exec η) (source : Bytes) (memOffset : Nat) (dataOffset : Word) (len : Nat) :
    Exec η :=
  ((x.expanded memOffset len).spend (Gas.copy len)).withMemory
    ((x.frame.memory.resize memOffset len).storePadded memOffset len source
      dataOffset.toNatCapped)

theorem copied_stack (x : Exec η) (source : Bytes) (memOffset : Nat) (dataOffset : Word)
    (len : Nat) : (x.copied source memOffset dataOffset len).frame.stack = x.frame.stack := by
  have hexpanded : (x.expanded memOffset len).frame.stack = x.frame.stack := rfl
  rw [copied, withMemory_stack, spend_stack, hexpanded]

theorem hasCopied_copied (hsize : source.size ≤ Word.maxUInt64) (x : Exec η) (dataOffset : Word)
    {offset len : Nat} (hbound : Memory.Bounded offset len) :
    x.frame.memory.HasCopied (x.copied source offset dataOffset len).frame.memory source offset
      dataOffset.toNat len := by
  rw [copied, withMemory_memory]
  exact Memory.hasCopied_storePadded hsize hbound dataOffset

/-- A copy of a range of indices pays for the range and then for its words. -/
theorem copyToMemory_of_isIndex (hempty : len ≠ 0) (hoffset : memOffset.IsIndex)
    (hlen : len.IsIndex) (x : Exec η) (source : Bytes) (dataOffset : Word) :
    copyToMemory source memOffset dataOffset len x =
      if x.frame.gas.remaining <
          Gas.exactExpansion x.frame.memory.words (memOffset.toNat + len.toNat) then
        .error .outOfGas x
      else if x.frame.gas.remaining -
          Gas.exactExpansion x.frame.memory.words (memOffset.toNat + len.toNat) <
          3 * Gas.words len.toNat then
        .error .outOfGas (x.expanded memOffset.toNat len.toNat)
      else .ok .next (x.copied source memOffset.toNat dataOffset len.toNat) := by
  rw [copyToMemory, bind_apply, resizeMemory_of_isIndex hempty hoffset hlen]
  by_cases hpoor : x.frame.gas.remaining <
      Gas.exactExpansion x.frame.memory.words (memOffset.toNat + len.toNat)
  · rw [if_pos hpoor, if_pos hpoor]
  · rw [if_neg hpoor, if_neg hpoor, ← Gas.copy_of_isIndex hlen]
    exact payAndStore_apply source memOffset.toNat dataOffset len.toNat _

theorem copyToMemory_of_not_isIndex (hempty : len ≠ 0) (h : ¬memOffset.IsIndex ∨ ¬len.IsIndex)
    (x : Exec η) (source : Bytes) (dataOffset : Word) :
    copyToMemory source memOffset dataOffset len x = .error .outOfGas x := by
  rw [copyToMemory, bind_apply, resizeMemory_of_not_isIndex hempty h]

theorem copyToMemory_copies (hsize : source.size ≤ Word.maxUInt64) (x : Exec η)
    (memOffset dataOffset len : Word) :
    Copies source memOffset dataOffset len x.frame.stack 0 x
      (copyToMemory source memOffset dataOffset len x) := by
  by_cases hempty : len = 0
  · -- nothing is paid and nothing is written
    subst hempty
    have hprice : x.frame.copyPrice memOffset 0 = 0 := if_pos rfl
    have hcan : x.frame.CanCopy 0 memOffset 0 := ⟨.inl rfl, by omega⟩
    exact ⟨fun _ => ⟨x, copyToMemory_empty x source memOffset dataOffset, rfl,
      Memory.hasCopied_empty _ _ _ _⟩, fun h => absurd hcan h⟩
  by_cases hindex : memOffset.IsIndex ∧ len.IsIndex
  · -- gas is asked for twice, for the growth and then for the words
    obtain ⟨hbound, _⟩ := bounded_of_isIndex hindex.1 hindex.2
    have hcan : x.frame.CanCopy 0 memOffset len ↔
        Gas.exactExpansion x.frame.memory.words (memOffset.toNat + len.toNat) +
          3 * Gas.words len.toNat ≤ x.frame.gas.remaining := by
      rw [Frame.CanCopy, Frame.copyPrice, if_neg hempty, Nat.zero_add]
      exact and_iff_right (.inr hindex)
    rw [copyToMemory_of_isIndex hempty hindex.1 hindex.2]
    constructor
    · intro h
      have hrich := hcan.mp h
      rw [if_neg (by omega), if_neg (by omega)]
      exact ⟨_, rfl, copied_stack _ _ _ _ _, hasCopied_copied hsize _ _ hbound⟩
    · intro h
      rw [hcan] at h
      split
      · exact ⟨_, rfl⟩
      · rw [if_pos (by omega)]
        exact ⟨_, rfl⟩
  · -- a word that is no index halts the frame, whatever gas there is
    have hcan : ¬x.frame.CanCopy 0 memOffset len := fun h => hindex (h.1.resolve_left hempty)
    have hhalts := copyToMemory_of_not_isIndex hempty (Decidable.not_and_iff_or_not.mp hindex) x
      source dataOffset
    exact ⟨fun h => absurd h hcan, fun _ => ⟨x, hhalts⟩⟩

theorem charge_copies (hsize : source.size ≤ Word.maxUInt64) (amount : Nat) (x : Exec η)
    (memOffset dataOffset len : Word) :
    Copies source memOffset dataOffset len x.frame.stack amount x
      ((charge amount >>= fun _ => copyToMemory source memOffset dataOffset len) x) := by
  rw [bind_apply, charge_apply]
  by_cases hpoor : x.frame.gas.remaining < amount
  · have hcan : ¬x.frame.CanCopy amount memOffset len := fun h => by
      have hprice := h.2
      omega
    rw [if_pos hpoor]
    exact ⟨fun h => absurd h hcan, fun _ => ⟨_, rfl⟩⟩
  · rw [if_neg hpoor]
    have hcopies := copyToMemory_copies hsize (x.spend amount) memOffset dataOffset len
    exact hcopies.after_payment (Nat.le_of_not_lt hpoor) rfl rfl

theorem copyFrom_apply {source : Frame → Bytes}
    (hstack : x.frame.stack = memOffset :: dataOffset :: len :: rest) :
    copyFrom source x =
      copyToMemory (source (x.withStack rest).frame) memOffset dataOffset len
        (x.withStack rest) := by
  rw [copyFrom, pop_three hstack]
  rfl

theorem copyReturnData_apply (hsize : x.frame.returnData.size ≤ Word.maxUInt64)
    (hstack : x.frame.stack = memOffset :: dataOffset :: len :: rest) :
    copyReturnData x =
      if x.frame.returnData.size < dataOffset.toNat + len.toNat then
        .error .returnDataOutOfBounds (x.withStack rest)
      else copyToMemory x.frame.returnData memOffset dataOffset len (x.withStack rest) := by
  rw [copyReturnData, pop_three hstack, bind_apply]
  simp only [frameGet, withStack_returnData]
  rw [bind_apply, failWhen_apply]
  by_cases hlong : x.frame.returnData.size < dataOffset.toNat + len.toNat
  · rw [if_pos ((Word.endsPast_iff hsize _ _).mpr hlong), if_pos hlong]
  · rw [if_neg (mt (Word.endsPast_iff hsize _ _).mp hlong), if_neg hlong]

theorem pushImmediate_room (size : Nat) (h : x.frame.stack.length < Stack.limit) :
    pushImmediate size x = .ok .next ((x.withPosition (x.frame.pc + size)).withStack
      (Word.ofBytesAt (Bytes.zeros (32 - size) ++ Bytes.window x.frame.code x.frame.pc size) 0 ::
        x.frame.stack)) := by
  have hroom : (x.withPosition (x.frame.pc + size)).frame.stack.length < Stack.limit := h
  rw [pushImmediate, bind_apply]
  simp only [frameGet]
  rw [bind_apply, modifyPosition_apply]
  simp only
  rw [bind_apply, push_room _ hroom]
  rfl

/-! ## Steps -/

/-- The frame at the instruction it has paid for and passed. -/
def fetched (x : Exec η) (op : Opcode) : Exec η :=
  { x with frame := { x.frame with
      gas := { x.frame.gas with remaining := x.frame.gas.remaining - Gas.static op }
      pc := x.frame.pc + 1 } }

/-- What was paid before an instruction was the static cost. -/
theorem Copies.of_fetched {op : Opcode} {operands : List Word} {after : Exec η} {paid : Nat}
    (hcopies : Copies source memOffset dataOffset len rest paid after result)
    (hframe : after.frame = ((x.fetched op).withStack rest).frame)
    (h : x.frame.Ready op operands rest) :
    Copies source memOffset dataOffset len rest (Gas.static op + paid) x result := by
  apply hcopies.after_payment h.gas
  · rw [hframe]
    rfl
  · rw [hframe]
    rfl

variable [Host η]

theorem step_ready {op : Opcode} {operands : List Word} (h : x.frame.Ready op operands rest)
    (hcount : operands.length = op.inputs) :
    step x = execute op x.frame.pc (x.fetched op) := by
  have hlength : x.frame.stack.length = op.inputs + rest.length := by
    rw [h.stack, List.length_append, hcount]
  have hroom := h.room
  exact step_paid h.atOpcode (by omega) (by omega) h.gas

theorem step_callDataLoad {offset : Word} (h : x.frame.Ready .callDataLoad [offset] rest) :
    step x = .ok .next ((x.fetched .callDataLoad).withStack
      (Word.ofBytesAt (Bytes.window x.frame.context.input offset.toNatCapped 32) 0 :: rest)) := by
  have hroom : rest.length < Stack.limit := h.room
  have hstack : (x.fetched .callDataLoad).frame.stack = offset :: rest := h.stack
  rw [step_ready h rfl, execute, bind_apply, pop_cons hstack]
  simp only
  rw [bind_apply]
  simp only [frameGet]
  rw [bind_apply, push_room _ hroom]
  rfl

theorem step_push {i : Fin 32} (h : x.frame.Ready (.push i) [] rest) :
    step x = .ok .next
      (((x.fetched (.push i)).withPosition (x.frame.pc + 1 + (i.val + 1))).withStack
        (Word.ofBytesAt (Bytes.zeros (32 - (i.val + 1)) ++
          Bytes.window x.frame.code (x.frame.pc + 1) (i.val + 1)) 0 :: rest)) := by
  have hstack : (x.fetched (.push i)).frame.stack = rest := h.stack
  have hroom : (x.fetched (.push i)).frame.stack.length < Stack.limit := by
    rw [hstack]
    exact h.room
  rw [step_ready h rfl, execute, pushImmediate_room _ hroom, hstack]
  rfl

/-- The copies from a source that is a part of the frame. -/
theorem step_copyFrom {op : Opcode} (source : Frame → Bytes)
    (hexecute : ∀ pc, (execute op pc : StepM η Step) = copyFrom source) (hcount : op.inputs = 3)
    (hsource : source ((x.fetched op).withStack rest).frame = source x.frame)
    (hsize : (source x.frame).size ≤ Word.maxUInt64)
    (h : x.frame.Ready op [memOffset, dataOffset, len] rest) :
    Copies (source x.frame) memOffset dataOffset len rest (Gas.static op) x (step x) := by
  have hstack : (x.fetched op).frame.stack = memOffset :: dataOffset :: len :: rest := h.stack
  have hcopies := copyToMemory_copies hsize ((x.fetched op).withStack rest) memOffset
    dataOffset len
  rw [step_ready h hcount.symm, hexecute, copyFrom_apply hstack, hsource]
  exact hcopies.of_fetched rfl h

theorem step_returnDataCopy (hsize : x.frame.returnData.size ≤ Word.maxUInt64)
    (h : x.frame.Ready .returnDataCopy [memOffset, dataOffset, len] rest) :
    (x.frame.returnData.size < dataOffset.toNat + len.toNat ∧
      step x = .error .returnDataOutOfBounds ((x.fetched .returnDataCopy).withStack rest)) ∨
    (dataOffset.toNat + len.toNat ≤ x.frame.returnData.size ∧
      Copies x.frame.returnData memOffset dataOffset len rest 3 x (step x)) := by
  have hstack : (x.fetched .returnDataCopy).frame.stack =
      memOffset :: dataOffset :: len :: rest := h.stack
  have hcopies := copyToMemory_copies hsize ((x.fetched .returnDataCopy).withStack rest) memOffset
    dataOffset len
  have hsource : (x.fetched .returnDataCopy).frame.returnData = x.frame.returnData := rfl
  rw [step_ready h rfl, execute, copyReturnData_apply (by rwa [hsource]) hstack, hsource]
  by_cases hlong : x.frame.returnData.size < dataOffset.toNat + len.toNat
  · exact .inl ⟨hlong, if_pos hlong⟩
  · rw [if_neg hlong]
    exact .inr ⟨Nat.le_of_not_lt hlong, hcopies.of_fetched rfl h⟩

theorem step_extCodeCopy {address : Word} {loaded : Loaded Bytes} {host : η}
    (hloaded : Host.code (.ofWord address) x.host = .ok loaded host)
    (hsize : loaded.value.size ≤ Word.maxUInt64)
    (h : x.frame.Ready .extCodeCopy [address, memOffset, dataOffset, len] rest) :
    Copies loaded.value memOffset dataOffset len rest
      (100 + if loaded.isCold then 2500 else 0) x (step x) := by
  have hstack : (x.fetched .extCodeCopy).frame.stack =
      address :: memOffset :: dataOffset :: len :: rest := h.stack
  have hhost : onHost (Host.code (.ofWord address)) ((x.fetched .extCodeCopy).withStack rest) =
      .ok loaded { (x.fetched .extCodeCopy).withStack rest with host } := onHost_of_ok hloaded
  rw [step_ready h rfl, execute, bind_apply, pop_cons hstack]
  simp only
  rw [pop_three (withStack_stack _ _), withStack_withStack, bind_apply, hhost]
  simp only
  -- the surcharge is known only now, and is paid before the copy
  rw [bind_apply, chargeCold_apply, ← bind_apply]
  have hcopies := charge_copies hsize (if loaded.isCold then 2500 else 0)
    { (x.fetched .extCodeCopy).withStack rest with host } memOffset dataOffset len
  exact hcopies.of_fetched rfl h

/-- **Data is read as if it went on with zeros for ever**, at the position that
    the whole word says. A word of call data is spelled by 32 of its bytes and a
    word of the code by as many as the instruction has. A copy brings the bytes of
    its source to its range of memory and changes nothing else, whether the source
    is call data, code, the code of an account or return data. A range that ends
    behind the return data halts the frame, and nothing else halts it so. -/
theorem data_reads (x : Exec η) (rest : Stack) :
    (∀ offset : Word, x.frame.context.input.size ≤ Word.maxUInt64 →
      x.frame.Ready .callDataLoad [offset] rest →
      ∃ y w, step x = .ok .next y ∧ y.frame.stack = w :: rest ∧
        w.toNat = ∑ i ∈ Finset.range 32,
          (Bytes.byteAt x.frame.context.input (offset.toNat + i)).toNat * 256 ^ (31 - i)) ∧
    (∀ n : Fin 32, x.frame.Ready (.push n) [] rest →
      ∃ y w, step x = .ok .next y ∧ y.frame.stack = w :: rest ∧
        y.frame.pc = x.frame.pc + 1 + (n.val + 1) ∧
        w.toNat = ∑ i ∈ Finset.range (n.val + 1),
          (Bytes.byteAt x.frame.code (x.frame.pc + 1 + i)).toNat * 256 ^ (n.val - i)) ∧
    (∀ memOffset dataOffset len : Word, x.frame.context.input.size ≤ Word.maxUInt64 →
      x.frame.Ready .callDataCopy [memOffset, dataOffset, len] rest →
      Copies x.frame.context.input memOffset dataOffset len rest 3 x (step x)) ∧
    (∀ memOffset dataOffset len : Word, x.frame.code.size ≤ Word.maxUInt64 →
      x.frame.Ready .codeCopy [memOffset, dataOffset, len] rest →
      Copies x.frame.code memOffset dataOffset len rest 3 x (step x)) ∧
    (∀ (address memOffset dataOffset len : Word) (loaded : Loaded Bytes) (host : η),
      Host.code (.ofWord address) x.host = .ok loaded host →
      loaded.value.size ≤ Word.maxUInt64 →
      x.frame.Ready .extCodeCopy [address, memOffset, dataOffset, len] rest →
      Copies loaded.value memOffset dataOffset len rest
        (100 + if loaded.isCold then 2500 else 0) x (step x)) ∧
    (∀ memOffset dataOffset len : Word, x.frame.returnData.size ≤ Word.maxUInt64 →
      x.frame.Ready .returnDataCopy [memOffset, dataOffset, len] rest →
      ((∃ y, step x = .error .returnDataOutOfBounds y) ↔
        x.frame.returnData.size < dataOffset.toNat + len.toNat) ∧
      (dataOffset.toNat + len.toNat ≤ x.frame.returnData.size →
        Copies x.frame.returnData memOffset dataOffset len rest 3 x (step x))) := by
  refine ⟨?_, ?_, ?_, ?_, ?_, ?_⟩
  · intro offset hsize h
    exact ⟨_, _, step_callDataLoad h, withStack_stack _ _, Word.toNat_ofBytesAt_window hsize offset⟩
  · intro n h
    refine ⟨_, _, step_push h, withStack_stack _ _, rfl, ?_⟩
    exact Word.toNat_ofBytesAt_padded x.frame.code (x.frame.pc + 1) n.isLt
  · intro memOffset dataOffset len hsize h
    exact step_copyFrom (·.context.input) (fun _ => rfl) rfl rfl hsize h
  · intro memOffset dataOffset len hsize h
    exact step_copyFrom (·.code) (fun _ => rfl) rfl rfl hsize h
  · intro address memOffset dataOffset len loaded host hloaded hsize h
    exact step_extCodeCopy hloaded hsize h
  · intro memOffset dataOffset len hsize h
    rcases step_returnDataCopy hsize h with ⟨hlong, hhalts⟩ | ⟨hfits, hcopies⟩
    · exact ⟨iff_of_true ⟨_, hhalts⟩ hlong, fun hfits => absurd hlong (Nat.not_lt.mpr hfits)⟩
    · exact ⟨iff_of_false hcopies.not_outOfBounds (Nat.not_lt.mpr hfits), fun _ => hcopies⟩

/-- Words that end inside their data, a copy with and without the gas for it, a
    copy from a position that 64 bits do not hold, the code of an account that is
    not there, and an empty range behind the return data. -/
theorem data_reads_samples :
    let host : Engine Database := .new .empty .default (.ofHardfork .cancun)
    let context : FrameContext := ⟨.zero, .zero, 0, ⟨#[1, 2, 3]⟩, false, 0⟩
    let start (code : Bytes) (stack : Stack) (gas : Nat) : Exec (Engine Database) :=
      ⟨{ Frame.start code (.analyze code) context gas .cancun with stack }, host⟩
    (∃ y, step (start ⟨#[0x35]⟩ [2, 9] 3) = .ok .next y ∧
      y.frame.stack = [Word.ofNat (3 * 256 ^ 31), 9]) ∧
    (∃ y, step (start ⟨#[0x62, 0xaa]⟩ [9] 3) = .ok .next y ∧ y.frame.stack = [0xaa0000, 9]) ∧
    (∃ y, step (start ⟨#[0x37]⟩ [1, 2, 4] 9) = .ok .next y ∧
      Bytes.byteAt y.frame.memory.data 1 = 3 ∧ Bytes.byteAt y.frame.memory.data 2 = 0) ∧
    (∃ y, step (start ⟨#[0x37]⟩ [1, 2, 4] 8) = .error .outOfGas y) ∧
    (∃ y, step (start ⟨#[0x39]⟩ [0, Word.max, 1] 9) = .ok .next y ∧
      Bytes.byteAt y.frame.memory.data 0 = 0) ∧
    (∃ y, step (start ⟨#[0x3c]⟩ [7, 0, 0, 1] 2606) = .ok .next y ∧
      Bytes.byteAt y.frame.memory.data 0 = 0) ∧
    ∃ y, step (start ⟨#[0x3e]⟩ [0, 1, 0] 3) = .error .returnDataOutOfBounds y := by
  intro host context start
  refine ⟨?_, ?_, ?_, ?_, ?_, ?_, ?_⟩
  · have hload := (data_reads (start ⟨#[0x35]⟩ [2, 9] 3) [9]).1
    obtain ⟨y, w, hstep, hstack, hword⟩ :=
      hload 2 (by decide) ⟨by decide +kernel, rfl, by decide, by decide⟩
    have hw : w = Word.ofNat (3 * 256 ^ 31) :=
      BitVec.eq_of_toNat_eq (hword.trans (by decide +kernel))
    exact ⟨y, hstep, by rw [hstack, hw]⟩
  · have hpush := (data_reads (start ⟨#[0x62, 0xaa]⟩ [9] 3) [9]).2.1
    obtain ⟨y, w, hstep, hstack, -, hword⟩ :=
      hpush 2 ⟨by decide +kernel, rfl, by decide, by decide⟩
    have hw : w = 0xaa0000 := BitVec.eq_of_toNat_eq (hword.trans (by decide +kernel))
    exact ⟨y, hstep, by rw [hstack, hw]⟩
  · have hcopy := (data_reads (start ⟨#[0x37]⟩ [1, 2, 4] 9) []).2.2.1
    have hcopies := hcopy 1 2 4 (by decide) ⟨by decide +kernel, rfl, by decide, by decide⟩
    obtain ⟨y, hstep, -, hcopied⟩ := hcopies.goes (by decide)
    exact ⟨y, hstep, hcopied.inside 0 (by decide), hcopied.inside 1 (by decide)⟩
  · have hcopy := (data_reads (start ⟨#[0x37]⟩ [1, 2, 4] 8) []).2.2.1
    have hcopies := hcopy 1 2 4 (by decide) ⟨by decide +kernel, rfl, by decide, by decide⟩
    exact hcopies.halts (by decide)
  · have hcopy := (data_reads (start ⟨#[0x39]⟩ [0, Word.max, 1] 9) []).2.2.2.1
    have hcopies := hcopy 0 Word.max 1 (by decide) ⟨by decide +kernel, rfl, by decide, by decide⟩
    obtain ⟨y, hstep, -, hcopied⟩ := hcopies.goes (by decide)
    exact ⟨y, hstep, hcopied.inside 0 (by decide)⟩
  · obtain ⟨loaded, after, hloaded, hvalue, hcold⟩ :
        ∃ (loaded : Loaded Bytes) (after : Engine Database),
          Host.code (.ofWord 7) host = .ok loaded after ∧ loaded.value = ByteArray.empty ∧
            loaded.isCold = true := ⟨_, _, rfl, rfl, rfl⟩
    have hcopy := (data_reads (start ⟨#[0x3c]⟩ [7, 0, 0, 1] 2606) []).2.2.2.2.1
    have hcopies := hcopy 7 0 0 1 loaded after hloaded (by rw [hvalue]; decide)
      ⟨by decide +kernel, rfl, by decide, by decide⟩
    rw [hcold] at hcopies
    obtain ⟨y, hstep, -, hcopied⟩ := hcopies.goes (by decide)
    refine ⟨y, hstep, (hcopied.inside 0 (by decide)).trans ?_⟩
    rw [hvalue]
    rfl
  · have hcopy := (data_reads (start ⟨#[0x3e]⟩ [0, 1, 0] 3) []).2.2.2.2.2
    have hreturn := hcopy 0 1 0 (by decide) ⟨by decide +kernel, rfl, by decide, by decide⟩
    exact hreturn.1.mpr (by decide)

end Exec

end Evm
