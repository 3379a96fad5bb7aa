import Evm.Crypto.Keccak
import Evm.Frame.Request

/-!
# Meaning of the instructions

    What each instruction does once it was decoded, the stack was checked and
    its static cost was paid. The order of the small steps is part of the
    meaning: it decides which of two failures is reported and what the frame
    looks like then.
-/

namespace Evm.Exec

variable {η : Type} [Host η]

/-! ## Queries -/

/-- The word that a query pushes; `pc` is the position of the query itself. -/
def answerQuery (x : Exec η) (pc : Nat) : Query → Word
  | .address => x.frame.context.address.toWord
  | .origin => (Host.env x.host).tx.origin.toWord
  | .caller => x.frame.context.caller.toWord
  | .callValue => x.frame.context.value
  | .callDataSize => Word.ofNat x.frame.context.input.size
  | .codeSize => Word.ofNat x.frame.code.size
  | .gasPrice => (Host.env x.host).tx.gasPrice
  | .returnDataSize => Word.ofNat x.frame.returnData.size
  | .coinbase => (Host.env x.host).block.coinbase.toWord
  | .timestamp => Word.ofNat (Host.env x.host).block.timestamp
  | .number => Word.ofNat (Host.env x.host).block.number
  | .prevRandao => (Host.env x.host).block.prevRandaoWord
  | .gasLimit => Word.ofNat (Host.env x.host).block.gasLimit
  | .chainId => Word.ofNat (Host.env x.host).block.chainId
  | .baseFee => (Host.env x.host).block.baseFee
  | .blobBaseFee => (Host.env x.host).block.blobBaseFee
  | .pc => Word.ofNat pc
  | .memorySize => Word.ofNat x.frame.memory.size
  | .gas => Word.ofNat x.frame.gas.remaining

/-! ## Copying into memory -/

/-- Copy from a string extended by zeros; the operands are words that were
    taken already. A position that 64 bits do not hold is cut down. -/
def copyToMemory (source : Bytes) (memOffset dataOffset len : Word) : StepM η Step := do
  let (memOffset, len) ← resizeMemory memOffset len
  charge (Gas.copy len)
  modifyMemory (·.storePadded memOffset len source dataOffset.toNatCapped)
  return .next

/-- Take the operands of a copy and copy. -/
def copyFrom (source : Frame → Bytes) : StepM η Step := do
  let memOffset ← pop
  let dataOffset ← pop
  let len ← pop
  copyToMemory (← frameGet source) memOffset dataOffset len

/-- Copy from the return data, which is not extended by zeros. The end of the
    range may not be a word any more. -/
def copyReturnData : StepM η Step := do
  let memOffset ← pop
  let dataOffset ← pop
  let len ← pop
  let source ← frameGet (·.returnData)
  failWhen (dataOffset.uaddOverflow len || Word.ofNat source.size < dataOffset + len)
    .returnDataOutOfBounds
  copyToMemory source memOffset dataOffset len

/-- Copy within memory; both ranges have to be paid for. -/
def copyWithinMemory : StepM η Step := do
  let dest ← pop
  let source ← pop
  let len ← pop
  if len = 0 then
    return .next
  let (dest, size) ← resizeMemory dest len
  let (source, _) ← resizeMemory source len
  charge (Gas.copy size)
  modifyMemory (·.copyWithin dest source size)
  return .next

/-! ## Storage -/

/-- Write a slot. The write comes before its price is known; the sentry keeps
    a frame that lives on a stipend from writing. -/
def storeSlot : StepM η Step := do
  requireWritable
  failWhen ((← frameGet (·.gas.remaining)) ≤ Gas.sstoreSentry) .outOfGas
  let key ← pop
  let value ← pop
  let address ← frameGet (·.context.address)
  let outcome ← onHost (Host.sstore ⟨address, key⟩ value)
  charge (Gas.sstore outcome.initial outcome.present outcome.new outcome.isCold)
  let hardfork ← frameGet (·.hardfork)
  refund (Gas.sstoreRefund hardfork outcome.initial outcome.present outcome.new)
  return .next

/-! ## Flow -/

/-- Go on at a jump destination. -/
def jumpTo (dest : Word) : StepM η Step := do
  let target := dest.toNatCapped
  if (← frameGet (·.jumpDests.isValid target)) then
    modifyFrame fun frame => { frame with pc := target }
    return .next
  else throw (.invalidJump target)

/-- End the frame with a range of memory as output. -/
def finish (reason : ExitReason) : StepM η Step := do
  let offset ← pop
  let len ← pop
  let (offset, len) ← resizeMemory offset len
  return .exit reason (← readMemory offset len)

/-- Push the immediate bytes behind the instruction and pass over them. What
    lies past the end of the code reads as zero. -/
def pushImmediate (size : Nat) : StepM η Step := do
  let value ← frameGet fun frame =>
    Word.ofBytesAt (Bytes.zeros (32 - size) ++ Bytes.window frame.code frame.pc size) 0
  modifyFrame fun frame => { frame with pc := frame.pc + size }
  push value
  return .next

/-! ## All instructions -/

/-- The byte of the instruction that is defined to be none. -/
def invalidByte : UInt8 := 0xfe

/-- Carry out an instruction; `pc` is its own position. -/
def execute (op : Opcode) (pc : Nat) : StepM η Step := do
  match op with
  | .stop => return .exit .stop ByteArray.empty
  -- operators
  | .unary op =>
    let a ← pop
    push (op.eval a)
    return .next
  | .binary op =>
    let a ← pop
    let b ← pop
    push (op.eval a b)
    return .next
  | .ternary op =>
    let a ← pop
    let b ← pop
    let n ← pop
    push (op.eval a b n)
    return .next
  | .exp =>
    let base ← pop
    let exponent ← pop
    charge (Gas.exp exponent)
    push (Word.exp base exponent)
    return .next
  | .keccak256 =>
    let offset ← pop
    let len ← pop
    let (offset, len) ← resizeMemory offset len
    charge (Gas.keccak256 len)
    let data ← readMemory offset len
    push (Evm.keccak256 data).toWord
    return .next
  -- environment
  | .query q =>
    let x ← get
    push (answerQuery x pc q)
    return .next
  | .balance =>
    let address := Address.ofWord (← pop)
    let loaded ← onHost (Host.balance address)
    chargeCold loaded.isCold
    push loaded.value
    return .next
  | .selfBalance =>
    let address ← frameGet (·.context.address)
    let loaded ← onHost (Host.balance address)
    push loaded.value
    return .next
  | .extCodeSize =>
    let address := Address.ofWord (← pop)
    let loaded ← onHost (Host.code address)
    chargeCold loaded.isCold
    push (Word.ofNat loaded.value.size)
    return .next
  | .extCodeCopy =>
    let address := Address.ofWord (← pop)
    let memOffset ← pop
    let codeOffset ← pop
    let len ← pop
    let loaded ← onHost (Host.code address)
    chargeCold loaded.isCold
    copyToMemory loaded.value memOffset codeOffset len
  | .extCodeHash =>
    let address := Address.ofWord (← pop)
    let loaded ← onHost (Host.codeHash address)
    chargeCold loaded.isCold
    push loaded.value.toWord
    return .next
  | .callDataLoad =>
    let offset ← pop
    push (← frameGet fun frame =>
      Word.ofBytesAt (Bytes.window frame.context.input offset.toNatCapped 32) 0)
    return .next
  | .callDataCopy => copyFrom (·.context.input)
  | .codeCopy => copyFrom (·.code)
  | .returnDataCopy => copyReturnData
  | .blockHash =>
    let number ← pop
    let hash ← onHost (Host.blockHash number)
    push hash.toWord
    return .next
  | .blobHash =>
    let index ← pop
    let hashes ← hostGet fun host => (Host.env host).tx.blobHashes
    push (hashes.getD index.toNat .zero).toWord
    return .next
  -- stack and memory
  | .pop =>
    let _ ← pop
    return .next
  | .mload =>
    let offset ← pop
    let (offset, _) ← resizeMemory offset 32
    push (← frameGet fun frame => frame.memory.loadWord offset)
    return .next
  | .mstore =>
    let offset ← pop
    let value ← pop
    let (offset, _) ← resizeMemory offset 32
    modifyMemory (·.storeWord offset value)
    return .next
  | .mstore8 =>
    let offset ← pop
    let value ← pop
    let (offset, _) ← resizeMemory offset 1
    modifyMemory (·.storeByte offset (UInt8.ofNat value.toNat))
    return .next
  | .mcopy => copyWithinMemory
  | .push0 =>
    push 0
    return .next
  | .push i => pushImmediate (i.val + 1)
  | .dup i =>
    dup (i.val + 1)
    return .next
  | .swap i =>
    swap (i.val + 1)
    return .next
  -- storage
  | .sload =>
    let key ← pop
    let address ← frameGet (·.context.address)
    let loaded ← onHost (Host.sload ⟨address, key⟩)
    chargeWhen loaded.isCold (Gas.coldSload - Gas.warmAccess)
    push loaded.value
    return .next
  | .sstore => storeSlot
  | .tload =>
    let key ← pop
    let address ← frameGet (·.context.address)
    push (← onHost (Host.tload ⟨address, key⟩))
    return .next
  | .tstore =>
    requireWritable
    let key ← pop
    let value ← pop
    let address ← frameGet (·.context.address)
    onHost (Host.tstore ⟨address, key⟩ value)
    return .next
  -- flow
  | .jump => jumpTo (← pop)
  | .jumpi =>
    let dest ← pop
    let condition ← pop
    if condition = 0 then return .next else jumpTo dest
  | .jumpDest => return .next
  | .ret => finish .ret
  | .revert => finish .revert
  | .invalid => throw (.invalidOpcode invalidByte)
  -- requests
  | .log topics => log topics.val
  | .create => create false
  | .create2 => create true
  | .call scheme => call scheme
  | .selfDestruct => selfDestruct

end Evm.Exec
