import Evm.Hardfork
import Evm.Message
import Evm.Word.Operator

/-!
# Instructions

    The instructions of the machine up to Cancun. Those that work alike are
    one constructor with a parameter: the operators on words, the queries
    that push one known word, and the numbered families. The numbered ones
    count from zero, so `push i` has `i + 1` immediate bytes, `dup i` copies
    the word at depth `i` and `swap i` reaches the word at depth `i + 1`.
-/

namespace Evm

/-- Instructions that take nothing and push a word about the frame, the
    transaction or the block. -/
inductive Query where
  | address | origin | caller | callValue | callDataSize | codeSize | gasPrice | returnDataSize
  | coinbase | timestamp | number | prevRandao | gasLimit | chainId | baseFee | blobBaseFee
  | pc | memorySize | gas
  deriving DecidableEq, Inhabited

/-- An instruction. -/
inductive Opcode where
  | stop
  | unary (op : UnaryOp)
  | binary (op : BinaryOp)
  | ternary (op : TernaryOp)
  | exp
  | keccak256
  | query (q : Query)
  | balance
  | selfBalance
  | extCodeSize
  | extCodeCopy
  | extCodeHash
  | callDataLoad
  | callDataCopy
  | codeCopy
  | returnDataCopy
  | blockHash
  | blobHash
  | pop
  | mload
  | mstore
  | mstore8
  | mcopy
  | sload
  | sstore
  | tload
  | tstore
  | jump
  | jumpi
  | jumpDest
  | push0
  | push (i : Fin 32)
  | dup (i : Fin 16)
  | swap (i : Fin 16)
  | log (topics : Fin 5)
  | create
  | create2
  | call (scheme : CallScheme)
  | ret
  | revert
  | invalid
  | selfDestruct
  deriving DecidableEq, Inhabited

namespace Opcode

/-! ## Bytes -/

/-- The instructions outside the numbered families, by their byte. -/
def ofSingleByte? : Nat → Option Opcode
  | 0x00 => some .stop
  | 0x01 => some (.binary .add)
  | 0x02 => some (.binary .mul)
  | 0x03 => some (.binary .sub)
  | 0x04 => some (.binary .div)
  | 0x05 => some (.binary .sdiv)
  | 0x06 => some (.binary .mod)
  | 0x07 => some (.binary .smod)
  | 0x08 => some (.ternary .addmod)
  | 0x09 => some (.ternary .mulmod)
  | 0x0a => some .exp
  | 0x0b => some (.binary .signextend)
  | 0x10 => some (.binary .lt)
  | 0x11 => some (.binary .gt)
  | 0x12 => some (.binary .slt)
  | 0x13 => some (.binary .sgt)
  | 0x14 => some (.binary .eq)
  | 0x15 => some (.unary .iszero)
  | 0x16 => some (.binary .and)
  | 0x17 => some (.binary .or)
  | 0x18 => some (.binary .xor)
  | 0x19 => some (.unary .not)
  | 0x1a => some (.binary .byte)
  | 0x1b => some (.binary .shl)
  | 0x1c => some (.binary .shr)
  | 0x1d => some (.binary .sar)
  | 0x20 => some .keccak256
  | 0x30 => some (.query .address)
  | 0x31 => some .balance
  | 0x32 => some (.query .origin)
  | 0x33 => some (.query .caller)
  | 0x34 => some (.query .callValue)
  | 0x35 => some .callDataLoad
  | 0x36 => some (.query .callDataSize)
  | 0x37 => some .callDataCopy
  | 0x38 => some (.query .codeSize)
  | 0x39 => some .codeCopy
  | 0x3a => some (.query .gasPrice)
  | 0x3b => some .extCodeSize
  | 0x3c => some .extCodeCopy
  | 0x3d => some (.query .returnDataSize)
  | 0x3e => some .returnDataCopy
  | 0x3f => some .extCodeHash
  | 0x40 => some .blockHash
  | 0x41 => some (.query .coinbase)
  | 0x42 => some (.query .timestamp)
  | 0x43 => some (.query .number)
  | 0x44 => some (.query .prevRandao)
  | 0x45 => some (.query .gasLimit)
  | 0x46 => some (.query .chainId)
  | 0x47 => some .selfBalance
  | 0x48 => some (.query .baseFee)
  | 0x49 => some .blobHash
  | 0x4a => some (.query .blobBaseFee)
  | 0x50 => some .pop
  | 0x51 => some .mload
  | 0x52 => some .mstore
  | 0x53 => some .mstore8
  | 0x54 => some .sload
  | 0x55 => some .sstore
  | 0x56 => some .jump
  | 0x57 => some .jumpi
  | 0x58 => some (.query .pc)
  | 0x59 => some (.query .memorySize)
  | 0x5a => some (.query .gas)
  | 0x5b => some .jumpDest
  | 0x5c => some .tload
  | 0x5d => some .tstore
  | 0x5e => some .mcopy
  | 0x5f => some .push0
  | 0xf0 => some .create
  | 0xf1 => some (.call .call)
  | 0xf2 => some (.call .callCode)
  | 0xf3 => some .ret
  | 0xf4 => some (.call .delegateCall)
  | 0xf5 => some .create2
  | 0xfa => some (.call .staticCall)
  | 0xfd => some .revert
  | 0xfe => some .invalid
  | 0xff => some .selfDestruct
  | _ => none

/-- The instruction of a byte; none for a byte that no rule set defines. -/
def ofByte? (b : UInt8) : Option Opcode :=
  let n := b.toNat
  if h : 0x60 ≤ n ∧ n < 0x80 then some (.push ⟨n - 0x60, by omega⟩)
  else if h : 0x80 ≤ n ∧ n < 0x90 then some (.dup ⟨n - 0x80, by omega⟩)
  else if h : 0x90 ≤ n ∧ n < 0xa0 then some (.swap ⟨n - 0x90, by omega⟩)
  else if h : 0xa0 ≤ n ∧ n < 0xa5 then some (.log ⟨n - 0xa0, by omega⟩)
  else ofSingleByte? n

/-! ## Mnemonics -/

/-- The name of an instruction. -/
def mnemonic : Opcode → String
  | .stop => "STOP"
  | .unary .iszero => "ISZERO"
  | .unary .not => "NOT"
  | .binary .add => "ADD"
  | .binary .mul => "MUL"
  | .binary .sub => "SUB"
  | .binary .div => "DIV"
  | .binary .sdiv => "SDIV"
  | .binary .mod => "MOD"
  | .binary .smod => "SMOD"
  | .binary .signextend => "SIGNEXTEND"
  | .binary .lt => "LT"
  | .binary .gt => "GT"
  | .binary .slt => "SLT"
  | .binary .sgt => "SGT"
  | .binary .eq => "EQ"
  | .binary .and => "AND"
  | .binary .or => "OR"
  | .binary .xor => "XOR"
  | .binary .byte => "BYTE"
  | .binary .shl => "SHL"
  | .binary .shr => "SHR"
  | .binary .sar => "SAR"
  | .ternary .addmod => "ADDMOD"
  | .ternary .mulmod => "MULMOD"
  | .exp => "EXP"
  | .keccak256 => "KECCAK256"
  | .query .address => "ADDRESS"
  | .query .origin => "ORIGIN"
  | .query .caller => "CALLER"
  | .query .callValue => "CALLVALUE"
  | .query .callDataSize => "CALLDATASIZE"
  | .query .codeSize => "CODESIZE"
  | .query .gasPrice => "GASPRICE"
  | .query .returnDataSize => "RETURNDATASIZE"
  | .query .coinbase => "COINBASE"
  | .query .timestamp => "TIMESTAMP"
  | .query .number => "NUMBER"
  | .query .prevRandao => "PREVRANDAO"
  | .query .gasLimit => "GASLIMIT"
  | .query .chainId => "CHAINID"
  | .query .baseFee => "BASEFEE"
  | .query .blobBaseFee => "BLOBBASEFEE"
  | .query .pc => "PC"
  | .query .memorySize => "MSIZE"
  | .query .gas => "GAS"
  | .balance => "BALANCE"
  | .selfBalance => "SELFBALANCE"
  | .extCodeSize => "EXTCODESIZE"
  | .extCodeCopy => "EXTCODECOPY"
  | .extCodeHash => "EXTCODEHASH"
  | .callDataLoad => "CALLDATALOAD"
  | .callDataCopy => "CALLDATACOPY"
  | .codeCopy => "CODECOPY"
  | .returnDataCopy => "RETURNDATACOPY"
  | .blockHash => "BLOCKHASH"
  | .blobHash => "BLOBHASH"
  | .pop => "POP"
  | .mload => "MLOAD"
  | .mstore => "MSTORE"
  | .mstore8 => "MSTORE8"
  | .mcopy => "MCOPY"
  | .sload => "SLOAD"
  | .sstore => "SSTORE"
  | .tload => "TLOAD"
  | .tstore => "TSTORE"
  | .jump => "JUMP"
  | .jumpi => "JUMPI"
  | .jumpDest => "JUMPDEST"
  | .push0 => "PUSH0"
  | .push i => s!"PUSH{i.val + 1}"
  | .dup i => s!"DUP{i.val + 1}"
  | .swap i => s!"SWAP{i.val + 1}"
  | .log topics => s!"LOG{topics.val}"
  | .create => "CREATE"
  | .create2 => "CREATE2"
  | .call .call => "CALL"
  | .call .callCode => "CALLCODE"
  | .call .delegateCall => "DELEGATECALL"
  | .call .staticCall => "STATICCALL"
  | .ret => "RETURN"
  | .revert => "REVERT"
  | .invalid => "INVALID"
  | .selfDestruct => "SELFDESTRUCT"

/-! ## Shape -/

/-- The words that an instruction takes from the stack. -/
def inputs : Opcode → Nat
  | .stop | .query _ | .selfBalance | .jumpDest | .push0 | .push _ | .invalid => 0
  | .unary _ | .balance | .extCodeSize | .extCodeHash | .callDataLoad | .blockHash | .blobHash
  | .pop | .mload | .sload | .tload | .jump | .selfDestruct => 1
  | .binary _ | .exp | .keccak256 | .mstore | .mstore8 | .sstore | .tstore | .jumpi
  | .ret | .revert => 2
  | .ternary _ | .callDataCopy | .codeCopy | .returnDataCopy | .mcopy | .create => 3
  | .extCodeCopy | .create2 => 4
  | .dup i => i.val + 1
  | .swap i => i.val + 2
  | .log topics => topics.val + 2
  | .call .call | .call .callCode => 7
  | .call .delegateCall | .call .staticCall => 6

/-- The words that an instruction leaves on the stack in place of those it
    takes. -/
def outputs : Opcode → Nat
  | .stop | .callDataCopy | .codeCopy | .extCodeCopy | .returnDataCopy | .pop | .mstore | .mstore8
  | .mcopy | .sstore | .tstore | .jump | .jumpi | .jumpDest | .log _ | .ret | .revert | .invalid
  | .selfDestruct => 0
  | .dup i => i.val + 2
  | .swap i => i.val + 2
  | _ => 1

/-- The immediate bytes that follow an instruction. -/
def immediateSize : Opcode → Nat
  | .push i => i.val + 1
  | _ => 0

/-- Whether immediate bytes follow an instruction. -/
def isPush (op : Opcode) : Bool := 0 < op.immediateSize

/-- The rule set that introduced an instruction; Berlin stands for all that
    came before it. -/
def introducedIn : Opcode → Hardfork
  | .query .baseFee => .london
  | .push0 => .shanghai
  | .tload | .tstore | .mcopy | .blobHash | .query .blobBaseFee => .cancun
  | _ => .berlin

end Opcode

end Evm
