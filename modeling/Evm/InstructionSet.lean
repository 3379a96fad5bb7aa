import Evm.Gas.Schedule

/-!
# Instruction sets

    For each rule set, a table from bytes to the instructions they stand for,
    with what the machine checks and charges before it runs one. A byte
    without an entry is no instruction under those rules.
-/

namespace Evm

/-- An instruction with its static cost and its use of the stack. -/
structure Instruction where
  opcode : Opcode
  /-- Gas charged before it runs. -/
  staticGas : Nat
  /-- Words it takes. -/
  inputs : Nat
  /-- Words it leaves. -/
  outputs : Nat
  deriving DecidableEq, Inhabited

/-- The table entry of an instruction. -/
def Instruction.ofOpcode (op : Opcode) : Instruction where
  opcode := op
  staticGas := Gas.static op
  inputs := op.inputs
  outputs := op.outputs

namespace Hardfork

/-- The entry for a byte, if some rule set up to `fork` introduced it. -/
def decode? (fork : Hardfork) (b : UInt8) : Option Instruction :=
  match Opcode.ofByte? b with
  | some op => if fork.includes op.introducedIn then some (.ofOpcode op) else none
  | none => none

/-- All 256 entries of a rule set. -/
def buildTable (fork : Hardfork) : Vector (Option Instruction) 256 :=
  Vector.ofFn fun i => fork.decode? (UInt8.ofNat i)

/-- The table of the Berlin rules. -/
def berlinTable : Vector (Option Instruction) 256 := buildTable .berlin

/-- The table of the London rules. -/
def londonTable : Vector (Option Instruction) 256 := buildTable .london

/-- The table of the Shanghai rules. -/
def shanghaiTable : Vector (Option Instruction) 256 := buildTable .shanghai

/-- The table of the Cancun rules. -/
def cancunTable : Vector (Option Instruction) 256 := buildTable .cancun

/-- The table of a rule set. -/
def table : Hardfork → Vector (Option Instruction) 256
  | .berlin => berlinTable
  | .london => londonTable
  | .shanghai => shanghaiTable
  | .cancun => cancunTable

/-- The instruction that a byte stands for, looked up in the table. -/
def instruction? (fork : Hardfork) (b : UInt8) : Option Instruction :=
  have : b.toNat < 256 := b.toNat_lt
  fork.table[b.toNat]

/-- Looking a byte up is the same as decoding it. -/
theorem instruction?_eq_decode? (fork : Hardfork) (b : UInt8) :
    fork.instruction? b = fork.decode? b := by
  cases fork <;>
    simp [instruction?, table, berlinTable, londonTable, shanghaiTable, cancunTable, buildTable]

/-- How many bytes are instructions under a rule set. -/
def instructionCount (fork : Hardfork) : Nat := fork.table.toList.countP Option.isSome

end Hardfork

end Evm
