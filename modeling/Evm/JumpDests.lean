import Evm.Hash
import Evm.Opcode

/-!
# Jump destinations

    A position in code is a jump destination if it holds a `JUMPDEST` that is
    an instruction, not an immediate byte of some push before it. One pass
    over the code, which leaps over the immediate bytes of each push, marks
    them all in a bitmap of 64-bit words.
-/

namespace Evm

/-- The jump destinations of some code. -/
structure JumpDests where
  /-- One bit for each position of the code, the lowest of a word first. -/
  bits : Array UInt64
  /-- The length of the code. -/
  len : Nat
  /-- There is a word for every position of the code. -/
  covered : len ≤ 64 * bits.size
  deriving DecidableEq

namespace JumpDests

instance : Inhabited JumpDests := ⟨⟨#[], 0, Nat.le_refl 0⟩⟩

/-- The mask of a position in the word it belongs to. -/
def bit (i : Nat) : UInt64 := 1 <<< UInt64.ofNat (i % 64)

/-- Set the bit of a position. -/
def mark (bits : Array UInt64) (i : Nat) : Array UInt64 := bits.modify (i / 64) (· ||| bit i)

/-- The immediate bytes behind a byte that is an instruction. -/
def immediateSize (b : UInt8) : Nat :=
  if 0x60 ≤ b.toNat ∧ b.toNat < 0x80 then b.toNat - 0x5f else 0

/-- Mark the destinations from the instruction at `i` on. -/
def scan (code : Bytes) (i : Nat) (bits : Array UInt64) : Array UInt64 :=
  if h : i < code.size then
    if code[i] = 0x5b then scan code (i + 1) (mark bits i)
    else scan code (i + immediateSize code[i] + 1) bits
  else bits
termination_by code.size - i

@[simp] theorem size_mark (bits : Array UInt64) (i : Nat) : (mark bits i).size = bits.size :=
  Array.size_modify

/-- A scan sets bits, and adds no words. -/
@[simp] theorem size_scan (code : Bytes) (i : Nat) (bits : Array UInt64) :
    (scan code i bits).size = bits.size := by
  fun_induction scan with
  | case1 i bits h hdest ih => rw [ih, size_mark]
  | case2 i bits h hdest ih => exact ih
  | case3 => rfl

/-- The destinations in `code`. -/
def analyze (code : Bytes) : JumpDests where
  bits := scan code 0 (Array.replicate ((code.size + 63) / 64) 0)
  len := code.size
  covered := by
    rw [size_scan, Array.size_replicate]
    omega

/-- Whether a position is a destination. -/
def isValid (d : JumpDests) (position : Nat) : Bool :=
  if h : position < d.len then
    have := d.covered
    d.bits[position / 64] &&& bit position != 0
  else false

/-- The number of destinations. -/
def count (d : JumpDests) : Nat := d.bits.foldl (fun n w => n + w.toBitVec.cpop.toNat) 0

end JumpDests

/-! ## Cache -/

/-- Analyses that were made before, by code hash. An entry never changes. -/
structure CodeCache where
  entries : Std.ExtTreeMap Hash JumpDests compare

namespace CodeCache

/-- No analysis yet. -/
def empty : CodeCache := ⟨∅⟩

/-- The analysis kept under a hash; if there is none, that of `code`, which
    is kept from then on. -/
def getOrAnalyze (cache : CodeCache) (hash : Hash) (code : Bytes) : JumpDests × CodeCache :=
  match cache.entries[hash]? with
  | some dests => (dests, cache)
  | none =>
    let dests := JumpDests.analyze code
    (dests, ⟨cache.entries.insert hash dests⟩)

/-- The number of entries. -/
def size (cache : CodeCache) : Nat := cache.entries.size

end CodeCache

end Evm
