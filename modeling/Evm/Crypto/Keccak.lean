import Evm.Hash

/-!
# Keccak-256

    The sponge over the permutation on 1600 bits, with 136 bytes to a block,
    the padding that starts with a byte of one, and 32 bytes of output. The
    state is five rows of five 64-bit lanes; each of the steps of a round is
    a function on rows.
-/

namespace Evm.Crypto.Keccak

/-! ## State -/

/-- Five lanes with one `y` coordinate, by their `x` coordinate. -/
structure Row where
  a : UInt64
  b : UInt64
  c : UInt64
  d : UInt64
  e : UInt64

/-- The five rows, by their `y` coordinate. -/
structure State where
  r0 : Row
  r1 : Row
  r2 : Row
  r3 : Row
  r4 : Row

/-- Lane-wise exclusive or. -/
@[inline] def Row.xor (p q : Row) : Row :=
  ⟨p.a ^^^ q.a, p.b ^^^ q.b, p.c ^^^ q.c, p.d ^^^ q.d, p.e ^^^ q.e⟩

/-- A row of zeros. -/
def Row.zero : Row := ⟨0, 0, 0, 0, 0⟩

/-- The state before any input. -/
def State.zero : State := ⟨.zero, .zero, .zero, .zero, .zero⟩

/-- Rotate a lane to the left by `n` bits, `0 < n < 64`. -/
@[inline] def rotl (x n : UInt64) : UInt64 := (x <<< n) ||| (x >>> (64 - n))

/-! ## Steps of a round -/

/-- **Theta**: add to every lane the parities of two neighbouring columns. -/
@[inline] def theta (s : State) : State :=
  let p := (((s.r0.xor s.r1).xor s.r2).xor s.r3).xor s.r4
  let d : Row :=
    ⟨p.e ^^^ rotl p.b 1, p.a ^^^ rotl p.c 1, p.b ^^^ rotl p.d 1,
      p.c ^^^ rotl p.e 1, p.d ^^^ rotl p.a 1⟩
  ⟨s.r0.xor d, s.r1.xor d, s.r2.xor d, s.r3.xor d, s.r4.xor d⟩

/-- **Rho and pi**: rotate every lane by its own amount and move it. -/
@[inline] def rhoPi (s : State) : State where
  r0 := ⟨s.r0.a, rotl s.r1.b 44, rotl s.r2.c 43, rotl s.r3.d 21, rotl s.r4.e 14⟩
  r1 := ⟨rotl s.r0.d 28, rotl s.r1.e 20, rotl s.r2.a 3, rotl s.r3.b 45, rotl s.r4.c 61⟩
  r2 := ⟨rotl s.r0.b 1, rotl s.r1.c 6, rotl s.r2.d 25, rotl s.r3.e 8, rotl s.r4.a 18⟩
  r3 := ⟨rotl s.r0.e 27, rotl s.r1.a 36, rotl s.r2.b 10, rotl s.r3.c 15, rotl s.r4.d 56⟩
  r4 := ⟨rotl s.r0.c 62, rotl s.r1.d 55, rotl s.r2.e 39, rotl s.r3.a 41, rotl s.r4.b 2⟩

/-- **Chi** on one row: the only step that is not linear. -/
@[inline] def Row.chi (r : Row) : Row :=
  ⟨r.a ^^^ (~~~r.b &&& r.c), r.b ^^^ (~~~r.c &&& r.d), r.c ^^^ (~~~r.d &&& r.e),
    r.d ^^^ (~~~r.e &&& r.a), r.e ^^^ (~~~r.a &&& r.b)⟩

/-- **Iota**: add the constant of the round to the first lane. -/
@[inline] def iota (s : State) (constant : UInt64) : State :=
  { s with r0 := { s.r0 with a := s.r0.a ^^^ constant } }

/-- One round. -/
def round (s : State) (constant : UInt64) : State :=
  let t := rhoPi (theta s)
  iota ⟨t.r0.chi, t.r1.chi, t.r2.chi, t.r3.chi, t.r4.chi⟩ constant

/-- The constants of the 24 rounds. -/
def roundConstants : List UInt64 :=
  [0x0000000000000001, 0x0000000000008082, 0x800000000000808a, 0x8000000080008000,
   0x000000000000808b, 0x0000000080000001, 0x8000000080008081, 0x8000000000008009,
   0x000000000000008a, 0x0000000000000088, 0x0000000080008009, 0x000000008000000a,
   0x000000008000808b, 0x800000000000008b, 0x8000000000008089, 0x8000000000008003,
   0x8000000000008002, 0x8000000000000080, 0x000000000000800a, 0x800000008000000a,
   0x8000000080008081, 0x8000000000008080, 0x0000000080000001, 0x8000000080008008]

/-- The permutation. -/
def permute (s : State) : State := roundConstants.foldl round s

/-! ## Sponge -/

/-- Bytes that one permutation takes in. -/
def blockSize : Nat := 136

/-- The input followed by the padding up to a whole number of blocks. -/
def pad (b : Bytes) : Bytes :=
  let missing := blockSize - b.size % blockSize
  if missing = 1 then b.push 0x81
  else (b.push 0x01) ++ (Bytes.zeros (missing - 2)).push 0x80

/-- Byte `i` as the byte number `k` of a lane. -/
@[inline] def laneByte (b : Bytes) (i : Nat) (k : UInt64) : UInt64 :=
  (Bytes.byteAt b i).toUInt64 <<< (8 * k)

/-- The eight bytes from `i` on, least significant first. -/
def lane (b : Bytes) (i : Nat) : UInt64 :=
  laneByte b i 0 ||| laneByte b (i + 1) 1 ||| laneByte b (i + 2) 2 ||| laneByte b (i + 3) 3
    ||| laneByte b (i + 4) 4 ||| laneByte b (i + 5) 5 ||| laneByte b (i + 6) 6
    ||| laneByte b (i + 7) 7

/-- Five lanes from `i` on. -/
def row (b : Bytes) (i : Nat) : Row :=
  ⟨lane b i, lane b (i + 8), lane b (i + 16), lane b (i + 24), lane b (i + 32)⟩

/-- Add the block that starts at `i` to the first 17 lanes, and permute. -/
def absorbBlock (b : Bytes) (s : State) (i : Nat) : State :=
  permute
    { s with
      r0 := s.r0.xor (row b i)
      r1 := s.r1.xor (row b (i + 40))
      r2 := s.r2.xor (row b (i + 80))
      r3 := s.r3.xor ⟨lane b (i + 120), lane b (i + 128), 0, 0, 0⟩ }

/-- Absorb a number of blocks from position `i` on. -/
def absorb (b : Bytes) : (blocks i : Nat) → State → State
  | 0, _, s => s
  | blocks + 1, i, s => absorb b blocks (i + blockSize) (absorbBlock b s i)

/-- Byte number `k` of a lane, moved to be its byte number `7 - k`. -/
@[inline] def flipByte (x k : UInt64) : UInt64 :=
  ((x >>> (8 * k)) &&& 0xff) <<< (56 - 8 * k)

/-- A lane with its bytes in the opposite order. -/
def swapBytes (x : UInt64) : UInt64 :=
  flipByte x 0 ||| flipByte x 1 ||| flipByte x 2 ||| flipByte x 3
    ||| flipByte x 4 ||| flipByte x 5 ||| flipByte x 6 ||| flipByte x 7

/-- The first four lanes as 32 bytes. -/
def digest (s : State) : Hash :=
  ⟨(swapBytes s.r0.a).toBitVec ++ (swapBytes s.r0.b).toBitVec
    ++ (swapBytes s.r0.c).toBitVec ++ (swapBytes s.r0.d).toBitVec⟩

end Evm.Crypto.Keccak

namespace Evm

/-- **Keccak-256** of a byte string. -/
def keccak256 (b : Bytes) : Hash :=
  let padded := Crypto.Keccak.pad b
  Crypto.Keccak.digest
    (Crypto.Keccak.absorb padded (padded.size / Crypto.Keccak.blockSize) 0
      Crypto.Keccak.State.zero)

end Evm
