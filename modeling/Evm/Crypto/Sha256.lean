import Evm.Hash

/-!
# SHA-256

    The compression function on blocks of 64 bytes, the padding that ends
    with the length of the input in bits, and the digest of 32 bytes.
-/

namespace Evm.Crypto.Sha256

/-! ## State -/

/-- The eight chaining words. -/
structure State where
  a : UInt32
  b : UInt32
  c : UInt32
  d : UInt32
  e : UInt32
  f : UInt32
  g : UInt32
  h : UInt32

/-- The chaining words before any input. -/
def State.initial : State :=
  ⟨0x6a09e667, 0xbb67ae85, 0x3c6ef372, 0xa54ff53a, 0x510e527f, 0x9b05688c, 0x1f83d9ab, 0x5be0cd19⟩

/-- Word-wise sum. -/
def State.add (s t : State) : State :=
  ⟨s.a + t.a, s.b + t.b, s.c + t.c, s.d + t.d, s.e + t.e, s.f + t.f, s.g + t.g, s.h + t.h⟩

/-- Rotate to the right by `n` bits, `0 < n < 32`. -/
@[inline] def rotr (x n : UInt32) : UInt32 := (x >>> n) ||| (x <<< (32 - n))

/-! ## Compression -/

/-- The constants of the 64 rounds. -/
def roundConstants : List UInt32 :=
  [0x428a2f98, 0x71374491, 0xb5c0fbcf, 0xe9b5dba5, 0x3956c25b, 0x59f111f1, 0x923f82a4, 0xab1c5ed5,
   0xd807aa98, 0x12835b01, 0x243185be, 0x550c7dc3, 0x72be5d74, 0x80deb1fe, 0x9bdc06a7, 0xc19bf174,
   0xe49b69c1, 0xefbe4786, 0x0fc19dc6, 0x240ca1cc, 0x2de92c6f, 0x4a7484aa, 0x5cb0a9dc, 0x76f988da,
   0x983e5152, 0xa831c66d, 0xb00327c8, 0xbf597fc7, 0xc6e00bf3, 0xd5a79147, 0x06ca6351, 0x14292967,
   0x27b70a85, 0x2e1b2138, 0x4d2c6dfc, 0x53380d13, 0x650a7354, 0x766a0abb, 0x81c2c92e, 0x92722c85,
   0xa2bfe8a1, 0xa81a664b, 0xc24b8b70, 0xc76c51a3, 0xd192e819, 0xd6990624, 0xf40e3585, 0x106aa070,
   0x19a4c116, 0x1e376c08, 0x2748774c, 0x34b0bcb5, 0x391c0cb3, 0x4ed8aa4a, 0x5b9cca4f, 0x682e6ff3,
   0x748f82ee, 0x78a5636f, 0x84c87814, 0x8cc70208, 0x90befffa, 0xa4506ceb, 0xbef9a3f7, 0xc67178f2]

/-- The four bytes from `i` on, most significant first. -/
def wordAt (b : Bytes) (i : Nat) : UInt32 :=
  ((Bytes.byteAt b i).toUInt32 <<< 24) ||| ((Bytes.byteAt b (i + 1)).toUInt32 <<< 16)
    ||| ((Bytes.byteAt b (i + 2)).toUInt32 <<< 8) ||| (Bytes.byteAt b (i + 3)).toUInt32

/-- The word after a window of sixteen. -/
def nextWord (w : Array UInt32) (t : Nat) : UInt32 :=
  let x := w.getD (t - 15) 0
  let y := w.getD (t - 2) 0
  let s0 := rotr x 7 ^^^ rotr x 18 ^^^ (x >>> 3)
  let s1 := rotr y 17 ^^^ rotr y 19 ^^^ (y >>> 10)
  w.getD (t - 16) 0 + s0 + w.getD (t - 7) 0 + s1

/-- The words of the block at `i`, extended from 16 to 64. -/
def schedule (b : Bytes) (i : Nat) : Array UInt32 :=
  let start := (Array.range 16).map fun t => wordAt b (i + 4 * t)
  (List.range 48).foldl (fun w k => w.push (nextWord w (16 + k))) start

/-- One round, with the sum of its constant and its word. -/
def round (s : State) (kw : UInt32) : State :=
  let s1 := rotr s.e 6 ^^^ rotr s.e 11 ^^^ rotr s.e 25
  let ch := (s.e &&& s.f) ^^^ (~~~s.e &&& s.g)
  let t1 := s.h + s1 + ch + kw
  let s0 := rotr s.a 2 ^^^ rotr s.a 13 ^^^ rotr s.a 22
  let maj := (s.a &&& s.b) ^^^ (s.a &&& s.c) ^^^ (s.b &&& s.c)
  ⟨t1 + (s0 + maj), s.a, s.b, s.c, s.d + t1, s.e, s.f, s.g⟩

/-- Take in the block at `i`. -/
def compress (b : Bytes) (s : State) (i : Nat) : State :=
  let kws := List.zipWith (· + ·) roundConstants (schedule b i).toList
  s.add (kws.foldl round s)

/-! ## Digest -/

/-- The input, a byte of `0x80`, zeros, and the length in bits as eight
    bytes, together a whole number of blocks. -/
def pad (b : Bytes) : Bytes :=
  let zeros := (119 - b.size % 64) % 64
  (b.push 0x80) ++ Bytes.zeros zeros ++ Bytes.ofNumber (8 * b.size) 8

/-- Take in a number of blocks from position `i` on. -/
def absorb (b : Bytes) : (blocks i : Nat) → State → State
  | 0, _, s => s
  | blocks + 1, i, s => absorb b blocks (i + 64) (compress b s i)

/-- The chaining words as 32 bytes. -/
def digest (s : State) : Hash :=
  ⟨s.a.toBitVec ++ s.b.toBitVec ++ s.c.toBitVec ++ s.d.toBitVec
    ++ s.e.toBitVec ++ s.f.toBitVec ++ s.g.toBitVec ++ s.h.toBitVec⟩

end Evm.Crypto.Sha256

namespace Evm

/-- **SHA-256** of a byte string. -/
def sha256 (b : Bytes) : Hash :=
  let padded := Crypto.Sha256.pad b
  Crypto.Sha256.digest
    (Crypto.Sha256.absorb padded (padded.size / 64) 0 Crypto.Sha256.State.initial)

end Evm
