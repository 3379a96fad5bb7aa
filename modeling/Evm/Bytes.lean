/-!
# Byte strings

    Byte strings of any length, and the views of them that the rest of the
    library is stated with:

    * `Bytes.byteAt`: the string extended by zeros for ever,
    * `Bytes.window`: a finite piece of that endless string,
    * `Bytes.number`: the number that such a piece spells, most significant
      byte first, and its converse `Bytes.ofNumber`.
-/

namespace Evm

/-- A finite string of bytes. -/
abbrev Bytes := ByteArray

/-- Byte strings are compared byte by byte. -/
instance : DecidableEq Bytes := ByteArray.instDecidableEq

namespace Bytes

/-! ## Conversions -/

/-- The bytes as a list, first byte first. -/
def toList (b : Bytes) : List UInt8 := b.data.toList

/-- The byte string with the bytes of a list. -/
def ofList (l : List UInt8) : Bytes := ⟨l.toArray⟩

/-- `n` zero bytes. -/
def zeros (n : Nat) : Bytes := ⟨Array.replicate n 0⟩

/-- Whether there is no byte at all. -/
def isEmpty (b : Bytes) : Bool := b.size == 0

/-! ## The string extended by zeros -/

/-- The byte at position `i`; every position past the end holds zero. -/
def byteAt (b : Bytes) (i : Nat) : UInt8 :=
  if h : i < b.size then b[i] else 0

/-- **Window**: the `len` bytes from `start` on of the string extended by
    zeros. Both ends are cut to the string before any byte is copied, so
    positions of any size are answered. -/
def window (b : Bytes) (start len : Nat) : Bytes :=
  let part := b.extract (min start b.size) (min (start + len) b.size)
  part ++ zeros (len - part.size)

/-- The bytes from `start` up to `stop`, if the whole range lies inside. -/
def slice? (b : Bytes) (start stop : Nat) : Option Bytes :=
  if start ≤ stop ∧ stop ≤ b.size then some (b.extract start stop) else none

/-! ## Big-endian numbers -/

/-- The number spelled by the `len` bytes from `start` on of the string
    extended by zeros, most significant byte first. -/
def number (b : Bytes) (start : Nat) : Nat → Nat
  | 0 => 0
  | len + 1 => number b start len * 256 + (byteAt b (start + len)).toNat

/-- The low `len` bytes of a number, most significant byte first. -/
def ofNumber (n len : Nat) : Bytes :=
  ⟨Array.ofFn fun i : Fin len => UInt8.ofNat (n >>> (8 * (len - 1 - i)))⟩

/-- The shortest big-endian form of a number; zero is the empty string. -/
def ofNumberShortest (n : Nat) : Bytes :=
  if n = 0 then ofNumber 0 0 else ofNumber n (n.log2 / 8 + 1)

@[simp] theorem size_zeros (n : Nat) : (zeros n).size = n := by
  simp [zeros, ByteArray.size]

@[simp] theorem size_ofNumber (n len : Nat) : (ofNumber n len).size = len := by
  simp [ofNumber, ByteArray.size]

theorem byteAt_of_le (b : Bytes) (i : Nat) (h : b.size ≤ i) : byteAt b i = 0 := by
  simp [byteAt, Nat.not_lt.mpr h]

/-- A window always has the length that was asked for. -/
@[simp] theorem size_window (b : Bytes) (start len : Nat) :
    (window b start len).size = len := by
  simp only [window, ByteArray.size_append, size_zeros, ByteArray.size_extract]
  omega

end Bytes

end Evm
