import Evm.Bytes

/-!
# Machine words

    The 256-bit word and the arithmetic that the machine defines on it.
    Every operation is total: division by zero gives zero and everything
    else wraps modulo `2 ^ 256`. Addition, subtraction, multiplication and
    the bitwise operations are those of `BitVec`; this module adds the rest.

    The signed operations read a word in two's complement. They work on the
    absolute values and put the sign back afterwards, so the one overflow
    there is, the quotient of the least word by minus one, wraps around to
    the least word again.
-/

namespace Evm

/-- A 256-bit machine word. -/
abbrev Word := BitVec 256

namespace Word

/-! ## Conversions -/

/-- The word of a number, modulo `2 ^ 256`. -/
abbrev ofNat (n : Nat) : Word := BitVec.ofNat 256 n

/-- The word with all bits set. -/
def max : Word := BitVec.allOnes 256

/-- One for true, zero for false. -/
def ofBool (b : Bool) : Word := if b then 1 else 0

/-- The 32 bytes of a word, most significant first. -/
def toBytes (x : Word) : Bytes := Bytes.ofNumber x.toNat 32

/-- The word that 32 bytes of a string spell from `start` on, with zeros
    past the end of the string. -/
def ofBytesAt (b : Bytes) (start : Nat) : Word := ofNat (Bytes.number b start 32)

/-- The least number of bytes that hold the word; none for zero. -/
def byteLength (x : Word) : Nat :=
  if x.toNat = 0 then 0 else x.toNat.log2 / 8 + 1

/-- The largest number that 64 bits hold. -/
def maxUInt64 : Nat := 0xffffffffffffffff

/-- The value of the word, cut down to what 64 bits hold. -/
def toNatCapped (x : Word) : Nat := min x.toNat maxUInt64

/-- **Memory index**: the value of the word if 32 bits hold it. Memory of a
    larger size could never be paid for, so a larger word is no index. -/
def toIndex? (x : Word) : Option Nat :=
  if x.toNat ≤ 0xffffffff then some x.toNat else none

/-! ## Sign -/

/-- Whether the word is negative in two's complement. -/
def isNegative (x : Word) : Bool := x.msb

/-- Negation in two's complement. -/
def negate (x : Word) : Word := ~~~x + 1

/-- Absolute value; the least word is its own absolute value. -/
def abs (x : Word) : Word := if isNegative x then negate x else x

/-! ## Division -/

/-- Unsigned quotient, zero for divisor zero. -/
def div (a b : Word) : Word := if b = 0 then 0 else ofNat (a.toNat / b.toNat)

/-- Unsigned remainder, zero for divisor zero. -/
def rem (a b : Word) : Word := if b = 0 then 0 else ofNat (a.toNat % b.toNat)

/-- Signed quotient, cut toward zero; zero for divisor zero. -/
def sdiv (a b : Word) : Word :=
  if b = 0 then 0
  else
    let quotient := div (abs a) (abs b)
    if isNegative a != isNegative b then negate quotient else quotient

/-- Signed remainder, with the sign of the dividend; zero for divisor zero. -/
def smod (a b : Word) : Word :=
  if b = 0 then 0
  else
    let r := rem (abs a) (abs b)
    if isNegative a then negate r else r

/-- The low half of a number of 512 bits: the last 32 of its 64 bytes. -/
def narrow (x : BitVec 512) : Word := ofBytesAt (Bytes.ofNumber x.toNat 64) 32

/-- Sum modulo `n`, taken in 512 bits, where it cannot wrap around; zero for
    `n` zero. -/
def addmod (a b n : Word) : Word :=
  if n = 0 then 0 else narrow ((a.setWidth 512 + b.setWidth 512) % n.setWidth 512)

/-- Product modulo `n`, taken in 512 bits, where it cannot wrap around; zero
    for `n` zero. -/
def mulmod (a b n : Word) : Word :=
  if n = 0 then 0 else narrow ((a.setWidth 512 * b.setWidth 512) % n.setWidth 512)

/-! ## Exponentiation -/

/-- What square and multiply carries from round to round. The power that is
    sought is `result * base ^ exponent` all the time. -/
structure Squaring where
  result : Word
  base : Word
  exponent : Word
  deriving DecidableEq

namespace Squaring

/-- One round: take the lowest bit off the exponent, with its factor if it is
    set, and square the base. Both products wrap. -/
def round (s : Squaring) : Squaring where
  result := if s.exponent.getLsbD 0 then s.result * s.base else s.result
  base := s.base * s.base
  exponent := s.exponent >>> 1

/-- As long as a bit is left the exponent gets smaller. -/
theorem exponent_round_lt {s : Squaring} (h : s.exponent ≠ 0) :
    s.round.exponent.toNat < s.exponent.toNat := by
  have hpos : s.exponent.toNat ≠ 0 := fun hzero => h (BitVec.eq_of_toNat_eq hzero)
  rw [round, BitVec.toNat_ushiftRight, Nat.shiftRight_eq_div_pow]
  exact Nat.div_lt_self (Nat.pos_of_ne_zero hpos) (by decide)

/-- Rounds until no bit of the exponent is left. -/
def finish (s : Squaring) : Squaring :=
  if s.exponent = 0 then s else s.round.finish
termination_by s.exponent.toNat
decreasing_by exact exponent_round_lt (by assumption)

end Squaring

/-- Wrapping power. -/
def exp (base exponent : Word) : Word := (Squaring.finish ⟨1, base, exponent⟩).result

/-! ## Bits and bytes -/

/-- Extend the sign of the number in the low `b + 1` bytes of `x` to the
    whole word; from byte 31 on there is nothing to extend. -/
def signextend (b x : Word) : Word :=
  if 31 ≤ b.toNat then x
  else
    let bit := b.toNat * 8 + 7
    let mask : Word := ((1 : Word) <<< bit) - 1
    if x.getLsbD bit then x ||| ~~~mask else x &&& mask

/-- Byte `i` of `x`, counted from the most significant one; zero from byte
    32 on. -/
def byte (i x : Word) : Word :=
  if 32 ≤ i.toNat then 0 else ofNat (x.toNat >>> (8 * (31 - i.toNat)) % 256)

/-- Shift left; zero once every bit is shifted out. -/
def shl (shift value : Word) : Word :=
  if 256 ≤ shift.toNat then 0 else value <<< shift.toNat

/-- Shift right, filling with zeros. -/
def shr (shift value : Word) : Word :=
  if 256 ≤ shift.toNat then 0 else value >>> shift.toNat

/-- Shift right, filling with the sign. -/
def sar (shift value : Word) : Word :=
  if 256 ≤ shift.toNat then
    if isNegative value then max else 0
  else
    let shifted := value >>> shift.toNat
    if isNegative value then shifted ||| ~~~(max >>> shift.toNat) else shifted

/-! ## Signed order -/

/-- Signed less-than. Words of one sign are in the same order signed and
    unsigned. -/
def slt (a b : Word) : Bool :=
  match isNegative a, isNegative b with
  | true, false => true
  | false, true => false
  | _, _ => a.toNat < b.toNat

/-- Signed greater-than. -/
def sgt (a b : Word) : Bool := slt b a

end Word

end Evm
