import Evm.Address
import Evm.Hash

/-!
# Recursive length prefixes

    The serialisation that contract addresses are derived from. A byte string
    is written as itself if it is a single byte below `0x80`, and otherwise
    behind a header with its length; a list is the concatenation of its
    written items behind a header of its own.

    The reader takes one string from the front of its input and ignores what
    follows. It accepts a long header where a short one would have done.
-/

namespace Evm.Rlp

/-! ## Writing -/

/-- The header for `length` bytes: one byte from `short` on if they are at
    most 55, else the length of the length and the length itself. -/
def header (short long : Nat) (length : Nat) : Bytes :=
  if length ≤ 55 then Bytes.ofNumber (short + length) 1
  else
    let digits := Bytes.ofNumberShortest length
    Bytes.ofNumber (long + digits.size) 1 ++ digits

/-- A byte string. -/
def encodeString (b : Bytes) : Bytes :=
  if b.size = 1 ∧ (Bytes.byteAt b 0).toNat < 0x80 then b
  else header 0x80 0xb7 b.size ++ b

/-- A number: its shortest big-endian form as a byte string. -/
def encodeNumber (n : Nat) : Bytes := encodeString (Bytes.ofNumberShortest n)

/-- A list of items that are already written. -/
def encodeList (items : List Bytes) : Bytes :=
  let body := items.foldl (· ++ ·) ByteArray.empty
  header 0xc0 0xf7 body.size ++ body

/-! ## Reading -/

/-- Why no string can be read. -/
inductive DecodeError where
  /-- There is no byte at all. -/
  | tooShort
  /-- The header announces more bytes than there are. -/
  | inconsistentLength
  /-- The header has a form that a shorter one must be used for. -/
  | invalidIndirection
  /-- The length does not fit, or is not the one that is wanted. -/
  | invalidLength
  /-- There is a list where a string is wanted. -/
  | expectedData
  deriving DecidableEq

/-- The string that starts at position `start` and has `length` bytes. -/
def take (b : Bytes) (start length : Nat) : Except DecodeError Bytes :=
  match Bytes.slice? b start (start + length) with
  | some data => .ok data
  | none => .error .inconsistentLength

/-- Read the string at the front of the input. -/
def decodeString (b : Bytes) : Except DecodeError Bytes := do
  if b.size = 0 then throw .tooShort
  let first := (Bytes.byteAt b 0).toNat
  if first ≤ 0x7f then return Bytes.window b 0 1
  else if first ≤ 0xb7 then
    let data ← take b 1 (first - 0x80)
    -- a single low byte has to stand for itself
    if first = 0x81 ∧ (Bytes.byteAt data 0).toNat < 0x80 then throw .invalidIndirection
    return data
  else if first ≤ 0xbf then
    let lengthSize := first - 0xb7
    let digits ← take b 1 lengthSize
    if Bytes.byteAt digits 0 = 0 then throw .invalidIndirection
    let start := 1 + lengthSize
    let length := Bytes.number digits 0 lengthSize
    if 0xffffffffffffffff < start + length then throw .invalidLength
    take b start length
  else throw .expectedData

/-- Write an address. -/
def encodeAddress (a : Address) : Bytes := encodeString a.toBytes

/-- Write a hash. -/
def encodeHash (h : Hash) : Bytes := encodeString h.toBytes

/-- Read an address. -/
def decodeAddress (b : Bytes) : Except DecodeError Address := do
  match Address.ofBytes (← decodeString b) with
  | .ok a => return a
  | .error _ => throw .invalidLength

/-- Read a hash. -/
def decodeHash (b : Bytes) : Except DecodeError Hash := do
  match Hash.ofBytes (← decodeString b) with
  | .ok h => return h
  | .error _ => throw .invalidLength

end Evm.Rlp
