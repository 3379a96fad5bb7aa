import Evm.Word

/-!
# Memory

    The working memory of a frame: bytes at positions from zero on, all zero
    at first. It grows by whole words when a range is touched, and reads
    beyond its end give zeros. Growth is paid for elsewhere; the operations
    here grow and copy.
-/

namespace Evm

/-- The working memory of a frame. -/
structure Memory where
  data : Bytes
  deriving DecidableEq, Inhabited

namespace Memory

/-- Memory that has not been touched. -/
def empty : Memory := ⟨ByteArray.empty⟩

/-- Size in bytes. -/
def size (m : Memory) : Nat := m.data.size

/-- Size in words. -/
def words (m : Memory) : Nat := m.data.size / 32

/-- Grow to cover `len` bytes from `offset` on, in whole words. An empty
    range is covered by any memory. -/
def resize (m : Memory) (offset len : Nat) : Memory :=
  if len = 0 then m
  else
    let wanted := (min (offset + len) Word.maxUInt64 + 31) / 32 * 32
    if m.data.size < wanted then ⟨m.data ++ Bytes.zeros (wanted - m.data.size)⟩ else m

/-! ## Reading -/

/-- A copy of `len` bytes from `offset` on; what lies past the end reads as
    zero. -/
def read (m : Memory) (offset len : Nat) : Bytes := Bytes.window m.data offset len

/-- The word at `offset`, spelled by the 32 bytes read there. -/
def loadWord (m : Memory) (offset : Nat) : Word := Word.ofBytesAt (m.read offset 32) 0

/-- A range that memory covers. -/
def slice (m : Memory) (offset len : Nat) : Bytes := m.data.extract offset (offset + len)

/-! ## Writing -/

/-- Write bytes at `offset`. -/
def store (m : Memory) (offset : Nat) (b : Bytes) : Memory :=
  if b.size = 0 then m
  else
    let m := m.resize offset b.size
    ⟨b.copySlice 0 m.data offset b.size⟩

/-- Write a word at `offset`. -/
def storeWord (m : Memory) (offset : Nat) (w : Word) : Memory := m.store offset w.toBytes

/-- Write one byte at `offset`. -/
def storeByte (m : Memory) (offset : Nat) (x : UInt8) : Memory :=
  m.store offset (Bytes.ofList [x])

/-- Write at `offset` the `len` bytes of a string from `sourceOffset` on,
    with zeros for what lies past its end. -/
def storePadded (m : Memory) (offset len : Nat) (source : Bytes) (sourceOffset : Nat) : Memory :=
  m.store offset (Bytes.window source sourceOffset len)

/-- Copy `len` bytes from `source` to `dest`, as if all of them were read
    before the first is written. -/
def copyWithin (m : Memory) (dest source len : Nat) : Memory :=
  if len = 0 then m
  else
    let m := m.resize (max dest source) len
    m.store dest (m.slice source len)

end Memory

end Evm
