import Evm.Word
import Evm.Text.Hex
import Std.Data.ExtTreeMap

/-!
# Hashes

    A hash is 32 bytes: a digest, a block hash, a log topic. It carries the
    same information as a word and is kept apart from it because it is
    written and read differently.
-/

namespace Evm

/-- A string of 32 bytes. -/
structure Hash where
  /-- The bytes as one big-endian word. -/
  toWord : Word
  deriving DecidableEq, Inhabited

namespace Hash

/-- The hash of 32 zero bytes. -/
def zero : Hash := ⟨0⟩

/-- The 32 bytes of a word. -/
def ofWord (w : Word) : Hash := ⟨w⟩

/-- The 32 bytes, most significant first. -/
def toBytes (h : Hash) : Bytes := h.toWord.toBytes

/-- Whether all bytes are zero. -/
def isZero (h : Hash) : Bool := h.toWord == 0

/-- All 64 digits behind `0x`. -/
def toHex (h : Hash) : String := Text.Hex.encodeMarked h.toBytes

/-! ## Order -/

/-- Hashes are ordered as numbers, which is the order of their bytes. -/
instance : Ord Hash := ⟨compareOn Hash.toWord⟩

instance : Std.TransOrd Hash :=
  inferInstanceAs (Std.TransCmp (compareOn Hash.toWord))

instance : Std.LawfulEqOrd Hash where
  eq_of_compare {a b} h := by
    have h : compare a.toWord b.toWord = .eq := h
    cases a; cases b
    simpa using h

/-! ## Reading -/

/-- Why a text or byte string is not a hash. -/
inductive ReadError where
  /-- The text is not hexadecimal. -/
  | invalidHex (reason : Text.Hex.Error)
  /-- There are not 32 bytes. -/
  | invalidLength (got : Nat)
  deriving DecidableEq

/-- The wording of a complaint. -/
def ReadError.message : ReadError → String
  | .invalidHex reason => s!"invalid hex string: {reason.message}"
  | .invalidLength got => s!"invalid hash length: expected 32 bytes, got {got}"

/-- The hash of exactly 32 bytes. -/
def ofBytes (b : Bytes) : Except ReadError Hash :=
  if b.size = 32 then .ok (ofWord (Word.ofBytesAt b 0)) else .error (.invalidLength b.size)

/-- The hash written as 64 digits behind an optional `0x`. -/
def ofHex (s : String) : Except ReadError Hash :=
  match Text.Hex.decode (Text.Hex.dropMarker s) with
  | .error reason => .error (.invalidHex reason)
  | .ok b => ofBytes b

end Hash

end Evm
