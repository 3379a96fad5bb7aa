import Evm.Word
import Evm.Text.Hex
import Std.Data.ExtTreeMap

/-!
# Account addresses

    An address is 20 bytes. On the stack it is a word whose upper 12 bytes
    are dropped on the way in and zero on the way out.
-/

namespace Evm

/-- The name of an account. -/
structure Address where
  /-- The 20 bytes as one number. -/
  bits : BitVec 160
  deriving DecidableEq, Inhabited

namespace Address

/-- The address of twenty zero bytes. -/
def zero : Address := ⟨0⟩

/-- The address with a given number, modulo `2 ^ 160`. -/
def ofNat (n : Nat) : Address := ⟨BitVec.ofNat 160 n⟩

/-- The low 20 bytes of a word. -/
def ofWord (w : Word) : Address := ⟨w.setWidth 160⟩

/-- The address extended by zeros to a word. -/
def toWord (a : Address) : Word := a.bits.setWidth 256

/-- The 20 bytes, most significant first. -/
def toBytes (a : Address) : Bytes := Bytes.ofNumber a.bits.toNat 20

/-- Whether all bytes are zero. -/
def isZero (a : Address) : Bool := a.bits == 0

/-- All 40 digits behind `0x`. -/
def toHex (a : Address) : String := Text.Hex.encodeMarked a.toBytes

/-! ## Order -/

/-- Addresses are ordered as numbers, which is the order of their bytes. -/
instance : Ord Address := ⟨compareOn Address.bits⟩

instance : Std.TransOrd Address :=
  inferInstanceAs (Std.TransCmp (compareOn Address.bits))

instance : Std.LawfulEqOrd Address where
  eq_of_compare {a b} h := by
    have h : compare a.bits b.bits = .eq := h
    cases a; cases b
    simpa using h

/-! ## Reading -/

/-- Why a text or byte string is not an address. -/
inductive ReadError where
  /-- The text is not hexadecimal. -/
  | invalidHex (reason : Text.Hex.Error)
  /-- There are not 20 bytes. -/
  | invalidLength (got : Nat)
  deriving DecidableEq

/-- The wording of a complaint. -/
def ReadError.message : ReadError → String
  | .invalidHex reason => s!"invalid hex string: {reason.message}"
  | .invalidLength got => s!"invalid address length: expected 20 bytes, got {got}"

/-- The address of exactly 20 bytes. -/
def ofBytes (b : Bytes) : Except ReadError Address :=
  if b.size = 20 then .ok (ofNat (Bytes.number b 0 20)) else .error (.invalidLength b.size)

/-- The address written as 40 digits behind an optional `0x`. -/
def ofHex (s : String) : Except ReadError Address :=
  match Text.Hex.decode (Text.Hex.dropMarker s) with
  | .error reason => .error (.invalidHex reason)
  | .ok b => ofBytes b

end Address

end Evm
