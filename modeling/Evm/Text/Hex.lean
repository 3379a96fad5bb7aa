import Evm.Bytes
import Evm.Text.Quoted

/-!
# Hexadecimal text

    Byte strings written with two lower-case digits a byte, and the reader
    that takes either case. The reader names its first complaint: an odd
    number of digits before any wrong digit, and the leftmost wrong digit
    before later ones. It works on the bytes of the text, so a position
    counts bytes and a character beyond ASCII is reported by its first byte.
-/

namespace Evm.Text.Hex

/-! ## Digits -/

/-- The lower-case digit for a value below sixteen. -/
def digit (n : Nat) : Char :=
  if n < 10 then Char.ofNat (48 + n) else Char.ofNat (87 + n)

/-- The value of a digit of either case. -/
def digit? (c : UInt8) : Option Nat :=
  let n := c.toNat
  if 48 ≤ n ∧ n ≤ 57 then some (n - 48)
  else if 97 ≤ n ∧ n ≤ 102 then some (n - 87)
  else if 65 ≤ n ∧ n ≤ 70 then some (n - 55)
  else none

/-! ## Writing -/

/-- The two digits of a byte, high half first. -/
def pushByte (s : String) (x : UInt8) : String :=
  (s.push (digit (x.toNat / 16))).push (digit (x.toNat % 16))

/-- Two lower-case digits for each byte. -/
def encode (b : Bytes) : String :=
  b.toList.foldl pushByte ""

/-- `encode` behind the marker `0x`. -/
def encodeMarked (b : Bytes) : String := "0x" ++ encode b

/-! ## Reading -/

/-- Why a text is not hexadecimal. -/
inductive Error where
  /-- The digits do not pair up. -/
  | oddLength
  /-- The byte at this position is no digit. -/
  | invalidDigit (byte : UInt8) (position : Nat)
  deriving DecidableEq

/-- The wording of a complaint. -/
def Error.message : Error → String
  | .oddLength => "Odd number of digits"
  | .invalidDigit byte position =>
    s!"Invalid character {quoteLatin byte} at position {position}"

/-- Read pairs of digits onto the end of `acc`; `position` is where the next
    pair stands in the text. -/
def decodePairs : List UInt8 → Nat → Bytes → Except Error Bytes
  | hi :: lo :: rest, position, acc =>
    match digit? hi, digit? lo with
    | some x, some y => decodePairs rest (position + 2) (acc.push (UInt8.ofNat (16 * x + y)))
    | none, _ => .error (.invalidDigit hi position)
    | some _, none => .error (.invalidDigit lo (position + 1))
  | _, _, acc => .ok acc

/-- Read a text of paired digits. -/
def decode (s : String) : Except Error Bytes :=
  let text := Bytes.toList s.toUTF8
  if text.length % 2 = 1 then .error .oddLength else decodePairs text 0 ByteArray.empty

/-- The text behind a leading `0x`, or the whole text if there is none. -/
def dropMarker (s : String) : String :=
  match s.toList with
  | '0' :: 'x' :: rest => String.ofList rest
  | _ => s

end Evm.Text.Hex
