import Evm.Word
import Evm.Text.Hex

/-!
# Words as text

    Words are written in hexadecimal without leading zeros. The reader takes
    at most 64 digits of either case, any number of them, behind an optional
    marker.
-/

namespace Evm.Word

/-! ## Writing -/

/-- Lower-case hexadecimal without leading zeros, behind `0x`. -/
def toHex (x : Word) : String := "0x" ++ String.ofList (Nat.toDigits 16 x.toNat)

/-! ## Reading -/

/-- Why a text is not the numeral of a word. -/
inductive NumeralError where
  /-- More than 64 bytes of text. -/
  | tooLong
  /-- The byte at this index is no digit. -/
  | invalidDigit (byte : UInt8) (index : Nat)
  deriving DecidableEq

/-- The structured wording of a numeral error. -/
def NumeralError.describe : NumeralError → String
  | .tooLong =>
    "FromStrRadixErr \x7b kind: InvalidLength, source: Some(Hex(FromHexError \x7b "
      ++ "inner: InvalidStringLength \x7d)) \x7d"
  | .invalidDigit byte index =>
    "FromStrRadixErr \x7b kind: InvalidCharacter, source: Some(Hex(FromHexError \x7b "
      ++ "inner: InvalidHexCharacter \x7b c: " ++ Text.quoteLatin byte
      ++ s!", index: {index} " ++ "\x7d \x7d)) \x7d"

/-- The number that a run of digits denotes, `index` being the index of the
    first of them and `acc` the number read before it. -/
def readDigits : List UInt8 → (index acc : Nat) → Except NumeralError Nat
  | [], _, acc => .ok acc
  | c :: rest, index, acc =>
    match Text.Hex.digit? c with
    | some d => readDigits rest (index + 1) (16 * acc + d)
    | none => .error (.invalidDigit c index)

/-- Read a numeral behind an optional marker. Digits are read in pairs, so
    an odd number of them counts as having a zero in front and the index of
    a wrong digit is one higher. -/
def ofNumeral (s : String) : Except NumeralError Word :=
  let digits := Bytes.toList (Text.Hex.dropMarker s).toUTF8
  if 64 < digits.length then .error .tooLong
  else (readDigits digits (digits.length % 2) 0).map ofNat

/-- Read a word behind an optional marker; no digit at all is zero. What is
    left behind the marker may carry a second one of its own. -/
def ofHex (s : String) : Except NumeralError Word :=
  let rest := Text.Hex.dropMarker s
  if rest.isEmpty then .ok 0 else ofNumeral rest

/-! ## Complaints -/

/-- The complaint about a text that is no word, which is shown in full. -/
def hexErrorMessage (s : String) (e : NumeralError) : String :=
  s!"invalid word: {s}: {e.describe}"

/-- The complaint about a text in a fixture that is no word, which is shown
    without its marker. -/
def fixtureErrorMessage (s : String) (e : NumeralError) : String :=
  s!"invalid word {Text.Hex.dropMarker s}: {e.describe}"

end Evm.Word
