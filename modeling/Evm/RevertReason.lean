import Evm.Word
import Evm.Text.Hex

/-!
# Revert reasons

    Contracts by convention revert with a selector and an argument: a text
    behind the selector of errors, a number behind that of panics. This
    module turns a payload into the reason that is shown. A payload that
    follows neither convention is shown in hexadecimal, and an empty one has
    no reason.
-/

namespace Evm.RevertReason

/-- The selector in front of a text. -/
def errorSelector : Nat := 0x08c379a0

/-- The selector in front of a number. -/
def panicSelector : Nat := 0x4e487b71

/-- The word at an offset as a size, if it lies inside the bytes and 32 bits
    hold it. -/
def sizeAt? (b : Bytes) (offset : Nat) : Option Nat := do
  let word ← Bytes.slice? b offset (offset + 32)
  (Word.ofBytesAt word 0).toIndex?

/-- The text argument of a call: the head word says where the length is, and
    the bytes of the text come after the length. -/
def decodeText? (body : Bytes) : Option String := do
  let offset ← sizeAt? body 0
  let length ← sizeAt? body offset
  let start := offset + 32
  let text ← Bytes.slice? body start (start + length)
  String.fromUTF8? text

/-- The digits of a number, at least two. -/
def panicDigits (n : Nat) : String :=
  let digits := Nat.toDigits 16 n
  String.ofList (List.replicate (2 - digits.length) '0' ++ digits)

/-- **The reason of a payload.** -/
def decode (output : Bytes) : Option String :=
  if output.isEmpty then none
  else
    let raw := Text.Hex.encodeMarked output
    if output.size < 4 then some raw
    else
      let selector := Bytes.number output 0 4
      let body := output.extract 4 output.size
      if selector = errorSelector then some ((decodeText? body).getD raw)
      else if selector = panicSelector ∧ 32 ≤ body.size then
        some ("panic: 0x" ++ panicDigits (Word.ofBytesAt body 0).toNatCapped)
      else some raw

end Evm.RevertReason
