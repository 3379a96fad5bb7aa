/-!
# Quoted characters

    The form in which a complaint shows a single byte: the Latin-1 character
    of its value between single quotes. A quote, a backslash and the usual
    control characters have short escapes; every other character that would
    not be visible is written as `\u` with its number in braces.
-/

namespace Evm.Text

/-- The digits of a number below 256, without leading zeros. -/
def hexByte (n : Nat) : String :=
  String.ofList (Nat.toDigits 16 n)

/-- Latin-1 characters with no visible shape: the controls, the no-break
    space and the soft hyphen. -/
def isInvisibleLatin (n : Nat) : Bool :=
  n < 32 || (127 ≤ n && n ≤ 160) || n == 173

/-- The text between the quotes for the Latin-1 character numbered `n`. -/
def escapeLatin (n : Nat) : String :=
  match n with
  | 0 => "\\0"
  | 9 => "\\t"
  | 10 => "\\n"
  | 13 => "\\r"
  | 39 => "\\'"
  | 92 => "\\\\"
  | _ =>
    if isInvisibleLatin n then "\\u\x7b" ++ hexByte n ++ "\x7d"
    else String.singleton (Char.ofNat n)

/-- A byte as a quoted Latin-1 character. -/
def quoteLatin (byte : UInt8) : String :=
  "'" ++ escapeLatin byte.toNat ++ "'"

end Evm.Text
