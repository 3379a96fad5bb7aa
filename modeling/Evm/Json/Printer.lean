import Evm.Json

/-!
# Writing JSON texts

    Values are written without blanks. In strings only the quote, the
    backslash and the control characters are escaped. A value whose escapes
    spell no text is written as the shortest text that reads back so.
-/

namespace Evm.Json

/-- The four digits of an escape. -/
def escapeDigits (n : Nat) : String :=
  let digits := Nat.toDigits 16 n
  String.ofList (List.replicate (4 - digits.length) '0' ++ digits)

/-- A character as it stands inside a string. -/
def escapeChar (c : Char) : String :=
  if c = '"' then "\\\""
  else if c = '\\' then "\\\\"
  else if c.toNat < 0x20 then "\\u" ++ escapeDigits c.toNat
  else String.singleton c

/-- A string in quotes. -/
def quote (s : String) : String :=
  s.toList.foldl (fun acc c => acc ++ escapeChar c) "\"" ++ "\""

mutual

/-- Append the text of a value. -/
def write (acc : String) : Json → String
  | .null => acc ++ "null"
  | .bool b => acc ++ (if b then "true" else "false")
  | .integer n => acc ++ toString n
  | .real text => acc ++ text
  | .string s => acc ++ quote s
  | .array items => writeItems (acc ++ "[") true items ++ "]"
  | .object members => writeMembers (acc ++ "\x7b") true members ++ "\x7d"
  | .illFormed => acc ++ "\"\\ud800\""

/-- Append the items of an array, with a comma between any two. -/
def writeItems (acc : String) (first : Bool) : List Json → String
  | [] => acc
  | j :: rest => writeItems (write (if first then acc else acc ++ ",") j) false rest

/-- Append the members of an object, with a comma between any two. -/
def writeMembers (acc : String) (first : Bool) : List (String × Json) → String
  | [] => acc
  | (name, j) :: rest =>
    writeMembers (write ((if first then acc else acc ++ ",") ++ quote name ++ ":") j) false rest

end

/-- The text of a value. -/
def render (j : Json) : String := write "" j

end Evm.Json
