import Evm.Json

/-!
# Reading JSON texts

    A recursive-descent reader over the characters of the text. Each function
    takes what is left of the text and returns a value with what is left
    after it. The readers of nested values carry a bound on their recursion;
    every step uses up at least one character, so the length of the text is
    bound enough.

    Only whole texts are accepted: one value, blanks around it, and nothing
    behind it.
-/

namespace Evm.Json

/-! ## Blanks and digits -/

/-- The four blanks that may stand between tokens. -/
def isBlank (c : Char) : Bool := c == ' ' || c == '\n' || c == '\t' || c == '\r'

/-- The text behind any blanks. -/
def skipBlanks (cs : List Char) : List Char := cs.dropWhile isBlank

/-- The value of a hexadecimal digit of either case. -/
def hexValue? (c : Char) : Option Nat :=
  if '0' ≤ c ∧ c ≤ '9' then some (c.toNat - 48)
  else if 'a' ≤ c ∧ c ≤ 'f' then some (c.toNat - 87)
  else if 'A' ≤ c ∧ c ≤ 'F' then some (c.toNat - 55)
  else none

/-- The number of four hexadecimal digits. -/
def hexQuad? (a b c d : Char) : Option Nat := do
  let w ← hexValue? a
  let x ← hexValue? b
  let y ← hexValue? c
  let z ← hexValue? d
  return ((w * 16 + x) * 16 + y) * 16 + z

/-! ## Strings -/

/-- The first half of a pair of escapes for one character. -/
def isHighSurrogate (n : Nat) : Bool := 0xD800 ≤ n && n < 0xDC00

/-- The second half of a pair of escapes for one character. -/
def isLowSurrogate (n : Nat) : Bool := 0xDC00 ≤ n && n < 0xE000

/-- The character that an escape of one letter stands for. -/
def shortEscape? : Char → Option Char
  | '"' => some '"'
  | '\\' => some '\\'
  | '/' => some '/'
  | 'b' => some '\x08'
  | 'f' => some '\x0c'
  | 'n' => some '\n'
  | 'r' => some '\r'
  | 't' => some '\t'
  | _ => none

/-- The body of a string up to its closing quote. `acc` holds the characters
    so far, last one first; `high` the first half of a pair that waits for
    its second half; `bad` is set once a half stood alone. The result is
    `none` inside if some half stood alone. -/
def scanString : List Char → (acc : List Char) → (high : Option Nat) → (bad : Bool) →
    Option (Option String × List Char)
  | [], _, _, _ => none
  | '"' :: rest, acc, high, bad =>
    some (if bad || high.isSome then none else some (String.ofList acc.reverse), rest)
  | '\\' :: 'u' :: a :: b :: c :: d :: rest, acc, high, bad =>
    match hexQuad? a b c d with
    | none => none
    | some n =>
      match high with
      | some h =>
        if isLowSurrogate n then
          let code := 0x10000 + (h - 0xD800) * 0x400 + (n - 0xDC00)
          scanString rest (Char.ofNat code :: acc) none bad
        else scanString rest acc none true
      | none =>
        if isHighSurrogate n then scanString rest acc (some n) bad
        else if isLowSurrogate n then scanString rest acc none true
        else scanString rest (Char.ofNat n :: acc) none bad
  | '\\' :: c :: rest, acc, high, bad =>
    match shortEscape? c with
    | none => none
    | some e => scanString rest (e :: acc) none (bad || high.isSome)
  | c :: rest, acc, high, bad =>
    if c = '\\' ∨ c.toNat < 0x20 then none
    else scanString rest (c :: acc) none (bad || high.isSome)

/-! ## Numbers -/

/-- A run of digits that is not empty. -/
def digits? (cs : List Char) : Option (List Char × List Char) :=
  let run := cs.takeWhile Char.isDigit
  if run.isEmpty then none else some (run, cs.dropWhile Char.isDigit)

/-- The whole part of a number: a lone zero, or digits without a zero in
    front. -/
def wholePart? : List Char → Option (List Char × List Char)
  | '0' :: rest => some (['0'], rest)
  | cs => digits? cs

/-- The fraction of a number, empty if there is none. -/
def fraction? : List Char → Option (List Char × List Char)
  | '.' :: rest => (digits? rest).map fun (run, rest) => ('.' :: run, rest)
  | cs => some ([], cs)

/-- The exponent of a number, empty if there is none. -/
def exponent? : List Char → Option (List Char × List Char)
  | c :: rest =>
    if c = 'e' ∨ c = 'E' then
      match rest with
      | s :: rest' =>
        if s = '+' ∨ s = '-' then
          (digits? rest').map fun (run, rest) => (c :: s :: run, rest)
        else (digits? rest).map fun (run, rest) => (c :: run, rest)
      | [] => none
    else some ([], c :: rest)
  | [] => some ([], [])

/-- The number that decimal digits denote. -/
def ofDigits (run : List Char) : Nat :=
  run.foldl (fun n c => 10 * n + (c.toNat - 48)) 0

/-- A number behind its sign. -/
def unsigned? (negative : Bool) (cs : List Char) : Option (Json × List Char) := do
  let (whole, rest) ← wholePart? cs
  let (fraction, rest) ← fraction? rest
  let (exponent, rest) ← exponent? rest
  let n := ofDigits whole
  if fraction.isEmpty && exponent.isEmpty && !(negative && n == 0) then
    return (.integer (if negative then -(n : Int) else n), rest)
  else
    let text := whole ++ fraction ++ exponent
    return (.real (String.ofList (if negative then '-' :: text else text)), rest)

/-- A number. -/
def number? : List Char → Option (Json × List Char)
  | '-' :: rest => unsigned? true rest
  | cs => unsigned? false cs

/-! ## Values -/

/-- The object of members given last one first; an object with a name that
    spells no text cannot be read. -/
def ofMembers (acc : List (Option String × Json)) : Json :=
  match acc.reverse.mapM fun m => m.1.map (·, m.2) with
  | some members => .object members
  | none => .illFormed

mutual

/-- A value, blanks in front of it allowed. -/
def value? : Nat → List Char → Option (Json × List Char)
  | 0, _ => none
  | bound + 1, cs =>
    match skipBlanks cs with
    | 'n' :: 'u' :: 'l' :: 'l' :: rest => some (.null, rest)
    | 't' :: 'r' :: 'u' :: 'e' :: rest => some (.bool true, rest)
    | 'f' :: 'a' :: 'l' :: 's' :: 'e' :: rest => some (.bool false, rest)
    | '"' :: rest =>
      (scanString rest [] none false).map fun (s, rest) =>
        ((s.map Json.string).getD .illFormed, rest)
    | '[' :: rest =>
      match skipBlanks rest with
      | ']' :: rest => some (.array [], rest)
      | rest => items? bound rest []
    | '\x7b' :: rest =>
      match skipBlanks rest with
      | '\x7d' :: rest => some (.object [], rest)
      | rest => members? bound rest []
    | rest => number? rest

/-- The items of an array from one of them up to the closing bracket; `acc`
    holds the items before, last one first. -/
def items? : Nat → List Char → (acc : List Json) → Option (Json × List Char)
  | 0, _, _ => none
  | bound + 1, cs, acc =>
    match value? bound cs with
    | none => none
    | some (j, rest) =>
      match skipBlanks rest with
      | ',' :: rest => items? bound rest (j :: acc)
      | ']' :: rest => some (.array (j :: acc).reverse, rest)
      | _ => none

/-- The members of an object from one of them up to the closing brace; `acc`
    holds the members before, last one first. -/
def members? :
    Nat → List Char → (acc : List (Option String × Json)) → Option (Json × List Char)
  | 0, _, _ => none
  | bound + 1, cs, acc =>
    match skipBlanks cs with
    | '"' :: rest =>
      match scanString rest [] none false with
      | none => none
      | some (name, rest) =>
        match skipBlanks rest with
        | ':' :: rest =>
          match value? bound rest with
          | none => none
          | some (j, rest) =>
            match skipBlanks rest with
            | ',' :: rest => members? bound rest ((name, j) :: acc)
            | '\x7d' :: rest => some (ofMembers ((name, j) :: acc), rest)
            | _ => none
        | _ => none
    | _ => none

end

/-- The value of a whole text. -/
def parse? (text : String) : Option Json :=
  let cs := text.toList
  match value? (2 * cs.length + 2) cs with
  | some (j, rest) => if (skipBlanks rest).isEmpty then some j else none
  | none => none

end Evm.Json
