/-!
# JSON values

    The values that a JSON text can denote, kept as exactly as the readers of
    this library need them: integers of any size apart from numbers with a
    fraction or an exponent, and members of an object in the order of the
    text, repeated names included.

    Readers return `none` for a value of the wrong shape; nothing here says
    more about the reason.
-/

namespace Evm

/-- A JSON value. -/
inductive Json where
  | null
  | bool (b : Bool)
  /-- A number written without fraction and exponent. -/
  | integer (n : Int)
  /-- Any other number, as it is written; minus zero is one of them. -/
  | real (text : String)
  | string (s : String)
  | array (items : List Json)
  | object (members : List (String × Json))
  /-- A string, or an object with a name, whose escapes spell no text. It
      may be passed over but it cannot be read. -/
  | illFormed
  deriving Inhabited

namespace Json

/-! ## Reading plain values -/

/-- The text of a string. -/
def asString? : Json → Option String
  | .string s => some s
  | _ => none

/-- A truth value. -/
def asBool? : Json → Option Bool
  | .bool b => some b
  | _ => none

/-- A whole number that 64 bits hold. -/
def asUInt64? : Json → Option Nat
  | .integer n => if 0 ≤ n ∧ n ≤ 0xffffffffffffffff then some n.toNat else none
  | _ => none

/-- Null is no value; any other value is read. -/
def asOptional? {α : Type} (read : Json → Option α) : Json → Option (Option α)
  | .null => some none
  | j => (read j).map some

/-- An array, every item read. -/
def asList? {α : Type} (read : Json → Option α) : Json → Option (List α)
  | .array items => items.mapM read
  | _ => none

/-- An object as a list of named values, every value read. -/
def asMembers? {α : Type} (read : Json → Option α) : Json → Option (List (String × α))
  | .object members => members.mapM fun m => (read m.2).map (m.1, ·)
  | _ => none

/-! ## Records -/

/-- The fields that a value gives for a record, by name. -/
abbrev Fields := List (String × Json)

/-- The members with one of the given names, unless a name is given twice. -/
def knownFields? (names : List String) (members : Fields) : Option Fields :=
  let known := members.filter fun m => names.contains m.1
  let given := known.map Prod.fst
  if names.all fun name => given.count name ≤ 1 then some known else none

/-- **Record fields.** A record is an object with named members, other names
    being ignored, or an array with the values in the order of `names`. If
    `short` is set the array may stop early. -/
def fields? (names : List String) (short : Bool) : Json → Option Fields
  | .object members => knownFields? names members
  | .array items =>
    if items.length = names.length ∨ (short ∧ items.length ≤ names.length) then
      some (names.zip items)
    else none
  | _ => none

/-- The value of a field, read. The field has to be there. -/
def required? {α : Type} (fields : Fields) (name : String) (read : Json → Option α) :
    Option α :=
  (fields.lookup name).bind read

/-- The value of a field, read, or a default if the field is missing. -/
def defaulted? {α : Type} (fields : Fields) (name : String) (default : α)
    (read : Json → Option α) : Option α :=
  match fields.lookup name with
  | some j => read j
  | none => some default

/-- The value of a field, read, or nothing if it is missing or null. -/
def optional? {α : Type} (fields : Fields) (name : String) (read : Json → Option α) :
    Option (Option α) :=
  defaulted? fields name none (asOptional? read)

end Json

end Evm
