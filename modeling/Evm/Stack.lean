import Evm.Error

/-!
# Operand stack

    At most 1024 words. The stack is a list with the top word first, so the
    word at depth `n` is the one at index `n`. An operation that fails leaves
    no stack behind.
-/

namespace Evm

/-- The operand stack of a frame, top word first. -/
abbrev Stack := List Word

namespace Stack

/-- The largest number of words. -/
def limit : Nat := 1024

/-- Put a word on top. -/
def push (s : Stack) (w : Word) : Except EvmError Stack :=
  if limit ≤ s.length then .error .stackOverflow else .ok (w :: s)

/-- Take the top word. -/
def pop : Stack → Except EvmError (Word × Stack)
  | [] => .error .stackUnderflow
  | w :: s => .ok (w, s)

/-- Take the top `n` words, top word first. -/
def popMany (s : Stack) (n : Nat) : Except EvmError (List Word × Stack) :=
  if s.length < n then .error .stackUnderflow else .ok (s.take n, s.drop n)

/-- The word at depth `n`. -/
def peek (s : Stack) (n : Nat) : Except EvmError Word :=
  match s[n]? with
  | some w => .ok w
  | none => .error .stackUnderflow

/-- Exchange the top word with the one at depth `n`, which may not be the top
    word itself. -/
def swap (s : Stack) (n : Nat) : Except EvmError Stack :=
  match s, n with
  | top :: rest, k + 1 =>
    match rest[k]? with
    | some w => .ok (w :: rest.set k top)
    | none => .error .stackUnderflow
  | _, _ => .error .stackUnderflow

/-- Push a copy of the `n`-th word from the top, counting from one. -/
def dup (s : Stack) (n : Nat) : Except EvmError Stack :=
  match n with
  | 0 => .error .stackUnderflow
  | k + 1 =>
    match s[k]? with
    | some w => s.push w
    | none => .error .stackUnderflow

end Stack

end Evm
