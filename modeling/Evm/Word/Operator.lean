import Evm.Word

/-!
# Operators on words

    The machine's pure instructions, by the number of words they take. An
    operator is a name; `eval` says what it computes. The first argument is
    the word on top of the stack.
-/

namespace Evm

/-- Operators on one word. -/
inductive UnaryOp where
  | iszero | not
  deriving DecidableEq, Inhabited

/-- The value of an operator on one word. -/
def UnaryOp.eval : UnaryOp → Word → Word
  | .iszero, a => Word.ofBool (a = 0)
  | .not, a => ~~~a

/-- Operators on two words. -/
inductive BinaryOp where
  | add | mul | sub | div | sdiv | mod | smod | signextend
  | lt | gt | slt | sgt | eq
  | and | or | xor
  | byte | shl | shr | sar
  deriving DecidableEq, Inhabited

/-- The value of an operator on two words. -/
def BinaryOp.eval : BinaryOp → Word → Word → Word
  | .add, a, b => a + b
  | .mul, a, b => a * b
  | .sub, a, b => a - b
  | .div, a, b => Word.div a b
  | .sdiv, a, b => Word.sdiv a b
  | .mod, a, b => Word.rem a b
  | .smod, a, b => Word.smod a b
  | .signextend, a, b => Word.signextend a b
  | .lt, a, b => Word.ofBool (a.toNat < b.toNat)
  | .gt, a, b => Word.ofBool (b.toNat < a.toNat)
  | .slt, a, b => Word.ofBool (Word.slt a b)
  | .sgt, a, b => Word.ofBool (Word.sgt a b)
  | .eq, a, b => Word.ofBool (a = b)
  | .and, a, b => a &&& b
  | .or, a, b => a ||| b
  | .xor, a, b => a ^^^ b
  | .byte, a, b => Word.byte a b
  | .shl, a, b => Word.shl a b
  | .shr, a, b => Word.shr a b
  | .sar, a, b => Word.sar a b

/-- Operators on three words. -/
inductive TernaryOp where
  | addmod | mulmod
  deriving DecidableEq, Inhabited

/-- The value of an operator on three words. -/
def TernaryOp.eval : TernaryOp → Word → Word → Word → Word
  | .addmod, a, b, n => Word.addmod a b n
  | .mulmod, a, b, n => Word.mulmod a b n

end Evm
