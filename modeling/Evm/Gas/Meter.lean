import Evm.Gas.Schedule

/-!
# Gas meters

    Every frame has a meter: the gas it started with, the gas it has left,
    and a counter of refunds that is settled at the end of the transaction.
-/

namespace Evm

/-- The gas meter of a frame. -/
structure Gas where
  /-- Gas at the start. -/
  limit : Nat
  /-- Gas left. -/
  remaining : Nat
  /-- Refund counter; it may be below zero for a while. -/
  refunded : Int
  deriving DecidableEq, Inhabited

namespace Gas

/-- A meter from which nothing has been taken. -/
def full (limit : Nat) : Gas := ⟨limit, limit, 0⟩

/-- A meter with nothing left. -/
def empty (limit : Nat) : Gas := ⟨limit, 0, 0⟩

/-- Gas used so far. -/
def spent (g : Gas) : Nat := g.limit - g.remaining

/-- Take an amount, unless more is asked for than is left. -/
def charge? (g : Gas) (amount : Nat) : Option Gas :=
  if g.remaining < amount then none else some { g with remaining := g.remaining - amount }

/-- Put back gas that a child frame did not use. -/
def giveBack (g : Gas) (amount : Nat) : Gas := { g with remaining := g.remaining + amount }

/-- Forfeit what is left. -/
def forfeit (g : Gas) : Gas := { g with remaining := 0 }

/-- Move the refund counter. -/
def refund (g : Gas) (amount : Int) : Gas := { g with refunded := g.refunded + amount }

/-- The refund that is paid: the counter, if it is positive, but no more than
    a share of the gas used. -/
def finalRefund (g : Gas) (quotient : Nat) : Nat :=
  min g.refunded.toNat (g.spent / quotient)

end Gas

end Evm
