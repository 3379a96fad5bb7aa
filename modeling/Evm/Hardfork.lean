/-!
# Hardforks

    The rule sets of the machine. They are ordered: each one includes the
    rules of those before it, so a rule is in force when the fork that
    introduced it is included in the active one.
-/

namespace Evm

/-- A rule set, oldest first. -/
inductive Hardfork where
  /-- Warm and cold pricing, access lists. -/
  | berlin
  /-- Base fee, smaller refunds, no code that starts with `0xef`. -/
  | london
  /-- `PUSH0`, warm coinbase, metered init code. -/
  | shanghai
  /-- Transient storage, `MCOPY`, blobs, `SELFDESTRUCT` in one transaction. -/
  | cancun
  deriving DecidableEq, Inhabited

namespace Hardfork

/-- All rule sets, oldest first. -/
def all : List Hardfork := [.berlin, .london, .shanghai, .cancun]

/-- Position in the order. -/
def rank : Hardfork → Nat
  | .berlin => 0
  | .london => 1
  | .shanghai => 2
  | .cancun => 3

instance : Ord Hardfork := ⟨compareOn rank⟩

/-- Whether the rules that `fork` introduced are in force under `active`. -/
def includes (active fork : Hardfork) : Bool := fork.rank ≤ active.rank

/-- The name of the fork. -/
def name : Hardfork → String
  | .berlin => "Berlin"
  | .london => "London"
  | .shanghai => "Shanghai"
  | .cancun => "Cancun"

/-- The fork with a given name. -/
def ofName? (s : String) : Option Hardfork := all.find? fun fork => fork.name = s

/-- Refund for clearing a storage slot. -/
def clearRefund (fork : Hardfork) : Int := if fork.includes .london then 4800 else 15000

/-- The share of the gas used that refunds may not exceed, as a divisor. -/
def refundQuotient (fork : Hardfork) : Nat := if fork.includes .london then 5 else 2

end Hardfork

/-- Rule set and limits of an engine. -/
structure Config where
  hardfork : Hardfork
  /-- The deepest frame allowed; the first frame has depth zero. -/
  maxCallDepth : Nat
  /-- The largest code that can be deployed, in bytes. -/
  maxCodeSize : Nat
  /-- The largest init code from Shanghai on, in bytes. -/
  maxInitCodeSize : Nat
  /-- Whether a transaction pays for its own envelope. -/
  intrinsicGas : Bool
  deriving DecidableEq, Inhabited

/-- The usual limits under a given rule set. -/
def Config.ofHardfork (fork : Hardfork) : Config where
  hardfork := fork
  maxCallDepth := 1024
  maxCodeSize := 24576
  maxInitCodeSize := 49152
  intrinsicGas := false

end Evm
