import Evm.Environment
import Evm.Hardfork

/-!
# Test cases

    A case of a fixture file seeds a store, calls one account in it, and
    says what should come of that: either how much gas is left, what is
    returned and what the state is afterwards, or, where no gas is stated,
    only that the call fails.
-/

namespace Evm.Fixture

/-- An account as a fixture states it. -/
structure AccountSpec where
  balance : Word
  code : Bytes
  nonce : Nat
  /-- Values by the text of their key, in the order of the texts. Texts are
      read as words only when the case runs. -/
  storage : List (String × Word)
  deriving DecidableEq

/-- The accounts that a fixture states, by address. -/
abbrev World := Std.ExtTreeMap Address AccountSpec compare

/-- The call of a case. -/
structure Execution where
  /-- The account that is called. -/
  address : Address
  caller : Address
  /-- Code for the account; if empty it keeps what the case gave it before. -/
  code : Bytes
  data : Bytes
  gas : Nat
  gasPrice : Word
  origin : Address
  value : Word
  deriving DecidableEq

/-- A test case. -/
structure Case where
  /-- The rule set, if the case asks for one. -/
  fork : Option Hardfork
  block : BlockEnv
  exec : Execution
  /-- Gas that should be left; none if the call should fail. -/
  gas : Option Nat
  /-- A hash over the logs, which is kept but not compared. -/
  logs : Option Hash
  /-- What should be returned, if stated. -/
  out : Option Bytes
  /-- The accounts before the call. -/
  pre : World
  /-- The accounts after the call, if stated. -/
  post : Option World

/-- The cases of a file by name, in the order of their names. -/
abbrev CaseFile := List (String × Case)

end Evm.Fixture
