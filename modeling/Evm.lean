import Evm.Crypto.Recovery
import Evm.Crypto.Sha256
import Evm.Gas.Meter
import Evm.Fixture.Folder
import Evm.InstructionSet
import Evm.JumpDests
import Evm.Json.Parser
import Evm.Json.Printer
import Evm.Memory
import Evm.Rlp
import Evm.Stack
import Evm.Word.Text
import Evm.State.Database
import Evm.State.Settlement
import Evm.Frame.Run
import Evm.Engine.Transaction
import Evm.Proofs.Journal.Edit
import Evm.Proofs.Journal.Footprint
import Evm.Proofs.Journal.Nesting
import Evm.Proofs.Engine.Authority
import Evm.Proofs.Frame.Cost
import Evm.Proofs.Engine.Frames
import Evm.Proofs.Engine.Driver
import Evm.Proofs.Engine.Invariant
import Evm.Proofs.Engine.Failure
import Evm.Proofs.Engine.Static
import Evm.Proofs.Engine.Ownership
import Evm.Proofs.Frame.Composition
import Evm.Proofs.Frame.Tick
import Evm.Proofs.Engine.Tick
import Evm.Proofs.Engine.Termination
import Evm.Proofs.Engine.Recursion
import Evm.Proofs.Frame.Metering
import Evm.Proofs.Engine.Starts
import Evm.Proofs.Journal.Failure
import Evm.Proofs.Journal.Total
import Evm.Proofs.Engine.Metering
import Evm.Proofs.Engine.Balance
import Evm.Proofs.Frame.Destruction
import Evm.Proofs.Engine.Conservation
import Evm.Proofs.Engine.Order
import Evm.Proofs.Journal.Writing
import Evm.Proofs.Engine.Rejection
import Evm.Proofs.Database
import Evm.Proofs.Journal.Linked
import Evm.Proofs.Journal.Codes
import Evm.Proofs.Journal.Stored
import Evm.Proofs.Journal.Commit
import Evm.Proofs.Journal.Standing
import Evm.Proofs.Journal.View
import Evm.Proofs.Lockstep
import Evm.Proofs.Journal.Alike
import Evm.Proofs.Journal.Coded
import Evm.Proofs.Journal.Orderly
import Evm.Proofs.Journal.Synced
import Evm.Proofs.Frame.Lockstep
import Evm.Proofs.Engine.Agreement
import Evm.Proofs.Engine.AgreedRuns
import Evm.Proofs.Engine.Recached
import Evm.Proofs.Engine.Twins
import Evm.Proofs.Engine.Standing
import Evm.Proofs.Engine.Orderly
import Evm.Proofs.Engine.Preparation
import Evm.Proofs.Engine.Afresh
import Evm.Proofs.Frame.Jumps
import Evm.Proofs.JumpDests
import Evm.Proofs.Frame.Registers
import Evm.Proofs.Frame.Output
import Evm.Proofs.Engine.Creations
import Evm.Proofs.Engine.Layers
import Evm.Proofs.Engine.Session
import Evm.Proofs.Engine.Deletion
import Evm.Proofs.Journal.Ledger
import Evm.Proofs.Frame.Refunds
import Evm.Proofs.Engine.Owed
import Evm.Proofs.Engine.Refunds
import Evm.Proofs.Engine.Results
import Evm.Proofs.Journal.Warmth
import Evm.Proofs.Engine.Warmth
import Evm.Proofs.Engine.Rest
import Evm.Proofs.Frame.Surcharge
import Evm.Proofs.Frame.Recorder
import Evm.Proofs.Engine.Accesses
import Evm.Proofs.Engine.History
import Evm.Proofs.Fixture.SharedCache
import Evm.Proofs.Frame.Operands
import Evm.Proofs.Frame.Heights
import Evm.Proofs.Engine.Operands
import Evm.Proofs.Journal.FailedWrites
import Evm.Proofs.Journal.Remembered
import Evm.Proofs.Engine.Installation
import Evm.Proofs.Engine.Execution
import Evm.Proofs.Journal.Replies
import Evm.Proofs.Journal.Ahead
import Evm.Proofs.Journal.Aftermath
import Evm.Proofs.Journal.Transparency
import Evm.Proofs.Gas.Storage
import Evm.Proofs.Gas.Memory
import Evm.Proofs.Bytes
import Evm.Proofs.Memory
import Evm.Proofs.Frame.Expansion
import Evm.Proofs.Frame.MemoryUse
import Evm.Proofs.Frame.MemoryBounds
import Evm.Proofs.Engine.MemoryBounds
import Evm.Proofs.Word.Operators
import Evm.Proofs.Frame.Equations
import Evm.Proofs.Word.Power
import Evm.Proofs.RevertReason
import Evm.Proofs.Frame.DataReads
import Evm.Proofs.Rlp
import Evm.Proofs.ContractAddress
import Evm.Proofs.SignerRecovery
import Evm.Proofs.Numerals
import Evm.Proofs.Engine.Writers
import Evm.Proofs.Fixture.PostState
