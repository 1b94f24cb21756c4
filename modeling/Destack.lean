import Destack.Bytecode.Assembly
import Destack.Bytecode.Document
import Destack.Compile.Batch
import Destack.Proofs.Exit.Nesting
import Destack.Proofs.Exit.Verified
import Destack.Proofs.Exit.Relocation
import Destack.Proofs.Exit.Splice
import Destack.Proofs.Exit.Confined
import Destack.Proofs.Exit.Treatment
import Destack.Proofs.Exit.Run
import Destack.Proofs.Exit.Execution
import Destack.Proofs.Exit.Positions
import Destack.Proofs.Exit.Closed
import Destack.Proofs.Exit.Weights
import Destack.Proofs.Exit.Rounds
import Destack.Proofs.Exit.Counting
import Destack.Proofs.Exit.Guards
import Destack.Proofs.Exit.Simulation
import Destack.Proofs.Exit.Meaning
import Destack.Proofs.Flow.Edges
import Destack.Proofs.Replay.Faithful
import Destack.Proofs.Merge.Slots
import Destack.Proofs.Types.Joining
import Destack.Proofs.Merge.SlotTypes
import Destack.Proofs.Merge.Entry
import Destack.Proofs.Merge.Agreement
import Destack.Proofs.Merge.Recheck
import Destack.Proofs.Replay.Trace
import Destack.Proofs.Replay.Values
import Destack.Proofs.Replay.Quiet
import Destack.Proofs.Replay.Indirect
import Destack.Proofs.Flow.Blocks
import Destack.Proofs.Replay.Ways
import Destack.Proofs.Layout.Flow
import Destack.Proofs.Replay.Assigned
import Destack.Proofs.Layout.Assigned
import Destack.Proofs.Replay.Origins
import Destack.Proofs.Merge.Finished
import Destack.Proofs.Merge.Copies
import Destack.Proofs.Layout.Parallel
import Destack.Proofs.Layout.Crossing
import Destack.Proofs.Layout.Conditions
import Destack.Proofs.Replay.Log
import Destack.Proofs.Replay.Depth
import Destack.Proofs.Replay.Balance
import Destack.Proofs.Replay.Filling
import Destack.Proofs.Replay.ArrayContents
import Destack.Proofs.Layout.Regions
import Destack.Proofs.Compile.Verified
import Destack.Proofs.Bytecode.Numbers
import Destack.Proofs.Bytecode.Grammar
import Destack.Proofs.Bytecode.Calls
import Destack.Proofs.Bytecode.RoundTrip
import Destack.Proofs.Bytecode.Acceptance
import Destack.Proofs.Types.Lookups
import Destack.Proofs.Types.WriteOnce
import Destack.Proofs.Compile.Causality
import Destack.Proofs.Compile.Workers
import Destack.Proofs.Compile.Schedules
import Destack.Proofs.Flow.Exact
import Destack.Proofs.Replay.Pairing
import Destack.Proofs.Replay.Spelling
import Destack.Proofs.Compile.Spelling
import Destack.Proofs.Replay.Again
import Destack.Proofs.Replay.Sinks
import Destack.Proofs.Bytecode.Boundaries
import Destack.Proofs.Types.FreshTokens
import Destack.Proofs.Types.Closing
import Destack.Proofs.Merge.Turns
import Destack.Proofs.Compile.Visits
import Destack.Proofs.Bytecode.Reports
import Destack.Proofs.Exit.Order
import Destack.Proofs.Layout.SingleAssignment
import Destack.Proofs.Exit.Ownership
import Destack.Proofs.Layout.Endings
import Destack.Proofs.Merge.Widenings
import Destack.Proofs.Replay.Accesses
import Destack.Proofs.Bytecode.Shorthands
