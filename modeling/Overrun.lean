import Overrun.Environment.Recorded
import Overrun.Guest.Build
import Overrun.Session
import Overrun.Proofs.Faults
import Overrun.Proofs.Address.Disjoint
import Overrun.Proofs.Address.Searching
import Overrun.Proofs.Address.Run
import Overrun.Proofs.Address.Bytes
import Overrun.Proofs.Address.Numbering
import Overrun.Proofs.Address.Clearing
import Overrun.Proofs.Address.Extent
import Overrun.Proofs.Address.Comparing
import Overrun.Proofs.Block.Canonical
import Overrun.Proofs.Block.Pool
import Overrun.Proofs.Block.Growing
import Overrun.Proofs.Block.Catalog
import Overrun.Proofs.Block.Sorting
import Overrun.Proofs.Learned.Judging
import Overrun.Proofs.Learned.Probing
import Overrun.Proofs.Learned.Paths
import Overrun.Proofs.Learned.Capacity
import Overrun.Proofs.Learned.InPlace
import Overrun.Proofs.Learned.Building
import Overrun.Proofs.Learned.Remembering
import Overrun.Proofs.Thread.Classification
import Overrun.Proofs.Thread.Caching
import Overrun.Proofs.Thread.Frames
import Overrun.Proofs.Thread.WellFormed
import Overrun.Proofs.Thread.Counting
import Overrun.Proofs.Thread.Hitless
import Overrun.Proofs.Thread.Forgetting
import Overrun.Proofs.Thread.Below
import Overrun.Proofs.Thread.Sites
import Overrun.Proofs.Thread.Entering
import Overrun.Proofs.Thread.LaidOut
import Overrun.Proofs.Thread.Unwinding
import Overrun.Proofs.Thread.Falling
import Overrun.Proofs.Consistency.Audit
import Overrun.Proofs.Checker.Copying
import Overrun.Proofs.Checker.Consulting
import Overrun.Proofs.Checker.WellFormed
import Overrun.Proofs.Checker.Access
import Overrun.Proofs.Checker.Reachable
import Overrun.Proofs.Checker.Sharing
import Overrun.Proofs.Checker.Effects
import Overrun.Proofs.Checker.Faulting
import Overrun.Proofs.Checker.Retuning
import Overrun.Proofs.Checker.SelfCheck
import Overrun.Proofs.Checker.Detection
import Overrun.Proofs.Checker.Hitless
import Overrun.Proofs.Checker.Isolation
import Overrun.Proofs.Checker.Balance
import Overrun.Proofs.Checker.Numbering
import Overrun.Proofs.Checker.Known
import Overrun.Proofs.Checker.Insertion
import Overrun.Proofs.Checker.Trust
import Overrun.Proofs.Guest.Extending
import Overrun.Proofs.Guest.Valuation
import Overrun.Proofs.Guest.SingleAssignment
import Overrun.Proofs.Guest.Refusing
import Overrun.Proofs.Checker.HookCode
import Overrun.Proofs.Checker.Weaving
import Overrun.Proofs.Checker.Harmless
import Overrun.Proofs.Checker.Placement
import Overrun.Proofs.Checker.SingleAssignment
import Overrun.Proofs.Checker.Conservation
import Overrun.Proofs.Checker.Registering
import Overrun.Proofs.Checker.Upkeep
import Overrun.Proofs.Checker.Described
import Overrun.Proofs.Checker.Learning
import Overrun.Proofs.Checker.Revisiting
import Overrun.Proofs.Checker.Dropping
import Overrun.Proofs.Checker.Unmapping
import Overrun.Proofs.Checker.Loading
import Overrun.Proofs.Checker.Unwinding
import Overrun.Proofs.Checker.Entering
import Overrun.Proofs.Checker.Falling
import Overrun.Proofs.Checker.HandingOver
import Overrun.Proofs.Consistency.Deciding
import Overrun.Proofs.Checker.Malformed
import Overrun.Proofs.Checker.Asking
import Overrun.Proofs.Checker.Recalling
import Overrun.Proofs.Checker.Logging
import Overrun.Proofs.Checker.Refitting
import Overrun.Proofs.Checker.Capping
import Overrun.Proofs.Checker.Noting
import Overrun.Proofs.Target.Grammar
import Overrun.Proofs.Guest.Passing
import Overrun.Proofs.Guest.Composing
