import Multicilk.Support.Run
import Multicilk.Reducer.IdManager
import Multicilk.Reducer.MapInvariant
import Multicilk.Reducer.MapMerge
import Multicilk.Reducer.MergeLaw
import Multicilk.Reducer.Runtime
import Multicilk.Reducer.RuntimeInvariant
import Multicilk.Reducer.MergingFlag
import Multicilk.Scheduler.Status
import Multicilk.Steal.Protocol
import Multicilk.Steal.Locks
import Multicilk.Steal.Invariant
import Multicilk.Steal.Preservation
import Multicilk.Join.ExceptionLoss
import Multicilk.Join.SerialOrder
import Multicilk.Region.Baton
import Multicilk.Region.Regions
import Multicilk.Steal.ExactlyOnce
import Multicilk.Allocator.LeakCheck
import Multicilk.Allocator.ChunkUse
import Multicilk.Allocator.PoolEquation
import Multicilk.Allocator.ChunkList
import Multicilk.Reducer.IdAllocation
import Multicilk.Fiber.Conservation
import Multicilk.Instances.Isolation
import Multicilk.Reducer.SeveralRuntimes
import Multicilk.Scheduler.StatusAndLocation
import Multicilk.Scheduler.StolenChain
import Multicilk.Pinning.FullGroups
import Multicilk.Config.InvalidCharacters
import Multicilk.Unwinding.ThrowingFiber
import Multicilk.Locking.Order
import Multicilk.Fiber.Stack
import Multicilk.Pedigree.DotProduct
import Multicilk.Pedigree.Uniqueness
import Multicilk.Pedigree.Dprng
import Multicilk.Deque.ReadyDeque
import Multicilk.Scheduler.SiblingLists
import Multicilk.Join.RetryLoops
import Multicilk.Steal.VictimSelection
import Multicilk.Scheduler.Fibers.Ownership
