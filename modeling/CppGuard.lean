import CppGuard.Library.LinearProbing
import CppGuard.Library.LinkedChain
import CppGuard.Library.Worklist
import CppGuard.Library.TopologicalOrder
import CppGuard.Library.AcyclicGraph
import CppGuard.Library.CountedList
import CppGuard.Library.Transition
import CppGuard.Library.Linearization
import CppGuard.Library.SpinLock
import CppGuard.Library.RecursiveMutex
import CppGuard.Library.Separated
import CppGuard.Library.SkipList
import CppGuard.Library.Tiles
import CppGuard.Library.LinearCongruential
import CppGuard.SynchLocksHeld
import CppGuard.LowLevelAlloc
import CppGuard.LowLevelAlloc.Random
import CppGuard.LowLevelAlloc.FreeList
import CppGuard.LowLevelAlloc.Heap
import CppGuard.LowLevelAlloc.Search
import CppGuard.LowLevelAlloc.Alloc
import CppGuard.LowLevelAlloc.Runs
import CppGuard.LowLevelAlloc.Footprint
import CppGuard.LowLevelAlloc.NewArena
import CppGuard.LowLevelAlloc.DefaultArena
import CppGuard.GraphCycles.Vec
import CppGuard.GraphCycles.NodeSet.Basic
import CppGuard.GraphCycles.NodeSet.Valid
import CppGuard.GraphCycles.NodeSet.Stored
import CppGuard.GraphCycles.NodeSet.Growth
import CppGuard.GraphCycles.NodeSet.Near
import CppGuard.GraphCycles.Rep
import CppGuard.GraphCycles.Operations
import CppGuard.GraphCycles.Invariant
import CppGuard.GraphCycles.Search
import CppGuard.GraphCycles.Reorder
import CppGuard.GraphCycles.InsertEdge
import CppGuard.GraphCycles.FindPath
import CppGuard.GraphCycles.PointerMap
import CppGuard.GraphCycles.Identity
import CppGuard.GraphCycles.GetId
import CppGuard.GraphCycles.RemoveNode
import CppGuard.GraphCycles.Runs
import CppGuard.GraphCycles.StaleIds
import CppGuard.GraphCycles.Slots
import CppGuard.GraphCycles.Bounded
import CppGuard.GraphCycles.Capacity
import CppGuard.GraphCycles.Reachability
import CppGuard.GraphCycles.LockGraph
import CppGuard.GraphCycles.Local
import CppGuard.LogHelper
import CppGuard.ThreadHistory
import CppGuard.ThreadHistory.Records
import CppGuard.ThreadHistory.Recorded
import CppGuard.ThreadWatchdog
import CppGuard.ThreadWatchdog.Timers
import CppGuard.ThreadWatchdog.Threads
import CppGuard.ThreadWatchdog.OneShotTimer
import CppGuard.ThreadWatchdog.Pace
import CppGuard.DeadlockMonitor.Basic
import CppGuard.DeadlockMonitor.Effect
import CppGuard.DeadlockMonitor.Invariant
import CppGuard.DeadlockMonitor.Errors
import CppGuard.DeadlockMonitor.Progress
import CppGuard.DeadlockMonitor.CriticalSections
import CppGuard.DeadlockMonitor.Interleaving
import CppGuard.DeadlockMonitor.Halting
import CppGuard.DeadlockMonitor.Bounded
import CppGuard.DeadlockMonitor.Capacity
import CppGuard.DeadlockMonitor.Report
import CppGuard.DeadlockMonitor.Attempts
import CppGuard.DeadlockMonitor.Snapshots
import CppGuard.DeadlockMonitor.Reentry
import CppGuard.LockOrder
import CppGuard.DeadlockMonitor.Names
import CppGuard.DeadlockMonitor.Detection
import CppGuard.GraphCycles.Client
import CppGuard.DeadlockMonitor.Holds
import CppGuard.DeadlockMonitor.Release
import CppGuard.DeadlockMonitor.Watchdog
import CppGuard.DeadlockMonitor.Registry
import CppGuard.DeadlockMonitor.Sections
import CppGuard.DeadlockMonitor.Registration
import CppGuard.DeadlockMonitor.Summary
import CppGuard.DeadlockMonitor.Polling
import CppGuard.DeadlockMonitor.Once
import CppGuard.DeadlockMonitor.CondWait
import CppGuard.DeadlockMonitor.Lifetime
import CppGuard.CriticalSection.Basic
import CppGuard.CriticalSection.Tracking
import CppGuard.CriticalSection.Ownership
import CppGuard.CriticalSection.CircularWait
import CppGuard.CriticalSection.Timing
import CppGuard.CriticalSection.Calls
import CppGuard.CriticalSection.Recursion
import CppGuard.CriticalSection.Ignored
import CppGuard.CriticalSection.Wrappers
import CppGuard.CriticalSection.Arming
import CppGuard.CriticalSection.Limit
import CppGuard.CriticalSection.Justified
import CppGuard.CriticalSection.Bounded
import CppGuard.CriticalSection.Programs
import CppGuard.CriticalSection.Completion
import CppGuard.CriticalSection.Transparency
import CppGuard.Pystring
import CppGuard.OptionsParser
import CppGuard.OptionsParser.Pairs
import CppGuard.OptionsParser.Exceptions
import CppGuard.OptionsParser.Stored
import CppGuard.OptionsParser.Grammar
import CppGuard.OptionsParser.LogFile
import CppGuard.OptionsParser.Printed
import CppGuard.OptionsParser.FedBack
import CppGuard.Log
