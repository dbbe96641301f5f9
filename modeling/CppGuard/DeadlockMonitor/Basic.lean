import CppGuard.ThreadHistory
import CppGuard.ThreadWatchdog
import Mathlib.Logic.Function.Basic

/-!
# The hooks of `deadlock_monitor_t`

A hook is a function of the monitor, the calling thread and the clock, for a build with
assertions compiled out. The thread-local variables are a map from threads; the lock of the
graph makes every hook one step. `none` says that a hook does not return: the process was
terminated because of `halt_on_error`, or `nodes_` cannot grow any more.
-/
namespace CppGuard

/-- The thread-local variables of one thread. -/
structure ThreadLocal where
  /-- The object that `g_sync_locks_held` points to. -/
  syncLocksHeld : Option SynchLocksHeld := none
  /-- Its address. -/
  syncAddress : Nat := 0
  ignoreCounterLock : Nat := 0
  ignoreCounterUnlock : Nat := 0
  /-- Whether `synch_locks_deleter` was constructed. -/
  synchLocksDeleter : Bool := false

structure DeadlockMonitor where
  runtimeOptions : RuntimeOptions := {}
  deadlockGraph : Rep := {}
  threadWatchdog : ThreadWatchdog := {}
  potentialDeadlocksFound : Bool := false
  otherErrorsFound : Bool := false
  threadLocals : ThreadId → ThreadLocal := fun _ => {}
  /-- The address of the next `SynchLocksHeld` object. -/
  nextAddress : Nat := 0
  /-- The objects of threads that have exited; the watchdog may still point to them. -/
  detached : SyncPtr → SynchLocksHeld := fun p => .new 0 p.owner
  /-- What was passed to `process_error`, with the argument `p_is_deadlock`. -/
  processedErrors : List (Report × Bool) := []

namespace DeadlockMonitor

def setThreadLocal (m : DeadlockMonitor) (thread : ThreadId) (tl : ThreadLocal) :
    DeadlockMonitor :=
  { m with threadLocals := Function.update m.threadLocals thread tl }

/-- Write to the object that `g_sync_locks_held` points to. -/
def setLocksHeld (m : DeadlockMonitor) (thread : ThreadId) (held : SynchLocksHeld) :
    DeadlockMonitor :=
  m.setThreadLocal thread { m.threadLocals thread with syncLocksHeld := some held }

/-- The history of a thread; a thread without one has an empty history. -/
def locksHeld (m : DeadlockMonitor) (maxLocks : Nat) (thread : ThreadId) : SynchLocksHeld :=
  (m.threadLocals thread).syncLocksHeld.getD (.new maxLocks thread)

/-- `std::make_shared`: a new object for `g_sync_locks_held` of a thread. -/
def makeShared (m : DeadlockMonitor) (thread : ThreadId) (held : SynchLocksHeld) :
    DeadlockMonitor :=
  let tl := m.threadLocals thread
  let m' := m.setThreadLocal thread
    { tl with syncLocksHeld := some held, syncAddress := m.nextAddress }
  { m' with nextAddress := m.nextAddress + 1 }

/-- The `SynchLocksHeldPtr` of a thread that has an object. -/
def syncPtr (m : DeadlockMonitor) (thread : ThreadId) : SyncPtr :=
  ⟨thread, (m.threadLocals thread).syncAddress⟩

/-- The object at an address. -/
def syncLocks (m : DeadlockMonitor) (p : SyncPtr) : SynchLocksHeld :=
  match (m.threadLocals p.owner).syncLocksHeld with
  | some held => if m.syncPtr p.owner = p then held else m.detached p
  | none => m.detached p

/-- `process_error`: does not return with `halt_on_error`. -/
def processError (m : DeadlockMonitor) (report : Report) (isDeadlock : Bool) :
    Option DeadlockMonitor :=
  if m.runtimeOptions.haltOnError then none
  else some { m with processedErrors := m.processedErrors ++ [(report, isDeadlock)] }

def increaseIgnoreCounter (m : DeadlockMonitor) (thread : ThreadId)
    (lockCounter unlocksCounter : Nat) : DeadlockMonitor :=
  let tl := m.threadLocals thread
  m.setThreadLocal thread { tl with
    ignoreCounterLock := (tl.ignoreCounterLock + lockCounter) % 2 ^ 32
    ignoreCounterUnlock := (tl.ignoreCounterUnlock + unlocksCounter) % 2 ^ 32 }

def synchGetAllLocks (m : DeadlockMonitor) (maxLocks : Nat) (thread : ThreadId)
    (monitorThread : Bool) : SynchLocksHeld × DeadlockMonitor :=
  match (m.threadLocals thread).syncLocksHeld with
  | some held => (held, m)
  | none =>
    let held := SynchLocksHeld.new maxLocks thread
    let m := m.makeShared thread held
    if monitorThread then
      let m := m.setThreadLocal thread { m.threadLocals thread with synchLocksDeleter := true }
      (held, { m with
        threadWatchdog := m.threadWatchdog.addThread m.runtimeOptions thread (m.syncPtr thread) })
    else (held, m)

/-- The loop over the held locks. The result is the lock whose edge was refused, if any. -/
def checkHeldLocks (graphId : GraphId) : List LockT → Rep → Option (Option GraphId × Rep)
  | [], g => some (none, g)
  | l :: locks, g =>
    -- ignore stale lock
    if g.ptr l.id = none then checkHeldLocks graphId locks g
    -- recursive lock
    else if l.id = graphId then some (none, g)
    else
      match g.insertEdge l.id graphId with
      | none => none
      | some (true, g) => checkHeldLocks graphId locks g
      | some (false, g) => some (some l.id, g)

/-- The result is `p_graphid_handle_out`, which stays 0 if the call is not recorded. -/
def dlcDeadlockCheckBeforeLock (maxLocks now : Nat) (thread : ThreadId) (mu : Addr)
    (m : DeadlockMonitor) : Option (GraphId × DeadlockMonitor) :=
  let tl := m.threadLocals thread
  if 0 < tl.ignoreCounterLock then
    some (invalidGraphId,
      m.setThreadLocal thread { tl with ignoreCounterLock := tl.ignoreCounterLock - 1 })
  else
    let (allLocks, m) := m.synchGetAllLocks maxLocks thread true
    if maxLocks ≤ allLocks.n then do
      let m ← m.processError (.maxLocksPerThreadReached allLocks.n thread mu) false
      return (invalidGraphId, { m with otherErrorsFound := true })
    else do
      let (id, g) ← m.deadlockGraph.getId maxLocks thread mu
      let g := g.updateStackTrace id thread allLocks
      if allLocks.n = 0 then
        let m := { m with deadlockGraph := g }
        return (id, m.setLocksHeld thread { allLocks with lockStartTimePoint := now })
      else
        let (refused, g) ← checkHeldLocks id allLocks.entries g
        let m := { m with deadlockGraph := g }
        match refused with
        | none => return (id, m)
        | some otherNodeId =>
          let report ← buildDeadlockCircleLogText g thread mu id otherNodeId
          let m ← m.processError report true
          return (id, { m with potentialDeadlocksFound := true })

/-- Record a lock acquisition; `p_hold_locks` is the history of the calling thread. -/
def dlcDeadlockCheckInLock (maxLocks : Nat) (thread : ThreadId) (mu : Addr) (id : GraphId)
    (m : DeadlockMonitor) : DeadlockMonitor :=
  m.setLocksHeld thread
    (ThreadHistory.updateLockHistoryInLock mu id (m.locksHeld maxLocks thread))

/-- The end of `dlc_deadlock_check_after_lock`. -/
def disarm (held : SynchLocksHeld) : SynchLocksHeld :=
  if held.n = 0 then { held with lockStartTimePoint := 0 } else held

def dlcDeadlockCheckAfterLock (maxLocks : Nat) (thread : ThreadId) (mu : Addr)
    (m : DeadlockMonitor) : Option DeadlockMonitor :=
  let tl := m.threadLocals thread
  if 0 < tl.ignoreCounterUnlock then
    some (m.setThreadLocal thread { tl with ignoreCounterUnlock := tl.ignoreCounterUnlock - 1 })
  else do
    let (id, g) ← m.deadlockGraph.getId maxLocks thread mu
    let (heldLocks, m) := { m with deadlockGraph := g }.synchGetAllLocks maxLocks thread false
    match ThreadHistory.updateLockHistoryAfterLock thread mu id heldLocks with
    | .ok heldLocks => return m.setLocksHeld thread (disarm heldLocks)
    | .error report =>
      let m ← m.processError report false
      return { m with otherErrorsFound := true }.setLocksHeld thread (disarm heldLocks)

/-- An ignored call is counted down, but recorded all the same. -/
def dlcDeadlockCheckBeforeTryLock (maxLocks now : Nat) (thread : ThreadId) (mu : Addr)
    (m : DeadlockMonitor) : Option (GraphId × DeadlockMonitor) := do
  let tl := m.threadLocals thread
  let m := if 0 < tl.ignoreCounterLock then
      m.setThreadLocal thread { tl with ignoreCounterLock := tl.ignoreCounterLock - 1 }
    else m
  let (id, g) ← m.deadlockGraph.getId maxLocks thread mu
  let (allLocks, m) := { m with deadlockGraph := g }.synchGetAllLocks maxLocks thread true
  if allLocks.n = 0 then
    return (id, m.setLocksHeld thread { allLocks with lockStartTimePoint := now })
  else return (id, m)

def dlcDeadlockDeleteLock (maxLocks : Nat) (thread : ThreadId) (mu : Addr)
    (m : DeadlockMonitor) : Option DeadlockMonitor := do
  let g ← m.deadlockGraph.removeNode mu
  let (allLocks, m) := { m with deadlockGraph := g }.synchGetAllLocks maxLocks thread false
  if ∃ l ∈ allLocks.entries, l.mu = some mu then
    m.processError (.deleteLockedLock thread mu) false
  else return m

/-- 'Disable' the watchdog for a mutex that is used by a condition variable. -/
def cppguardCndWait (maxLocks : Nat) (thread : ThreadId) (m : DeadlockMonitor) :
    DeadlockMonitor :=
  let (allLocks, m) := m.synchGetAllLocks maxLocks thread false
  m.setLocksHeld thread { allLocks with lockStartTimePoint := 2 ^ 64 - 1 }

/-- `~on_thread_delete_t`, and the end of the other thread-local variables. -/
def onThreadDelete (thread : ThreadId) (m : DeadlockMonitor) : DeadlockMonitor :=
  let tl := m.threadLocals thread
  let detached := Function.update m.detached (m.syncPtr thread)
    (tl.syncLocksHeld.getD (m.detached (m.syncPtr thread)))
  let m := { m.setThreadLocal thread {} with detached }
  if tl.synchLocksDeleter then
    { m with threadWatchdog := m.threadWatchdog.removeThread m.runtimeOptions thread }
  else m

end DeadlockMonitor

/-! ## Runs of hooks -/

/-- A call of a hook. A wrapper passes on to `inLock` what one of the preceding before-hooks
of the thread returned: `call` counts these back from the last one. -/
inductive Hook where
  | beforeLock (mu : Addr)
  | beforeTryLock (mu : Addr)
  | inLock (call : Nat)
  | afterLock (mu : Addr)
  | deleteLock (mu : Addr)
  | cndWait
  | increaseIgnoreCounter (lockCounter unlocksCounter : Nat)
  | setOptions (options : RuntimeOptions)
  | threadDelete
  deriving DecidableEq, Repr

def Hook.isBeforeLock : Hook → Bool
  | .beforeLock _ => true
  | _ => false

/-- A hook, the thread that calls it and what the clock shows then. -/
structure Event where
  thread : ThreadId
  hook : Hook
  now : Nat := 1
  deriving DecidableEq, Repr

/-- The monitor, and for every thread what its before-hooks returned, the last call first. -/
structure Config where
  monitor : DeadlockMonitor := {}
  calls : ThreadId → List (Addr × GraphId) := fun _ => []

namespace Config
open DeadlockMonitor

/-- Remember the result of a before-hook. -/
def called (c : Config) (thread : ThreadId) (mu : Addr) (result : GraphId × DeadlockMonitor) :
    Config where
  monitor := result.2
  calls := Function.update c.calls thread ((mu, result.1) :: c.calls thread)

/-- One call of a hook; `inLock` is for a call of a before-hook that returned an id. -/
def step (maxLocks : Nat) (c : Config) (e : Event) : Option Config :=
  let t := e.thread
  let m := c.monitor
  match e.hook with
  | .beforeLock mu => (dlcDeadlockCheckBeforeLock maxLocks e.now t mu m).map (c.called t mu)
  | .beforeTryLock mu => (dlcDeadlockCheckBeforeTryLock maxLocks e.now t mu m).map (c.called t mu)
  | .inLock call =>
    match (c.calls t)[call]? with
    | none => none
    | some (mu, id) =>
      if id = invalidGraphId then none
      else some { c with monitor := dlcDeadlockCheckInLock maxLocks t mu id m }
  | .afterLock mu => (dlcDeadlockCheckAfterLock maxLocks t mu m).map ({ c with monitor := · })
  | .deleteLock mu => (dlcDeadlockDeleteLock maxLocks t mu m).map ({ c with monitor := · })
  | .cndWait => some { c with monitor := cppguardCndWait maxLocks t m }
  | .increaseIgnoreCounter lockCounter unlocksCounter =>
    some { c with monitor := m.increaseIgnoreCounter t lockCounter unlocksCounter }
  | .setOptions options => some { c with monitor := { m with runtimeOptions := options } }
  | .threadDelete =>
    some { monitor := onThreadDelete t m, calls := Function.update c.calls t [] }

end Config
end CppGuard
