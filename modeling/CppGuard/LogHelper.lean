import CppGuard.GraphCycles.Operations

/-!
# Error reports

`log_helper` builds the texts that are passed to `process_error`. A report keeps the data
of a text; call stacks and the wording are not modelled.
-/
namespace CppGuard

/-- One block of the cycle that a deadlock report prints. -/
structure PathEntry where
  threadId : Option ThreadId
  holdingLocks : List (Option Addr)
  waitForLock : Addr
  deriving DecidableEq, Repr

inductive Report where
  | deadlockCircle (mu : Addr) (thread : ThreadId) (path : List PathEntry)
  | deleteLockedLock (thread : ThreadId) (mu : Addr)
  | releaseLockWhichThreadDoesHold (thread : ThreadId) (mu : Addr)
  | releaseLockedDeletedByOtherThread (thread : ThreadId) (mu : Addr)
  | maxLocksPerThreadReached (lockCount : Nat) (thread : ThreadId) (mu : Addr)
  | watchdogError (thread : ThreadId) (inLock : Bool) (holdDurationSec : Nat)
  deriving DecidableEq, Repr

def constructHoldLocksString (holdLocks : List LockT) (holdLocksCount : Nat) : List (Option Addr) :=
  (holdLocks.take (min holdLocks.length holdLocksCount)).map LockT.mu

/-- The size of the array that a report passes to `FindPath`. -/
def pathSize : Nat := 10

/-- The block of one entry of the path; an id without a pointer is skipped. -/
def pathEntry (g : Rep) (id : GraphId) : Option PathEntry := do
  let pathMu ← g.ptr id
  let infos ← g.extraInfos id
  return ⟨infos.threadId, constructHoldLocksString infos.holdLocks infos.holdLocksCount, pathMu⟩

def buildDeadlockCircleLogText (g : Rep) (thread : ThreadId) (mu : Addr)
    (muId otherNodeId : GraphId) : Option Report := do
  let (pathLen, path) ← g.findPath muId otherNodeId pathSize (List.replicate pathSize 0)
  return .deadlockCircle mu thread ((path.take (min pathLen pathSize)).filterMap (pathEntry g))

end CppGuard
