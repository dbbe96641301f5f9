import Mathlib.Data.Nat.Notation

/-!
# Locks held by a thread

The records of `synch_locks_held.hpp`. A lock is named by its address. `void*` values
that may be `nullptr` are `Option Addr`, and a default-constructed `std::thread::id`
is `none` where an `Option ThreadId` stands.
-/
namespace CppGuard

/-- The address of a lock, a non-null `void*`. -/
abbrev Addr := Nat

/-- The id of a running thread. -/
abbrev ThreadId := Nat

/-- A graph id, `uint64_t`. -/
abbrev GraphId := Nat

/-- The invalid graph id that is never assigned by `GraphCycles`. -/
def invalidGraphId : GraphId := 0

structure LockT where
  mu : Option Addr := none
  count : Int := 0
  id : GraphId := invalidGraphId
  deriving DecidableEq, Repr, Inhabited

/-- An empty slot. -/
abbrev LockT.cleared : LockT := {}

structure SynchLocksHeld where
  id : ThreadId
  /-- Number of valid entries in `locks`. -/
  n : Nat := 0
  locks : List LockT
  lockStartTimePoint : Nat := 0
  deriving DecidableEq, Repr

/-- A fresh history: an array of `MAX_LOCKS_PER_THREAD` cleared slots. -/
def SynchLocksHeld.new (maxLocksPerThread : Nat) (thread : ThreadId) : SynchLocksHeld where
  id := thread
  locks := List.replicate maxLocksPerThread .cleared

/-- The recorded locks, `locks[0..n-1]`. -/
def SynchLocksHeld.entries (s : SynchLocksHeld) : List LockT := s.locks.take s.n

end CppGuard
