import CppGuard.DeadlockMonitor.Basic
import CppGuard.Library.CountedList
import Mathlib.Logic.Relation

/-!
# The order in which locks are acquired

What the monitor is for: `LockOrder` follows the same hooks, but knows nothing of graph ids,
ranks and edges. A lock is an incarnation of its address, which a deletion ends. The
relation `before` gains a pair when a thread asks for a lock while it holds another one, and
an order of locks can lead to a deadlock when `before` has a cycle.
-/
namespace CppGuard
open CountedList Relation

/-- The lock that lives at an address after `generation` deletions there. -/
structure Incarnation where
  addr : Addr
  generation : Nat
  deriving DecidableEq, Repr

structure LockOrder where
  /-- The number of deletions at an address. -/
  generation : Addr → Nat := fun _ => 0
  held : ThreadId → List (Incarnation × Nat) := fun _ => []
  /-- For every thread the locks that it asked for, the last one first. -/
  calls : ThreadId → List Incarnation := fun _ => []
  before : Incarnation → Incarnation → Prop := fun _ _ => False

namespace LockOrder

/-- The lock that lives at `mu` now. -/
def current (s : LockOrder) (mu : Addr) : Incarnation := ⟨mu, s.generation mu⟩

def Alive (s : LockOrder) (h : Incarnation) : Prop := h.generation = s.generation h.addr

/-- Thread `t` asks for the lock at `mu`. -/
def ask (s : LockOrder) (t : ThreadId) (mu : Addr) : LockOrder :=
  { s with calls := Function.update s.calls t (s.current mu :: s.calls t) }

def step (maxLocks : Nat) (s : LockOrder) (e : Event) : LockOrder :=
  let t := e.thread
  match e.hook with
  | .beforeLock mu =>
    { s.ask t mu with
      before h m := s.before h m ∨ h ∈ keys (s.held t) ∧ s.Alive h ∧ m = s.current mu }
  | .beforeTryLock mu => s.ask t mu
  | .inLock call =>
    match (s.calls t)[call]? with
    | none => s
    | some h => { s with held := Function.update s.held t (acquire maxLocks h (s.held t)) }
  | .afterLock mu =>
    { s with held := Function.update s.held t (release (s.current mu) (s.held t)) }
  | .deleteLock mu =>
    { s with
      generation := Function.update s.generation mu (s.generation mu + 1)
      before h m := s.before h m ∧ h ≠ s.current mu ∧ m ≠ s.current mu }
  | .threadDelete =>
    { s with held := Function.update s.held t [], calls := Function.update s.calls t [] }
  | .cndWait | .increaseIgnoreCounter _ _ | .setOptions _ => s

def run (maxLocks : Nat) (es : List Event) : LockOrder := es.foldl (step maxLocks) {}

def Cyclic (s : LockOrder) : Prop := ∃ h, TransGen s.before h h

end LockOrder
end CppGuard
