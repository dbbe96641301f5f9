import Mathlib.Logic.Function.Basic

/-!
# Recursive mutexes

A mutex that its owner can lock again, and has to unlock as often. `depth` counts how often
a thread has locked it.
-/

/-- Free, or owned by a thread that has locked it again `again` times. -/
inductive RecursiveMutex (θ : Type*) where
  | free
  | owned (thread : θ) (again : Nat)
  deriving DecidableEq, Repr

namespace RecursiveMutex

variable {θ : Type*} [DecidableEq θ]

def depth : RecursiveMutex θ → θ → Nat
  | free, _ => 0
  | owned u n, t => if u = t then n + 1 else 0

/-- `none` while another thread owns the mutex. -/
def acquire (t : θ) : RecursiveMutex θ → Option (RecursiveMutex θ)
  | free => some (owned t 0)
  | owned u n => if u = t then some (owned t (n + 1)) else none

/-- `none` unless the thread owns the mutex. -/
def release (t : θ) : RecursiveMutex θ → Option (RecursiveMutex θ)
  | free => none
  | owned u n => if u = t then some (if n = 0 then free else owned t (n - 1)) else none

variable {m m' : RecursiveMutex θ} {t u : θ}

theorem depth_acquire (h : m.acquire t = some m') :
    m'.depth = Function.update m.depth t (m.depth t + 1) := by
  funext u
  cases m <;> grind [acquire, depth]

theorem depth_release (h : m.release t = some m') :
    m'.depth = Function.update m.depth t (m.depth t - 1) := by
  funext u
  cases m <;> grind [release, depth]

/-- A thread that has to wait does not own the mutex. -/
theorem depth_of_blocked (h : m.acquire t = none) : m.depth t = 0 := by
  cases m with
  | free => exact absurd h (Option.some_ne_none _)
  | owned u n => grind [acquire, depth]

end RecursiveMutex
