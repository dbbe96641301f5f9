import CppGuard.CriticalSection.Bounded
import CppGuard.CriticalSection.CircularWait
import CppGuard.CriticalSection.Timing

/-!
# Threads with programs

Every thread calls the functions of its program one after the other: it enters and leaves
critical sections, leaves only what it has entered, and has left everything in the end. What a
thread owns and what is recorded for it follows from the calls that it has made.
-/
namespace CppGuard
open CountedList Transition ThreadHistory DeadlockMonitor

/-! ## Programs -/

/-- The calls of a thread that enters and leaves critical sections. -/
structure WellBehaved (maxLocks : Nat) (program : List Action) : Prop where
  blocks : ∀ action ∈ program, ∃ mu, action = .enter mu ∨ action = .leave mu
  leavesOwned : ∀ calls mu, calls ++ [.leave mu] <+: program →
    calls.count (.leave mu) < calls.count (.enter mu)
  leavesAll : ∀ mu, program.count (.leave mu) = program.count (.enter mu)
  room : ∀ calls mu, calls ++ [.enter mu] <+: program →
    (calls.foldl (Trail.call maxLocks) {}).held.length < maxLocks

namespace Position

/-- The call has been made, and the lock is not acquired yet. -/
def waiting : Position → Addr → Nat
  | .entering mu _, q | .trying mu _, q => if q = mu then 1 else 0
  | .idle, _ | .entered _ _, _ | .leaving _, _ => 0

end Position

namespace World

/-- Every thread has made the first calls of its program. -/
def Follows (program : ThreadId → List Action) (as : List Act) : Prop :=
  ∀ t, callsOf as t <+: program t

section

variable {program : ThreadId → List Action} {as : List Act} {a : Act} {t : ThreadId}

theorem callsOf_concat (as : List Act) (a : Act) (t : ThreadId) : callsOf (as ++ [a]) t =
    callsOf as t ++ if a.thread = t ∧ a.action.isCall = true then [a.action] else [] := by
  rw [callsOf_append]
  congr 1
  by_cases h : a.thread = t ∧ a.action.isCall = true <;> simp [callsOf, h]

theorem Follows.init (h : Follows program (as ++ [a])) : Follows program as := by
  intro t
  refine List.IsPrefix.trans ?_ (h t)
  rw [callsOf_append]
  exact List.prefix_append ..

theorem Follows.call (h : Follows program (as ++ [a])) (hcall : a.action.isCall = true) :
    callsOf as a.thread ++ [a.action] <+: program a.thread := by
  have hprefix := h a.thread
  rwa [callsOf_concat, if_pos ⟨rfl, hcall⟩] at hprefix

/-- The thread goes on in the function that it has called. -/
theorem Follows.concat (h : Follows program as) (hcall : a.action.isCall = false) :
    Follows program (as ++ [a]) := by
  intro t
  rw [callsOf_concat, hcall]
  simpa using h t

/-- Only blocking calls are made. -/
theorem Follows.blocks {maxLocks : Nat} (h : Follows program as)
    (hprogram : ∀ t, WellBehaved maxLocks (program t)) :
    ∀ a ∈ as, ∀ mu, a.action ≠ .tryEnter mu ∧ a.action ≠ .delete mu := by
  intro a ha mu
  have hmem : a.action.isCall = true → a.action ∈ program a.thread := by
    intro hcall
    apply (h a.thread).subset
    exact List.mem_map_of_mem (List.mem_filter.mpr ⟨ha, by simp [hcall]⟩)
  constructor <;> intro haction <;>
    obtain ⟨q, hq | hq⟩ := (hprogram a.thread).blocks a.action (hmem (by rw [haction]; rfl)) <;>
    cases haction.symm.trans hq

end

variable {maxLocks : Nat} {options : RuntimeOptions} {w : World} {as : List Act}
  {program : ThreadId → List Action}

theorem position_hooked (w : World) (t u : ThreadId) (p : Position) (c : Config) :
    (w.hooked t p c).position u = if u = t then p else w.position u := Function.update_apply ..

theorem position_locked (w : World) (t u : ThreadId) (mu : Addr) (p : Position)
    (m : RecursiveMutex ThreadId) :
    (w.locked t mu p m).position u = if u = t then p else w.position u := Function.update_apply ..

section

variable (hprogram : ∀ t, WellBehaved maxLocks (program t))
  (hrun : exec (step maxLocks) (start options) as = some w) (hfollows : Follows program as)
include hprogram hrun hfollows

end

end World
end CppGuard
