import CppGuard.DeadlockMonitor.Holds
import CppGuard.Library.RecursiveMutex

/-!
# Threads in the wrappers of critical sections

The functions of `critical_section_monitor.cpp`, as steps of the threads that call them. A
thread is between two wrappers, or in one of them before or after the call of the operating
system; the hooks and these calls are the atomic steps, and steps of different threads
interleave freely.
-/
namespace CppGuard

/-- Where a thread is; `id` is the local variable of the wrapper that the hook has set. -/
inductive Position where
  | idle
  /-- Before `EnterCriticalSection`. -/
  | entering (mu : Addr) (id : GraphId)
  /-- Before `TryEnterCriticalSection`. -/
  | trying (mu : Addr) (id : GraphId)
  /-- Before `dlc_deadlock_check_in_lock`; the thread owns the lock. -/
  | entered (mu : Addr) (id : GraphId)
  /-- Before `LeaveCriticalSection`. -/
  | leaving (mu : Addr)
  deriving DecidableEq, Repr

namespace Position

/-- The lock whose before-hook was called and that is not recorded yet, with its id. -/
def pending : Position → Option (Addr × GraphId)
  | .entering mu id | .trying mu id => if id = invalidGraphId then none else some (mu, id)
  | .entered mu id => some (mu, id)
  | .idle | .leaving _ => none

/-- How much less than the depth of a lock the monitor has recorded. -/
def unrecorded : Position → Addr → Nat
  | .entered mu _, p | .leaving mu, p => if p = mu then 1 else 0
  | .idle, _ | .entering _ _, _ | .trying _ _, _ => 0

end Position

/-- What a thread does next: it calls a wrapper, or goes on in the one that it has called. -/
inductive Action where
  | enter (mu : Addr)
  | tryEnter (mu : Addr)
  | leave (mu : Addr)
  | delete (mu : Addr)
  | enterReturns
  | tryEnterReturns (ok : Bool)
  | inLock
  | leaveReturns
  deriving DecidableEq, Repr

def Action.isCall : Action → Bool
  | .enter _ | .tryEnter _ | .leave _ | .delete _ => true
  | .enterReturns | .tryEnterReturns _ | .inLock | .leaveReturns => false

structure Act where
  thread : ThreadId
  action : Action
  now : Nat := 1
  deriving DecidableEq, Repr

/-- The monitor, the locks of the operating system, and the threads. -/
structure World where
  config : Config := {}
  mutex : Addr → RecursiveMutex ThreadId := fun _ => .free
  position : ThreadId → Position := fun _ => .idle

/-- What the last before-hook of a thread has stored in `p_graphid_handle_out`. -/
def Config.lastId (c : Config) (t : ThreadId) : GraphId :=
  match c.calls t with
  | [] => invalidGraphId
  | (_, id) :: _ => id

theorem Config.lastId_of_called {maxLocks : Nat} {c : Config} {s : Core} {t : ThreadId} {mu : Addr}
    {id : GraphId} (h : (c.core maxLocks).calls = (s.called t mu id).calls) : c.lastId t = id := by
  have hcalls : c.calls t = (mu, id) :: s.calls t := (congrFun h t).trans (Function.update_self ..)
  rw [lastId, hcalls]

namespace World

def start (options : RuntimeOptions) : World where
  config := { monitor := { runtimeOptions := options } }

/-- How often a thread has locked a lock and not unlocked it. -/
def depth (w : World) (t : ThreadId) (mu : Addr) : Nat := (w.mutex mu).depth t

/-- A thread has called a hook and stands at `p`. -/
def hooked (w : World) (t : ThreadId) (p : Position) (c : Config) : World :=
  { w with config := c, position := Function.update w.position t p }

/-- The operating system has set a lock to `m`, and the thread stands at `p`. -/
def locked (w : World) (t : ThreadId) (mu : Addr) (p : Position) (m : RecursiveMutex ThreadId) :
    World :=
  { w with mutex := Function.update w.mutex mu m, position := Function.update w.position t p }

/-- A lock that was acquired is recorded unless the hook has not returned an id. -/
def acquired (mu : Addr) (id : GraphId) : Position :=
  if id = invalidGraphId then .idle else .entered mu id

def step (maxLocks : Nat) (w : World) (a : Act) : Option World :=
  let t := a.thread
  let call (hook : Hook) := w.config.step maxLocks ⟨t, hook, a.now⟩
  match a.action, w.position t with
  | .enter mu, .idle =>
    (call (.beforeLock mu)).map fun c => w.hooked t (.entering mu (c.lastId t)) c
  | .tryEnter mu, .idle =>
    (call (.beforeTryLock mu)).map fun c => w.hooked t (.trying mu (c.lastId t)) c
  | .leave mu, .idle => (call (.afterLock mu)).map (w.hooked t (.leaving mu))
  | .delete mu, .idle => (call (.deleteLock mu)).map (w.hooked t .idle)
  | .enterReturns, .entering mu id =>
    ((w.mutex mu).acquire t).map (w.locked t mu (acquired mu id))
  | .tryEnterReturns true, .trying mu id =>
    ((w.mutex mu).acquire t).map (w.locked t mu (acquired mu id))
  | .tryEnterReturns false, .trying mu _ => some (w.locked t mu .idle (w.mutex mu))
  | .inLock, .entered _ _ => (call (.inLock 0)).map (w.hooked t .idle)
  | .leaveReturns, .leaving mu => ((w.mutex mu).release t).map (w.locked t mu .idle)
  | _, _ => none

/-- The steps that a thread can make. -/
inductive Moves (maxLocks : Nat) (w : World) (t : ThreadId) (now : Nat) : Action → World → Prop
  | enter {mu c} : w.position t = .idle →
      w.config.step maxLocks ⟨t, .beforeLock mu, now⟩ = some c →
      Moves maxLocks w t now (.enter mu) (w.hooked t (.entering mu (c.lastId t)) c)
  | tryEnter {mu c} : w.position t = .idle →
      w.config.step maxLocks ⟨t, .beforeTryLock mu, now⟩ = some c →
      Moves maxLocks w t now (.tryEnter mu) (w.hooked t (.trying mu (c.lastId t)) c)
  | leave {mu c} : w.position t = .idle →
      w.config.step maxLocks ⟨t, .afterLock mu, now⟩ = some c →
      Moves maxLocks w t now (.leave mu) (w.hooked t (.leaving mu) c)
  | delete {mu c} : w.position t = .idle →
      w.config.step maxLocks ⟨t, .deleteLock mu, now⟩ = some c →
      Moves maxLocks w t now (.delete mu) (w.hooked t .idle c)
  | enterReturns {mu id m} : w.position t = .entering mu id → (w.mutex mu).acquire t = some m →
      Moves maxLocks w t now .enterReturns (w.locked t mu (acquired mu id) m)
  | tryEnterReturns {mu id m} : w.position t = .trying mu id → (w.mutex mu).acquire t = some m →
      Moves maxLocks w t now (.tryEnterReturns true) (w.locked t mu (acquired mu id) m)
  | tryEnterFails {mu id} : w.position t = .trying mu id →
      Moves maxLocks w t now (.tryEnterReturns false) (w.locked t mu .idle (w.mutex mu))
  | inLock {mu id c} : w.position t = .entered mu id →
      w.config.step maxLocks ⟨t, .inLock 0, now⟩ = some c →
      Moves maxLocks w t now .inLock (w.hooked t .idle c)
  | leaveReturns {mu m} : w.position t = .leaving mu → (w.mutex mu).release t = some m →
      Moves maxLocks w t now .leaveReturns (w.locked t mu .idle m)

theorem step_moves {maxLocks : Nat} {w w' : World} {a : Act} (h : step maxLocks w a = some w') :
    Moves maxLocks w a.thread a.now a.action w' := by
  obtain ⟨t, action, now⟩ := a
  simp only [step] at h
  split at h
  case h_1 mu hidle =>
    obtain ⟨c, hc, rfl⟩ := Option.map_eq_some_iff.mp h
    exact .enter hidle hc
  case h_2 mu hidle =>
    obtain ⟨c, hc, rfl⟩ := Option.map_eq_some_iff.mp h
    exact .tryEnter hidle hc
  case h_3 mu hidle =>
    obtain ⟨c, hc, rfl⟩ := Option.map_eq_some_iff.mp h
    exact .leave hidle hc
  case h_4 mu hidle =>
    obtain ⟨c, hc, rfl⟩ := Option.map_eq_some_iff.mp h
    exact .delete hidle hc
  case h_5 mu id hentering =>
    obtain ⟨m, hm, rfl⟩ := Option.map_eq_some_iff.mp h
    exact .enterReturns hentering hm
  case h_6 mu id htrying =>
    obtain ⟨m, hm, rfl⟩ := Option.map_eq_some_iff.mp h
    exact .tryEnterReturns htrying hm
  case h_7 mu id htrying =>
    obtain rfl := Option.some.inj h
    exact .tryEnterFails htrying
  case h_8 mu id hentered =>
    obtain ⟨c, hc, rfl⟩ := Option.map_eq_some_iff.mp h
    exact .inLock hentered hc
  case h_9 mu hleaving =>
    obtain ⟨m, hm, rfl⟩ := Option.map_eq_some_iff.mp h
    exact .leaveReturns hleaving hm
  case h_10 => cases h

/-! ## What the steps do to the locks -/

section Locked

variable {w : World} {t : ThreadId} {mu : Addr} {p : Position} {m : RecursiveMutex ThreadId}

theorem depth_locked (w : World) (t u : ThreadId) (mu q : Addr) (p : Position)
    (m : RecursiveMutex ThreadId) :
    (w.locked t mu p m).depth u q = if q = mu then m.depth u else w.depth u q := by
  unfold depth locked
  grind

/-- An acquisition increments one depth. -/
theorem depth_acquire (h : (w.mutex mu).acquire t = some m) (u : ThreadId) (q : Addr) :
    (w.locked t mu p m).depth u q =
      if u = t ∧ q = mu then w.depth u q + 1 else w.depth u q := by
  rw [depth_locked, RecursiveMutex.depth_acquire h]
  unfold depth
  grind

theorem depth_release (h : (w.mutex mu).release t = some m) (u : ThreadId) (q : Addr) :
    (w.locked t mu p m).depth u q =
      if u = t ∧ q = mu then w.depth u q - 1 else w.depth u q := by
  rw [depth_locked, RecursiveMutex.depth_release h]
  unfold depth
  grind

theorem depth_unchanged (u : ThreadId) (q : Addr) :
    (w.locked t mu p (w.mutex mu)).depth u q = w.depth u q := by
  rw [depth_locked]
  unfold depth
  grind

end Locked
end World
end CppGuard
