import CppGuard.DeadlockMonitor.Watchdog

/-!
# Which threads are watched

`Registry` is the watchdog with the part of the monitor that it depends on. A thread gets its object
from the first hook that asks for one, and is registered then or not at all: hooks that release,
delete or wait do not register it.
-/
namespace CppGuard
open DeadlockMonitor

structure Registry where
  options : RuntimeOptions
  watchdog : ThreadWatchdog
  /-- Whether a thread has an object, and where. -/
  tracked : ThreadId → Bool
  address : ThreadId → Nat
  nextAddress : Nat
  /-- Whether a thread was registered. -/
  registered : ThreadId → Bool

def DeadlockMonitor.registry (m : DeadlockMonitor) : Registry where
  options := m.runtimeOptions
  watchdog := m.threadWatchdog
  tracked t := (m.threadLocals t).syncLocksHeld.isSome
  address t := (m.threadLocals t).syncAddress
  nextAddress := m.nextAddress
  registered t := (m.threadLocals t).synchLocksDeleter

namespace Registry

def track (r : Registry) (t : ThreadId) : Registry :=
  { r with tracked := Function.update r.tracked t true }

/-- A thread gets an object. -/
def create (r : Registry) (t : ThreadId) : Registry :=
  { r.track t with
    address := Function.update r.address t r.nextAddress
    nextAddress := r.nextAddress + 1 }

def watch (r : Registry) (t : ThreadId) : Registry :=
  { r with
    registered := Function.update r.registered t true
    watchdog := r.watchdog.addThread r.options t ⟨t, r.address t⟩ }

/-- `Synch_GetAllLocks`. -/
def get (r : Registry) (t : ThreadId) (monitorThread : Bool) : Registry :=
  if r.tracked t = true then r
  else if monitorThread = true then (r.create t).watch t
  else r.create t

/-- The end of a thread. -/
def exit (r : Registry) (t : ThreadId) : Registry :=
  { r with
    tracked := Function.update r.tracked t false
    address := Function.update r.address t 0
    registered := Function.update r.registered t false
    watchdog :=
      if r.registered t = true then r.watchdog.removeThread r.options t else r.watchdog }

/-- What a hook does; `tl` are the counters of its thread. -/
def call (r : Registry) (tl : ThreadLocal) (t : ThreadId) : Hook → Registry
  | .beforeLock _ => if 0 < tl.ignoreCounterLock then r else r.get t true
  | .beforeTryLock _ => r.get t true
  | .afterLock _ => if 0 < tl.ignoreCounterUnlock then r else r.get t false
  | .deleteLock _ | .cndWait => r.get t false
  | .inLock _ => r.track t
  | .increaseIgnoreCounter _ _ => r
  | .setOptions options => { r with options }
  | .threadDelete => r.exit t

variable {r : Registry} {t u : ThreadId} {monitorThread : Bool}

theorem track_of_tracked (h : r.tracked t = true) : r.track t = r := by
  unfold track
  rw [← h, Function.update_eq_self]

@[simp] theorem tracked_get (r : Registry) (t : ThreadId) (monitorThread : Bool) :
    (r.get t monitorThread).tracked t = true := by
  have hcreate : (r.create t).tracked t = true := Function.update_self ..
  unfold get
  split_ifs with h
  · exact h
  · exact hcreate
  · exact hcreate

@[simp] theorem track_get (r : Registry) (t : ThreadId) (monitorThread : Bool) :
    (r.get t monitorThread).track t = r.get t monitorThread :=
  track_of_tracked (tracked_get ..)

@[simp] theorem options_get (r : Registry) (t : ThreadId) (monitorThread : Bool) :
    (r.get t monitorThread).options = r.options := by
  unfold get
  split_ifs <;> rfl

/-- What holds after everything that a hook may do holds after the hook. -/
theorem call_cases {P : Registry → Prop} {tl : ThreadLocal} {hook : Hook} (same : P r)
    (track : P (r.track t)) (get : ∀ monitorThread, P (r.get t monitorThread))
    (setOptions : ∀ options, hook = .setOptions options → P { r with options })
    (exit : hook = .threadDelete → P (r.exit t)) : P (r.call tl t hook) := by
  cases hook with
  | beforeLock mu =>
    simp only [call]
    split_ifs
    · exact same
    · exact get true
  | beforeTryLock mu => exact get true
  | inLock call => exact track
  | afterLock mu =>
    simp only [call]
    split_ifs
    · exact same
    · exact get false
  | deleteLock mu => exact get false
  | cndWait => exact get false
  | increaseIgnoreCounter i j => exact same
  | setOptions options => exact setOptions options rfl
  | threadDelete => exact exit rfl

end Registry

/-! ## The hooks -/

namespace DeadlockMonitor

variable (m : DeadlockMonitor) (maxLocks : Nat) (t : ThreadId)

@[simp] theorem registry_setLocksHeld (held : SynchLocksHeld) :
    (m.setLocksHeld t held).registry = m.registry.track t := by
  simp only [registry, setLocksHeld, setThreadLocal, Registry.track, Registry.mk.injEq, true_and]
  refine ⟨?_, ?_, ?_⟩ <;> funext u <;> grind [Function.update_apply]

/-- A counter of a thread is written. -/
theorem registry_setThreadLocal (tl : ThreadLocal)
    (held : tl.syncLocksHeld = (m.threadLocals t).syncLocksHeld)
    (address : tl.syncAddress = (m.threadLocals t).syncAddress)
    (deleter : tl.synchLocksDeleter = (m.threadLocals t).synchLocksDeleter) :
    (m.setThreadLocal t tl).registry = m.registry := by
  simp only [registry, setThreadLocal, Registry.mk.injEq, true_and]
  refine ⟨?_, ?_, ?_⟩ <;> funext u <;> grind [Function.update_apply]

theorem registry_makeShared (held : SynchLocksHeld) :
    (m.makeShared t held).registry = m.registry.create t := by
  simp only [registry, makeShared, setThreadLocal, Registry.create, Registry.track,
    Registry.mk.injEq, true_and]
  refine ⟨?_, ?_, ?_⟩ <;> funext u <;> grind [Function.update_apply]

/-- The thread that has got an object is watched. -/
theorem registry_addThread {m' : DeadlockMonitor}
    (h : m' = m.setThreadLocal t { m.threadLocals t with synchLocksDeleter := true }) :
    ({ m' with
      threadWatchdog := m'.threadWatchdog.addThread m'.runtimeOptions t (m'.syncPtr t) } :
        DeadlockMonitor).registry = m.registry.watch t := by
  subst h
  simp only [registry, setThreadLocal, Registry.watch, syncPtr, Function.update_self,
    Registry.mk.injEq, true_and]
  refine ⟨?_, ?_, ?_⟩ <;> funext u <;> grind [Function.update_apply]

theorem registry_synchGetAllLocks (monitorThread : Bool) :
    (m.synchGetAllLocks maxLocks t monitorThread).2.registry =
      m.registry.get t monitorThread := by
  unfold synchGetAllLocks Registry.get
  cases hheld : (m.threadLocals t).syncLocksHeld with
  | some held =>
    have htracked : m.registry.tracked t = true := by simp [registry, hheld]
    rw [if_pos htracked]
  | none =>
    have htracked : ¬ m.registry.tracked t = true := by simp [registry, hheld]
    rw [if_neg htracked, ← registry_makeShared m t (.new maxLocks t)]
    cases monitorThread with
    | false => rfl
    | true => exact registry_addThread (m.makeShared t (.new maxLocks t)) t rfl

theorem registry_onThreadDelete : (onThreadDelete t m).registry = m.registry.exit t := by
  unfold onThreadDelete Registry.exit
  cases hdeleter : (m.threadLocals t).synchLocksDeleter with
  | true =>
    simp only [registry, setThreadLocal, hdeleter, if_true, true_and, Registry.mk.injEq]
    refine ⟨?_, ?_, ?_⟩ <;> funext u <;> grind [Function.update_apply]
  | false =>
    simp only [registry, setThreadLocal, hdeleter, Bool.false_eq_true, if_false,
      Registry.mk.injEq, true_and]
    refine ⟨?_, ?_, ?_⟩ <;> funext u <;> grind [Function.update_apply]

end DeadlockMonitor

namespace Config

variable {maxLocks now : Nat} {c : Config} {t : ThreadId} {mu : Addr}

theorem beforeLock_registry {result : GraphId × DeadlockMonitor}
    (h : dlcDeadlockCheckBeforeLock maxLocks now t mu c.monitor = some result) :
    result.2.registry = if 0 < (c.monitor.threadLocals t).ignoreCounterLock then c.monitor.registry
      else c.monitor.registry.get t true := by
  unfold dlcDeadlockCheckBeforeLock at h
  by_cases hignore : 0 < (c.monitor.threadLocals t).ignoreCounterLock
  · simp only [hignore, if_true, Option.some.injEq] at h ⊢
    subst h
    exact registry_setThreadLocal c.monitor t _ rfl rfl rfl
  · have hregistry := registry_synchGetAllLocks c.monitor maxLocks t true
    rcases hget : c.monitor.synchGetAllLocks maxLocks t true with ⟨allLocks, m⟩
    rw [hget] at hregistry h
    have hm : m.registry = c.monitor.registry.get t true := hregistry
    have htracked : m.registry.track t = m.registry := by rw [hm, Registry.track_get]
    simp only [hignore, if_false] at h ⊢
    rw [← hm]
    split_ifs at h
    · simp only [Option.bind_eq_bind, Option.bind_eq_some_iff, processError_eq_some] at h
      obtain ⟨m', ⟨-, rfl⟩, h⟩ := h
      obtain rfl := Option.some.inj h
      rfl
    · simp only [Option.bind_eq_bind, Option.bind_eq_some_iff, Prod.exists] at h
      obtain ⟨id, g, -, h⟩ := h
      obtain rfl := Option.some.inj h
      exact (registry_setLocksHeld ..).trans htracked
    · simp only [Option.bind_eq_bind, Option.bind_eq_some_iff, Prod.exists] at h
      obtain ⟨id, g, -, refused, g', -, h⟩ := h
      cases refused with
      | none =>
        obtain rfl := Option.some.inj h
        rfl
      | some other =>
        simp only [Option.bind_eq_some_iff, processError_eq_some] at h
        obtain ⟨report, -, m', ⟨-, rfl⟩, h⟩ := h
        obtain rfl := Option.some.inj h
        rfl

theorem beforeTryLock_registry {result : GraphId × DeadlockMonitor}
    (h : dlcDeadlockCheckBeforeTryLock maxLocks now t mu c.monitor = some result) :
    result.2.registry = c.monitor.registry.get t true := by
  unfold dlcDeadlockCheckBeforeTryLock at h
  have hcount : (if 0 < (c.monitor.threadLocals t).ignoreCounterLock then
      c.monitor.setThreadLocal t { c.monitor.threadLocals t with
        ignoreCounterLock := (c.monitor.threadLocals t).ignoreCounterLock - 1 }
      else c.monitor).registry = c.monitor.registry := by
    split_ifs
    · exact registry_setThreadLocal c.monitor t _ rfl rfl rfl
    · rfl
  set m₁ := if 0 < (c.monitor.threadLocals t).ignoreCounterLock then
      c.monitor.setThreadLocal t { c.monitor.threadLocals t with
        ignoreCounterLock := (c.monitor.threadLocals t).ignoreCounterLock - 1 }
      else c.monitor
  simp only [Option.bind_eq_bind, Option.bind_eq_some_iff, Prod.exists] at h
  obtain ⟨id, g, -, h⟩ := h
  have hregistry := registry_synchGetAllLocks { m₁ with deadlockGraph := g } maxLocks t true
  rcases hget : ({ m₁ with deadlockGraph := g } : DeadlockMonitor).synchGetAllLocks maxLocks t true
    with ⟨allLocks, m⟩
  rw [hget] at hregistry h
  have hm : m.registry = c.monitor.registry.get t true := by
    rw [← hcount]
    exact hregistry
  rw [← hm]
  split_ifs at h
  · obtain rfl := Option.some.inj h
    rw [registry_setLocksHeld, hm, Registry.track_get]
  · obtain rfl := Option.some.inj h
    rfl

theorem afterLock_registry {m' : DeadlockMonitor}
    (h : dlcDeadlockCheckAfterLock maxLocks t mu c.monitor = some m') :
    m'.registry = if 0 < (c.monitor.threadLocals t).ignoreCounterUnlock then c.monitor.registry
      else c.monitor.registry.get t false := by
  unfold dlcDeadlockCheckAfterLock at h
  by_cases hignore : 0 < (c.monitor.threadLocals t).ignoreCounterUnlock
  · simp only [hignore, if_true, Option.some.injEq] at h ⊢
    subst h
    exact registry_setThreadLocal c.monitor t _ rfl rfl rfl
  · simp only [hignore, if_false, Option.bind_eq_bind, Option.bind_eq_some_iff, Prod.exists] at h ⊢
    obtain ⟨id, g, -, h⟩ := h
    have hregistry :=
      registry_synchGetAllLocks { c.monitor with deadlockGraph := g } maxLocks t false
    rcases hget : ({ c.monitor with deadlockGraph := g } : DeadlockMonitor).synchGetAllLocks
      maxLocks t false with ⟨heldLocks, m⟩
    rw [hget] at hregistry h
    have hm : m.registry = c.monitor.registry.get t false := hregistry
    rw [← hm]
    split at h
    · obtain rfl := Option.some.inj h
      rw [registry_setLocksHeld, hm, Registry.track_get]
    · simp only [Option.bind_eq_some_iff, processError_eq_some] at h
      obtain ⟨m', ⟨-, rfl⟩, h⟩ := h
      obtain rfl := Option.some.inj h
      have htracked : m.registry.track t = m.registry := by rw [hm, Registry.track_get]
      exact (registry_setLocksHeld ..).trans htracked

theorem deleteLock_registry {m' : DeadlockMonitor}
    (h : dlcDeadlockDeleteLock maxLocks t mu c.monitor = some m') :
    m'.registry = c.monitor.registry.get t false := by
  unfold dlcDeadlockDeleteLock at h
  simp only [Option.bind_eq_bind, Option.bind_eq_some_iff] at h
  obtain ⟨g, -, h⟩ := h
  have hregistry := registry_synchGetAllLocks { c.monitor with deadlockGraph := g } maxLocks t false
  rcases hget : ({ c.monitor with deadlockGraph := g } : DeadlockMonitor).synchGetAllLocks maxLocks
    t false with ⟨allLocks, m⟩
  rw [hget] at hregistry h
  have hm : m.registry = c.monitor.registry.get t false := hregistry
  rw [← hm]
  split_ifs at h
  · obtain ⟨-, rfl⟩ := (processError_eq_some _).mp h
    rfl
  · obtain rfl := Option.some.inj h
    rfl

/-- What a hook does to the registry. -/
theorem step_registry {c' : Config} {e : Event} (h : step maxLocks c e = some c') :
    c'.monitor.registry =
      c.monitor.registry.call (c.monitor.threadLocals e.thread) e.thread e.hook := by
  obtain ⟨t, hook, now⟩ := e
  cases hook with
  | beforeLock mu =>
    obtain ⟨result, hresult, rfl⟩ := Option.map_eq_some_iff.mp h
    exact beforeLock_registry hresult
  | beforeTryLock mu =>
    obtain ⟨result, hresult, rfl⟩ := Option.map_eq_some_iff.mp h
    exact beforeTryLock_registry hresult
  | inLock call =>
    simp only [step] at h
    split at h
    · cases h
    · split_ifs at h
      obtain rfl := Option.some.inj h
      exact registry_setLocksHeld ..
  | afterLock mu =>
    obtain ⟨m', hm', rfl⟩ := Option.map_eq_some_iff.mp h
    exact afterLock_registry hm'
  | deleteLock mu =>
    obtain ⟨m', hm', rfl⟩ := Option.map_eq_some_iff.mp h
    exact deleteLock_registry hm'
  | cndWait =>
    obtain rfl := Option.some.inj h
    have hget := registry_synchGetAllLocks c.monitor maxLocks t false
    simp only [cppguardCndWait, registry_setLocksHeld, hget, Registry.track_get]
    rfl
  | increaseIgnoreCounter i j =>
    obtain rfl := Option.some.inj h
    exact registry_setThreadLocal c.monitor t _ rfl rfl rfl
  | setOptions options =>
    obtain rfl := Option.some.inj h
    rfl
  | threadDelete =>
    obtain rfl := Option.some.inj h
    exact registry_onThreadDelete c.monitor t

/-- Scans only write the flags. -/
theorem scanned_ids (c : Config) (task : Task) :
    (c.scanned task).map (fun o => (o.syncPtr, o.threadId)) =
      c.monitor.threadWatchdog.threads.map fun o => (o.syncPtr, o.threadId) := by
  cases task with
  | scan now callback => exact ThreadWatchdog.scanThreads_ids ..
  | _ => rfl

/-- Outside the hooks only the watchdog changes, and a scan writes the list of watched threads. -/
theorem perform_registry {c' : Config} {task : Task} (h : perform maxLocks c task = some c')
    (hnot : ∀ e, task ≠ .hook e) :
    ∃ w, c'.monitor.registry = { c.monitor.registry with watchdog := w } ∧
      w.threads = c.scanned task ∧
      w.debuggerPresent = c.monitor.threadWatchdog.debuggerPresent := by
  cases task with
  | hook e => exact absurd rfl (hnot e)
  | timerExpired timer =>
    obtain ⟨w, hw, rfl⟩ := Option.map_eq_some_iff.mp h
    unfold ThreadWatchdog.timerExpired at hw
    split_ifs at hw
    obtain rfl := Option.some.inj hw
    exact ⟨_, rfl, rfl, rfl⟩
  | scan now callback =>
    obtain ⟨w, hw, rfl⟩ := Option.map_eq_some_iff.mp h
    unfold ThreadWatchdog.scan at hw
    split_ifs at hw
    obtain rfl := Option.some.inj hw
    exact ⟨_, rfl, rfl, rfl⟩
  | report callback =>
    simp only [perform, Option.bind_eq_bind, Option.bind_eq_some_iff, Prod.exists] at h
    obtain ⟨found, w, hw, h⟩ := h
    have hw : ∃ callbacks, w = { c.monitor.threadWatchdog with callbacks } := by
      unfold ThreadWatchdog.report at hw
      split at hw
      · obtain ⟨-, rfl⟩ := Prod.mk.inj (Option.some.inj hw)
        exact ⟨_, rfl⟩
      · cases hw
    obtain ⟨callbacks, rfl⟩ := hw
    cases found with
    | none =>
      obtain rfl := Option.some.inj h
      exact ⟨_, rfl, rfl, rfl⟩
    | some found =>
      obtain ⟨m, hm, h⟩ := Option.bind_eq_some_iff.mp h
      obtain rfl := Option.some.inj h
      obtain ⟨-, rfl⟩ := (processError_eq_some _).mp hm
      exact ⟨_, rfl, rfl, rfl⟩
  | rearm callback =>
    obtain ⟨w, hw, rfl⟩ := Option.map_eq_some_iff.mp h
    unfold ThreadWatchdog.rearm at hw
    split_ifs at hw
    obtain rfl := Option.some.inj hw
    refine ⟨_, rfl, ?_⟩
    dsimp only
    split_ifs <;> exact ⟨rfl, rfl⟩

end Config
end CppGuard
