import CppGuard.DeadlockMonitor.Registry
import CppGuard.ThreadWatchdog.Timers

/-!
# The sections of the watchdog in a run of the monitor

A hook enters at most one section of the watchdog, and everything else that happens is a section of
it. What holds after every run of sections holds of the watchdog of the monitor.
-/
namespace CppGuard
open Transition DeadlockMonitor

namespace Registry

/-- A hook adds its thread, or removes it, or leaves the watchdog alone. -/
theorem call_sections (r : Registry) (tl : ThreadLocal) (t : ThreadId) (hook : Hook) :
    ∃ es, exec ThreadWatchdog.step r.watchdog es = some (r.call tl t hook).watchdog := by
  apply call_cases (P := fun r' => ∃ es,
    exec ThreadWatchdog.step r.watchdog es = some r'.watchdog)
  · exact ⟨[], rfl⟩
  · exact ⟨[], rfl⟩
  · intro monitorThread
    unfold Registry.get
    split_ifs
    · exact ⟨[], rfl⟩
    · exact ⟨[.addThread r.options t ⟨t, (r.create t).address t⟩], rfl⟩
    · exact ⟨[], rfl⟩
  · exact fun _ _ => ⟨[], rfl⟩
  · intro _
    unfold Registry.exit
    dsimp only
    split_ifs
    · exact ⟨[.removeThread r.options t], rfl⟩
    · exact ⟨[], rfl⟩

end Registry

namespace Config

variable {maxLocks : Nat} {c c' : Config} {task : Task} {tasks : List Task}

theorem perform_sections (h : perform maxLocks c task = some c') : ∃ es,
    exec ThreadWatchdog.step c.monitor.threadWatchdog es = some c'.monitor.threadWatchdog := by
  have single : ∀ e, ThreadWatchdog.step c.monitor.threadWatchdog e =
      some c'.monitor.threadWatchdog → ∃ es,
      exec ThreadWatchdog.step c.monitor.threadWatchdog es = some c'.monitor.threadWatchdog :=
    fun e hstep => ⟨[e], exec_cons.mpr ⟨_, hstep, rfl⟩⟩
  cases task with
  | hook e =>
    have hregistry := congrArg Registry.watchdog (step_registry h)
    obtain ⟨es, hes⟩ := Registry.call_sections c.monitor.registry
      (c.monitor.threadLocals e.thread) e.thread e.hook
    exact ⟨es, hes.trans (congrArg some hregistry.symm)⟩
  | timerExpired timer =>
    obtain ⟨w, hw, rfl⟩ := Option.map_eq_some_iff.mp h
    exact single (.timerExpired timer) hw
  | scan now callback =>
    obtain ⟨w, hw, rfl⟩ := Option.map_eq_some_iff.mp h
    exact single (.scan c.monitor.starts c.monitor.runtimeOptions now callback) hw
  | report callback =>
    simp only [perform, Option.bind_eq_bind, Option.bind_eq_some_iff, Prod.exists] at h
    obtain ⟨found, w, hw, h⟩ := h
    refine single (.report callback) (Option.map_eq_some_iff.mpr ⟨(found, w), hw, ?_⟩)
    cases found with
    | none =>
      obtain rfl := Option.some.inj h
      rfl
    | some found =>
      obtain ⟨m, hm, h⟩ := Option.bind_eq_some_iff.mp h
      obtain rfl := Option.some.inj h
      obtain ⟨-, rfl⟩ := (processError_eq_some _).mp hm
      rfl
  | rearm callback =>
    obtain ⟨w, hw, rfl⟩ := Option.map_eq_some_iff.mp h
    exact single (.rearm c.monitor.runtimeOptions callback) hw

/-- The watchdog of the monitor makes a run of its own. -/
theorem exec_sections (h : exec (perform maxLocks) c tasks = some c') : ∃ es,
    exec ThreadWatchdog.step c.monitor.threadWatchdog es = some c'.monitor.threadWatchdog := by
  refine exec_invariant (P := fun c' => ∃ es, exec ThreadWatchdog.step
    c.monitor.threadWatchdog es = some c'.monitor.threadWatchdog) ?_ ⟨[], rfl⟩ h
  rintro c₁ task c₂ ⟨es, hes⟩ hstep
  obtain ⟨fs, hfs⟩ := perform_sections hstep
  exact ⟨es ++ fs, exec_append.mpr ⟨_, hes, hfs⟩⟩

/-- The watchdog of the monitor goes on while threads are registered. -/
theorem exec_alive {options : RuntimeOptions} {debuggerPresent timerQueue : Bool}
    (h : exec (perform maxLocks) (.start options debuggerPresent timerQueue) tasks = some c) :
    c.monitor.threadWatchdog.Alive := by
  obtain ⟨es, hes⟩ := exec_sections h
  exact ThreadWatchdog.exec_alive hes

end Config
end CppGuard
