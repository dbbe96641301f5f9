import CppGuard.DeadlockMonitor.Effect
import CppGuard.ThreadWatchdog.Threads

/-!
# The monitor and its watchdog

Runs in which the hooks of the threads interleave with the timers and the callbacks of the
watchdog.
-/
namespace CppGuard
open DeadlockMonitor

namespace DeadlockMonitor

/-- A thread may have left its object to the watchdog. -/
def processWatchdogError (m : DeadlockMonitor) (p : SyncPtr) (holdDurationSec : Nat) :
    Option DeadlockMonitor :=
  let syncLocks := m.syncLocks p
  { m with otherErrorsFound := true }.processError
    (.watchdogError syncLocks.id (0 < syncLocks.n) holdDurationSec) false

/-- What the watchdog reads from the objects. -/
def starts (m : DeadlockMonitor) (p : SyncPtr) : Nat := (m.syncLocks p).lockStartTimePoint

end DeadlockMonitor

/-- What happens next: a hook is called, or the watchdog goes on. -/
inductive Task where
  | hook (e : Event)
  | timerExpired (timer : Nat)
  | scan (now callback : Nat)
  | report (callback : Nat)
  | rearm (callback : Nat)
  deriving DecidableEq, Repr

/-- What the clock shows, if it is read. -/
def Task.time : Task → Option Nat
  | .hook e => some e.now
  | .scan now _ => some now
  | .timerExpired _ | .report _ | .rearm _ => none

namespace Config

def setWatchdog (c : Config) (w : ThreadWatchdog) : Config :=
  { c with monitor := { c.monitor with threadWatchdog := w } }

def perform (maxLocks : Nat) (c : Config) : Task → Option Config
  | .hook e => step maxLocks c e
  | .timerExpired timer => (c.monitor.threadWatchdog.timerExpired timer).map c.setWatchdog
  | .scan now callback =>
    (c.monitor.threadWatchdog.scan c.monitor.starts c.monitor.runtimeOptions now callback).map
      c.setWatchdog
  | .report callback => do
    let (found, w) ← c.monitor.threadWatchdog.report callback
    match found with
    | none => return c.setWatchdog w
    | some (p, elapsedMs) =>
      let m ← (c.setWatchdog w).monitor.processWatchdogError p (elapsedMs / 1000)
      return { c with monitor := m }
  | .rearm callback =>
    (c.monitor.threadWatchdog.rearm c.monitor.runtimeOptions callback).map c.setWatchdog

/-- What a callback that scans the threads finds. -/
def selected (c : Config) (now : Nat) : Option (SyncPtr × Nat) :=
  (ThreadWatchdog.scanThreads c.monitor.starts
    (c.monitor.threadWatchdog.maxDurationSec c.monitor.runtimeOptions) now
    c.monitor.threadWatchdog.threads).2

/-- The list of watched threads after a step without a hook. -/
def scanned (c : Config) : Task → List ThreadInfo
  | .scan now _ =>
    (ThreadWatchdog.scanThreads c.monitor.starts
      (c.monitor.threadWatchdog.maxDurationSec c.monitor.runtimeOptions) now
      c.monitor.threadWatchdog.threads).1
  | _ => c.monitor.threadWatchdog.threads

/-- The monitor after it was loaded. -/
def start (options : RuntimeOptions) (debuggerPresent timerQueue : Bool) : Config where
  monitor := { runtimeOptions := options, threadWatchdog := { debuggerPresent, timerQueue } }

variable {maxLocks : Nat} {c c' : Config} {task : Task}

/-- Everything but a hook and a report writes to the watchdog only. -/
theorem perform_cases (h : perform maxLocks c task = some c') :
    (∃ e, task = .hook e ∧ step maxLocks c e = some c') ∨
      (∃ w, c' = c.setWatchdog w) ∨ ∃ i p d w, task = .report i ∧
        c.monitor.threadWatchdog.report i = some (some (p, d), w) ∧ ∃ m,
        (c.setWatchdog w).monitor.processWatchdogError p (d / 1000) = some m ∧
          c' = { c with monitor := m } := by
  cases task with
  | hook e => exact Or.inl ⟨e, rfl, h⟩
  | timerExpired i | scan now i | rearm i =>
    obtain ⟨w, -, rfl⟩ := Option.map_eq_some_iff.mp h
    exact Or.inr (Or.inl ⟨w, rfl⟩)
  | report i =>
    simp only [perform, Option.bind_eq_bind, Option.bind_eq_some_iff, Prod.exists] at h
    obtain ⟨found, w, hreport, h⟩ := h
    cases found with
    | none => exact Or.inr (Or.inl ⟨w, (Option.some.inj h).symm⟩)
    | some found =>
      obtain ⟨p, d⟩ := found
      obtain ⟨m, hm, h⟩ := Option.bind_eq_some_iff.mp h
      exact Or.inr (Or.inr ⟨i, p, d, w, rfl, hreport, m, hm, (Option.some.inj h).symm⟩)

/-- A callback selects a thread that is due and not marked. -/
theorem selected_eq_some {p : SyncPtr} {now d : Nat} (h : c.selected now = some (p, d)) :
    ∃ o ∈ c.monitor.threadWatchdog.threads, o.syncPtr = p ∧ o.alreadyLogged = false ∧
      c.monitor.starts p ≠ 0 ∧ c.monitor.starts p < now ∧
      c.monitor.starts p +
        c.monitor.threadWatchdog.maxDurationSec c.monitor.runtimeOptions * 1000 ≤ now ∧
      d = now - c.monitor.starts p := by
  obtain ⟨a, o, b, hsplit, rfl, hlogged, hne, hlt, hle, hd, -⟩ :=
    ThreadWatchdog.scanThreads_found h
  refine ⟨o, ?_, rfl, hlogged, hne, hlt, hle, hd⟩
  rw [hsplit]
  exact List.mem_append_right _ List.mem_cons_self

/-- The threads write their own variables. -/
theorem perform_threadLocals (h : perform maxLocks c task = some c') (hnot : ∀ e, task ≠ .hook e) :
    c'.monitor.threadLocals = c.monitor.threadLocals := by
  obtain ⟨e, rfl, -⟩ | ⟨w, rfl⟩ | ⟨i, p, d, w, -, -, m, hm, rfl⟩ := perform_cases h
  · exact absurd rfl (hnot e)
  · rfl
  · obtain ⟨-, rfl⟩ := (processError_eq_some _).mp hm
    rfl

end Config
end CppGuard
