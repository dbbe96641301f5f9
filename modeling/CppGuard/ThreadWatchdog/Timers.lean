import CppGuard.Library.Transition
import CppGuard.ThreadWatchdog

/-!
# How many timers there are

The timer is started for the first thread of the list, and at the end of a callback. It is not
stopped when the list becomes empty, so that the next first thread starts another one; every
timer keeps starting itself again.
-/
namespace CppGuard
open Transition

namespace ThreadWatchdog

/-- A section under `m_thread_list_mutex`, or what happens between two sections. -/
inductive Section where
  | addThread (options : RuntimeOptions) (thread : ThreadId) (snch : SyncPtr)
  | removeThread (options : RuntimeOptions) (thread : ThreadId)
  | timerExpired (timer : Nat)
  | scan (starts : SyncPtr → Nat) (options : RuntimeOptions) (now callback : Nat)
  | report (callback : Nat)
  | rearm (options : RuntimeOptions) (callback : Nat)

def step (w : ThreadWatchdog) : Section → Option ThreadWatchdog
  | .addThread options thread snch => some (w.addThread options thread snch)
  | .removeThread options thread => some (w.removeThread options thread)
  | .timerExpired timer => w.timerExpired timer
  | .scan starts options now callback => w.scan starts options now callback
  | .report callback => (w.report callback).map Prod.snd
  | .rearm options callback => w.rearm options callback

/-- The timers that are armed, and the callbacks that may still start one. -/
def pendingTimers (w : ThreadWatchdog) : Nat := w.oneShotTimers.length + w.callbacks.length

def AtMostOneTimer (w : ThreadWatchdog) : Prop := w.pendingTimers ≤ 1

/-- `start` is called only while no timer is armed. -/
def StartsUnarmed (w : ThreadWatchdog) : Section → Prop
  | .addThread options _ _ => options.threadWatchdogEnabled = true → w.threads = [] →
    w.oneShotTimers = []
  | .rearm _ _ => w.threads ≠ [] → w.oneShotTimers = []
  | _ => True

/-- When the first thread is added, the timers of earlier threads are gone. -/
def AddsAfterTimers (w : ThreadWatchdog) : Section → Prop
  | .addThread options _ _ => options.threadWatchdogEnabled = true → w.threads = [] →
    w.pendingTimers = 0
  | _ => True

variable {w w' : ThreadWatchdog} {options : RuntimeOptions} {thread : ThreadId} {snch : SyncPtr}
  {i now : Nat} {starts : SyncPtr → Nat}

/-! ## What the sections do to the timers -/

theorem length_startTimer (w : ThreadWatchdog) (options : RuntimeOptions) :
    (w.startTimer options).oneShotTimers.length =
      if w.timerQueue = true then w.oneShotTimers.length + 1 else 1 := by
  unfold startTimer
  cases w.timerQueue <;> simp

theorem pendingTimers_startTimer (w : ThreadWatchdog) (options : RuntimeOptions)
    (h : w.oneShotTimers = []) : (w.startTimer options).pendingTimers = w.pendingTimers + 1 := by
  have hcallbacks : (w.startTimer options).callbacks = w.callbacks := rfl
  unfold pendingTimers
  rw [length_startTimer, hcallbacks, h, List.length_nil]
  split_ifs <;> omega

/-- The first thread starts a timer. -/
theorem addThread_first (henabled : options.threadWatchdogEnabled = true) (h : w.threads = []) :
    w.addThread options thread snch =
      { w with threads := [{ syncPtr := snch, threadId := thread }] }.startTimer options := by
  simp [addThread, henabled, h]

theorem addThread_timers (thread : ThreadId) (snch : SyncPtr)
    (h : options.threadWatchdogEnabled = true → w.threads ≠ []) :
    (w.addThread options thread snch).oneShotTimers = w.oneShotTimers ∧
      (w.addThread options thread snch).callbacks = w.callbacks := by
  by_cases hdisabled : options.threadWatchdogEnabled = false
  · simp [addThread, hdisabled]
  · have hmore : w.threads ≠ [] := h (by simpa using hdisabled)
    simp [addThread, hdisabled, hmore]

theorem removeThread_timers (w : ThreadWatchdog) (options : RuntimeOptions) (thread : ThreadId) :
    (w.removeThread options thread).oneShotTimers = w.oneShotTimers ∧
      (w.removeThread options thread).callbacks = w.callbacks := by
  unfold removeThread
  split_ifs
  · exact ⟨rfl, rfl⟩
  · split <;> exact ⟨rfl, rfl⟩

/-- An armed timer becomes a callback. -/
theorem pendingTimers_timerExpired (h : w.timerExpired i = some w') :
    w'.pendingTimers = w.pendingTimers := by
  unfold timerExpired at h
  split_ifs at h with hi
  obtain rfl := Option.some.inj h
  have hlength := List.length_eraseIdx_of_lt hi.1
  have hpos : 0 < w.oneShotTimers.length := by omega
  simp only [pendingTimers, hlength, List.length_append, List.length_singleton]
  omega

theorem pendingTimers_scan (h : w.scan starts options now i = some w') :
    w'.pendingTimers = w.pendingTimers := by
  unfold scan at h
  split_ifs at h
  obtain rfl := Option.some.inj h
  simp [pendingTimers]

theorem pendingTimers_report {found : Option (SyncPtr × Nat)}
    (h : w.report i = some (found, w')) : w'.pendingTimers = w.pendingTimers := by
  unfold report at h
  split at h
  · obtain ⟨-, rfl⟩ := Prod.mk.inj (Option.some.inj h)
    simp [pendingTimers]
  · cases h

/-- A callback ends, and starts a timer while there are threads. -/
theorem rearm_cases (h : w.rearm options i = some w') : i < w.callbacks.length ∧
    (w.threads = [] ∧ w' = { w with callbacks := w.callbacks.eraseIdx i } ∨
      w.threads ≠ [] ∧
        w' = { w with callbacks := w.callbacks.eraseIdx i }.startTimer options) := by
  unfold rearm at h
  split_ifs at h with hi
  obtain rfl := Option.some.inj h
  refine ⟨(List.getElem?_eq_some_iff.mp hi).1, ?_⟩
  cases hthreads : w.threads with
  | nil => exact Or.inl ⟨rfl, by simp⟩
  | cons thread threads => exact Or.inr ⟨by simp, by simp⟩

/-! ## Runs -/

theorem AtMostOneTimer.step (h : AtMostOneTimer w) {e : Section} (hadds : AddsAfterTimers w e)
    (hstep : w.step e = some w') : AtMostOneTimer w' ∧ StartsUnarmed w e := by
  unfold AtMostOneTimer at h ⊢
  cases e with
  | addThread options thread snch =>
    obtain rfl := Option.some.inj hstep
    by_cases hfirst : options.threadWatchdogEnabled = true ∧ w.threads = []
    · obtain ⟨henabled, hempty⟩ := hfirst
      have hzero := hadds henabled hempty
      have htimers : w.oneShotTimers = [] := by
        apply List.length_eq_zero_iff.mp
        unfold pendingTimers at hzero
        omega
      refine ⟨?_, fun _ _ => htimers⟩
      rw [addThread_first henabled hempty, pendingTimers_startTimer _ _ (by exact htimers)]
      exact Nat.add_le_add_right (Nat.le_of_eq hzero) 1
    · have hnot : options.threadWatchdogEnabled = true → w.threads ≠ [] :=
        fun henabled hempty => hfirst ⟨henabled, hempty⟩
      obtain ⟨htimers, hcallbacks⟩ := addThread_timers thread snch hnot
      refine ⟨?_, fun henabled hempty => absurd hempty (hnot henabled)⟩
      rw [pendingTimers, htimers, hcallbacks]
      exact h
  | removeThread options thread =>
    obtain rfl := Option.some.inj hstep
    obtain ⟨htimers, hcallbacks⟩ := removeThread_timers w options thread
    refine ⟨?_, trivial⟩
    rw [pendingTimers, htimers, hcallbacks]
    exact h
  | timerExpired timer => exact ⟨(pendingTimers_timerExpired hstep) ▸ h, trivial⟩
  | scan starts options now callback => exact ⟨(pendingTimers_scan hstep) ▸ h, trivial⟩
  | report callback =>
    obtain ⟨⟨found, w₁⟩, hreport, rfl⟩ := Option.map_eq_some_iff.mp hstep
    exact ⟨(pendingTimers_report hreport) ▸ h, trivial⟩
  | rearm options callback =>
    obtain ⟨hi, hcases⟩ := rearm_cases hstep
    unfold pendingTimers at h
    have hlength := List.length_eraseIdx_of_lt hi
    -- the callback is the only one, and no timer is armed
    have htimers : w.oneShotTimers = [] := List.length_eq_zero_iff.mp (by omega)
    refine ⟨?_, fun _ => htimers⟩
    obtain ⟨-, rfl⟩ | ⟨-, rfl⟩ := hcases
    · simp only [pendingTimers, hlength]
      omega
    · rw [pendingTimers_startTimer _ _ (by exact htimers)]
      simp only [pendingTimers, htimers, List.length_nil, hlength]
      omega

/-- The first thread is added while there is a timer. -/
theorem not_atMostOneTimer {e : Section} (hadds : ¬ AddsAfterTimers w e)
    (hstep : w.step e = some w') (hunarmed : StartsUnarmed w e) : ¬ AtMostOneTimer w' := by
  cases e with
  | addThread options thread snch =>
    obtain rfl := Option.some.inj hstep
    simp only [AddsAfterTimers] at hadds
    push Not at hadds
    obtain ⟨henabled, hempty, hpending⟩ := hadds
    have htimers := hunarmed henabled hempty
    unfold AtMostOneTimer
    rw [addThread_first henabled hempty, pendingTimers_startTimer _ _ (by exact htimers)]
    exact fun hle => hpending (Nat.le_zero.mp (Nat.le_of_succ_le_succ hle))
  | _ => exact absurd trivial hadds

/-- There is at most one timer all the time, and `start` is never called while one is armed, if
and only if no first thread is added before the timers of earlier threads are gone. -/
theorem atMostOneTimer_iff {timerQueue debuggerPresent : Bool} {es : List Section}
    (hrun : exec step { timerQueue, debuggerPresent } es = some w) :
    (Always AtMostOneTimer step { timerQueue, debuggerPresent } es ∧
        Along StartsUnarmed step { timerQueue, debuggerPresent } es) ↔
      Along AddsAfterTimers step { timerQueue, debuggerPresent } es :=
  always_along_iff (I := AtMostOneTimer) (fun _ h => h)
    (fun _ _ _ _ h hadds hstep => h.step hadds hstep)
    (fun _ _ _ _ _ hadds hstep hunarmed => not_atMostOneTimer hadds hstep hunarmed)
    (Nat.zero_le 1) hrun

/-- A thread comes and goes, and another one comes before the timer has expired. -/
def comeAndGo : List Section :=
  [.addThread {} 1 ⟨1, 0⟩, .removeThread {} 1, .addThread {} 2 ⟨2, 1⟩]

theorem exec_comeAndGo : exec step {} comeAndGo =
    some { threads := [⟨⟨2, 1⟩, 2, false⟩], oneShotTimers := [5, 5] } := rfl

theorem comeAndGo_not_atMostOneTimer : ¬ ∀ timerQueue debuggerPresent es w,
    exec step { timerQueue, debuggerPresent } es = some w →
    Always AtMostOneTimer step { timerQueue, debuggerPresent } es ∧
      Along StartsUnarmed step { timerQueue, debuggerPresent } es := by
  intro h
  have hone : 2 ≤ 1 := (h true false comeAndGo _ exec_comeAndGo).1.last exec_comeAndGo
  exact absurd hone (by decide)

theorem atMostOneTimer_iff_sample :
    (Always AtMostOneTimer step {} comeAndGo ∧ Along StartsUnarmed step {} comeAndGo) ↔
      Along AddsAfterTimers step {} comeAndGo :=
  atMostOneTimer_iff exec_comeAndGo

/-! ## The watchdog goes on -/

/-- As long as there are threads, a timer is armed or a callback may still start one. -/
def Alive (w : ThreadWatchdog) : Prop := w.threads ≠ [] → 0 < w.pendingTimers

theorem pendingTimers_startTimer_pos (w : ThreadWatchdog) (options : RuntimeOptions) :
    0 < (w.startTimer options).pendingTimers := by
  have hlength := length_startTimer w options
  unfold pendingTimers
  split_ifs at hlength <;> omega

theorem Alive.addThread (h : Alive w) (options : RuntimeOptions) (thread : ThreadId)
    (snch : SyncPtr) : Alive (w.addThread options thread snch) := by
  by_cases hfirst : options.threadWatchdogEnabled = true ∧ w.threads = []
  · rw [addThread_first hfirst.1 hfirst.2]
    exact fun _ => pendingTimers_startTimer_pos ..
  · obtain ⟨htimers, hcallbacks⟩ := addThread_timers thread snch
      fun (henabled : options.threadWatchdogEnabled = true) (hempty : w.threads = []) =>
        hfirst ⟨henabled, hempty⟩
    intro hthreads
    have hmore : w.threads ≠ [] := by
      rintro hempty
      have hdisabled : options.threadWatchdogEnabled = false := by simpa [hempty] using hfirst
      simp [ThreadWatchdog.addThread, hdisabled, hempty] at hthreads
    rw [pendingTimers, htimers, hcallbacks]
    exact h hmore

/-- Threads that leave do not stop the timer. -/
theorem Alive.removeThread (h : Alive w) (options : RuntimeOptions) (thread : ThreadId) :
    Alive (w.removeThread options thread) := by
  obtain ⟨htimers, hcallbacks⟩ := removeThread_timers w options thread
  intro hthreads
  have hmore : w.threads ≠ [] := by
    rintro hempty
    have hnone : w.removeThread options thread = w := by simp [ThreadWatchdog.removeThread, hempty]
    exact hthreads (by rw [hnone, hempty])
  rw [pendingTimers, htimers, hcallbacks]
  exact h hmore

theorem Alive.step (h : Alive w) {e : Section} (hstep : w.step e = some w') : Alive w' := by
  -- these sections keep the number of timers and callbacks
  have same : w'.pendingTimers = w.pendingTimers → (w.threads = [] → w'.threads = []) →
      Alive w' := by
    intro hpending hempty hthreads
    rw [hpending]
    exact h fun hnil => hthreads (hempty hnil)
  cases e with
  | addThread options thread snch =>
    obtain rfl := Option.some.inj hstep
    exact h.addThread options thread snch
  | removeThread options thread =>
    obtain rfl := Option.some.inj hstep
    exact h.removeThread options thread
  | timerExpired timer =>
    refine same (pendingTimers_timerExpired hstep) ?_
    simp only [ThreadWatchdog.step, timerExpired] at hstep
    grind
  | scan starts options now callback =>
    refine same (pendingTimers_scan hstep) ?_
    simp only [ThreadWatchdog.step, scan] at hstep
    grind [scanThreads]
  | report callback =>
    obtain ⟨⟨found, w₁⟩, hreport, rfl⟩ := Option.map_eq_some_iff.mp hstep
    refine same (pendingTimers_report hreport) ?_
    simp only [report] at hreport
    grind
  | rearm options callback =>
    obtain ⟨-, ⟨hempty, rfl⟩ | ⟨-, rfl⟩⟩ := rearm_cases hstep
    · exact fun hthreads => absurd hempty hthreads
    · exact fun _ => pendingTimers_startTimer_pos ..

theorem exec_alive {timerQueue debuggerPresent : Bool} {es : List Section}
    (hrun : exec step { timerQueue, debuggerPresent } es = some w) : Alive w :=
  exec_invariant (fun _ _ _ h hstep => h.step hstep) (fun hnone => absurd rfl hnone) hrun

/-- In every order of the sections, whatever the options are in each of them: while there are
threads, a timer is armed or a callback is before its last section. -/
theorem armed_of_threads {timerQueue debuggerPresent : Bool} {es : List Section}
    (hrun : exec step { timerQueue, debuggerPresent } es = some w) (hthreads : w.threads ≠ []) :
    w.oneShotTimers ≠ [] ∨ w.callbacks ≠ [] := by
  have hpending := exec_alive hrun hthreads
  unfold pendingTimers at hpending
  by_contra hno
  push Not at hno
  simp [hno] at hpending

/-- The first thread leaves while the callback of its timer reports an error; another one comes. -/
def leaveDuringReport : List Section :=
  [.addThread {} 1 ⟨1, 0⟩, .timerExpired 0, .scan (fun _ => 1) {} 40000 0, .removeThread {} 1,
    .addThread {} 2 ⟨2, 1⟩, .timerExpired 0, .report 0, .rearm {} 0]

theorem armed_of_threads_sample : ∃ w, exec step {} leaveDuringReport = some w ∧
    (w.oneShotTimers ≠ [] ∨ w.callbacks ≠ []) := by
  obtain ⟨w, hrun, hthreads⟩ : ∃ w, exec step {} leaveDuringReport = some w ∧ w.threads ≠ [] :=
    exists_exec (by decide +kernel)
  exact ⟨w, hrun, armed_of_threads hrun hthreads⟩

end ThreadWatchdog
end CppGuard
