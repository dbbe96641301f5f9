import CppGuard.Library.Linearization
import CppGuard.ThreadWatchdog.Threads
import CppGuard.ThreadWatchdog.Timers

/-!
# The timer on Linux

On Linux `one_shot_timer_t` is a thread that sleeps for a second, looks at the time at which the
timer was started, and calls the callback once five seconds have passed; `loop` is cut at the
locks of its mutex. The watchdog on this timer refines the watchdog with one timer: the loop does
nothing else than to decide when the timer expires. Times are in nanoseconds.
-/
namespace CppGuard
open Transition

/-- Where `loop` is. -/
inductive LoopPosition where
  /-- At the condition `!m_shutdown`. -/
  | head
  | sleeping
  /-- At the first scope. -/
  | started
  /-- At the second scope. -/
  | elapsed
  /-- In `one_shot_timer_callback`. -/
  | callback (progress : Callback)
  /-- `loop` has returned. -/
  | exited
  deriving DecidableEq, Repr

/-- `one_shot_timer_t` on Linux. -/
structure OneShotTimer where
  /-- `m_start_time_point`; 0 is that of a timer that is not started. -/
  startTimePoint : Nat := 0
  shutdown : Bool := false
  position : LoopPosition := .head
  /-- When `loop` got there. -/
  since : Nat := 0
  deriving DecidableEq, Repr

/-- The call of the callback that `loop` is in. -/
def LoopPosition.callbacks : LoopPosition → List Callback
  | .callback progress => [progress]
  | _ => []

namespace OneShotTimer

def second : Nat := 10 ^ 9

def start (timer : OneShotTimer) (now : Nat) : OneShotTimer := { timer with startTimePoint := now }

def goTo (timer : OneShotTimer) (now : Nat) (position : LoopPosition) : OneShotTimer :=
  { timer with position, since := now }

/-- A step of `loop` outside of the callback. -/
def loop (timer : OneShotTimer) (now : Nat) : Option OneShotTimer :=
  match timer.position with
  | .head => some (timer.goTo now (if timer.shutdown then .exited else .sleeping))
  | .sleeping => if timer.since + second ≤ now then some (timer.goTo now .started) else none
  | .started => some (timer.goTo now (if timer.startTimePoint = 0 then .head else .elapsed))
  | .elapsed =>
    let elapsedMs := (now - timer.startTimePoint) / 10 ^ 6
    if elapsedMs < 5 * 1000 then some (timer.goTo now .head)
    else some ({ timer with startTimePoint := 0 }.goTo now (.callback .expired))
  | .callback _ | .exited => none

end OneShotTimer

/-- `thread_watchdog_t` on Linux. -/
structure LinuxWatchdog where
  threads : List ThreadInfo := []
  oneShotTimer : OneShotTimer := {}
  deriving DecidableEq, Repr

/-- A section of a thread that uses the watchdog, or of `loop`. -/
inductive LinuxSection where
  | addThread (options : RuntimeOptions) (thread : ThreadId) (snch : SyncPtr)
  | removeThread (options : RuntimeOptions) (thread : ThreadId)
  | loop
  /-- The first section of the callback, with the clock in milliseconds. -/
  | scan (starts : SyncPtr → Nat) (options : RuntimeOptions) (nowMs : Nat)
  | report
  | rearm (options : RuntimeOptions)
  /-- `~one_shot_timer_t` sets `m_shutdown`. -/
  | shutdown

namespace LinuxWatchdog

/-- The list of threads, without the timer; there is no debugger on Linux. -/
def list (w : LinuxWatchdog) : ThreadWatchdog := { threads := w.threads, timerQueue := false }

def addThread (w : LinuxWatchdog) (options : RuntimeOptions) (thread : ThreadId) (snch : SyncPtr)
    (now : Nat) : LinuxWatchdog :=
  if options.threadWatchdogEnabled = false then w
  else
    let w := { w with threads := w.threads ++ [{ syncPtr := snch, threadId := thread }] }
    if w.threads.length = 1 then { w with oneShotTimer := w.oneShotTimer.start now } else w

def scan (w : LinuxWatchdog) (starts : SyncPtr → Nat) (options : RuntimeOptions)
    (nowMs now : Nat) : Option LinuxWatchdog :=
  if w.oneShotTimer.position = .callback .expired then
    let (threads, found) :=
      ThreadWatchdog.scanThreads starts (w.list.maxDurationSec options) nowMs w.threads
    some ⟨threads, w.oneShotTimer.goTo now (.callback (.scanned found))⟩
  else none

def report (w : LinuxWatchdog) (now : Nat) : Option LinuxWatchdog :=
  match w.oneShotTimer.position with
  | .callback (.scanned _) =>
    some { w with oneShotTimer := w.oneShotTimer.goTo now (.callback .reported) }
  | _ => none

/-- The callback returns to `loop`. -/
def rearm (w : LinuxWatchdog) (now : Nat) : Option LinuxWatchdog :=
  if w.oneShotTimer.position = .callback .reported then
    let timer := if w.threads.isEmpty then w.oneShotTimer else w.oneShotTimer.start now
    some { w with oneShotTimer := timer.goTo now .head }
  else none

/-- A section, and the time at which it runs. -/
def step (w : LinuxWatchdog) (e : LinuxSection × Nat) : Option LinuxWatchdog :=
  let now := e.2
  match e.1 with
  | .addThread options thread snch => some (w.addThread options thread snch now)
  | .removeThread options thread =>
    some { w with threads := (w.list.removeThread options thread).threads }
  | .loop => (w.oneShotTimer.loop now).map ({ w with oneShotTimer := · })
  | .scan starts options nowMs => w.scan starts options nowMs now
  | .report => w.report now
  | .rearm _ => w.rearm now
  | .shutdown => some { w with oneShotTimer := { w.oneShotTimer with shutdown := true } }

/-! ## The watchdog with one timer -/

/-- `a` is the watchdog without the loop. -/
structure Shows (w : LinuxWatchdog) (a : ThreadWatchdog) : Prop where
  threads : a.threads = w.threads
  callbacks : a.callbacks = w.oneShotTimer.position.callbacks
  timers : a.oneShotTimers.length = if w.oneShotTimer.startTimePoint = 0 then 0 else 1
  timerQueue : a.timerQueue = false
  debuggerPresent : a.debuggerPresent = false

/-- The second scope of `loop` does not look again whether the timer is started. Nobody but the
loop stops it. -/
def Started (timer : OneShotTimer) : Prop :=
  timer.position = .elapsed → timer.startTimePoint ≠ 0

/-- The loop is about to call the callback. -/
def Expires (timer : OneShotTimer) (now : Nat) : Prop :=
  timer.position = .elapsed ∧ 5 * 1000 ≤ (now - timer.startTimePoint) / 10 ^ 6

instance (timer : OneShotTimer) (now : Nat) : Decidable (Expires timer now) :=
  inferInstanceAs (Decidable (_ ∧ _))

/-- What a section is for the watchdog with one timer. -/
def point (w : LinuxWatchdog) (e : LinuxSection × Nat) : List ThreadWatchdog.Section :=
  match e.1 with
  | .addThread options thread snch => [.addThread options thread snch]
  | .removeThread options thread => [.removeThread options thread]
  | .loop => if Expires w.oneShotTimer e.2 then [.timerExpired 0] else []
  | .scan starts options nowMs => [.scan starts options nowMs 0]
  | .report => [.report 0]
  | .rearm options => [.rearm options 0]
  | .shutdown => []

variable {w w' : LinuxWatchdog} {a : ThreadWatchdog} {timer timer' : OneShotTimer} {now : Nat}

/-- The steps of `loop`. -/
theorem loop_cases (h : timer.loop now = some timer') :
    (Expires timer now ∧
      timer' = { timer with startTimePoint := 0 }.goTo now (.callback .expired)) ∨
    (¬ Expires timer now ∧ timer.position.callbacks = [] ∧
      ∃ position, timer' = timer.goTo now position ∧ position.callbacks = [] ∧
        (position = .elapsed → timer.startTimePoint ≠ 0)) := by
  unfold OneShotTimer.loop at h
  cases hposition : timer.position with
  | head =>
    simp only [hposition] at h
    obtain rfl := Option.some.inj h
    refine Or.inr ⟨by simp [Expires, hposition], rfl, _, rfl, ?_, ?_⟩
    · split_ifs <;> rfl
    · split_ifs <;> simp
  | sleeping =>
    simp only [hposition] at h
    split_ifs at h
    obtain rfl := Option.some.inj h
    exact Or.inr ⟨by simp [Expires, hposition], rfl, _, rfl, rfl, by simp⟩
  | started =>
    simp only [hposition] at h
    obtain rfl := Option.some.inj h
    refine Or.inr ⟨by simp [Expires, hposition], rfl, _, rfl, ?_, ?_⟩ <;> split_ifs with hzero
    · rfl
    · rfl
    · simp
    · exact fun _ => hzero
  | elapsed =>
    simp only [hposition] at h
    split_ifs at h with helapsed
    · obtain rfl := Option.some.inj h
      exact Or.inr ⟨fun hexpires => not_lt.mpr hexpires.2 helapsed, rfl, _, rfl, rfl, by simp⟩
    · obtain rfl := Option.some.inj h
      exact Or.inl ⟨⟨hposition, not_lt.mp helapsed⟩, rfl⟩
  | callback progress => simp [hposition] at h
  | exited => simp [hposition] at h

theorem Shows.startTimer (h : Shows w a) (options : RuntimeOptions) (hnow : 0 < now) :
    Shows { w with oneShotTimer := w.oneShotTimer.start now } (a.startTimer options) where
  threads := h.threads
  callbacks := h.callbacks
  timers := by
    rw [ThreadWatchdog.length_startTimer, h.timerQueue]
    simp [OneShotTimer.start, hnow.ne']
  timerQueue := h.timerQueue
  debuggerPresent := h.debuggerPresent

theorem Shows.addThread (h : Shows w a) (options : RuntimeOptions) (thread : ThreadId)
    (snch : SyncPtr) (hnow : 0 < now) :
    Shows (w.addThread options thread snch now) (a.addThread options thread snch) := by
  unfold LinuxWatchdog.addThread ThreadWatchdog.addThread
  have hadded : Shows { w with threads := w.threads ++ [{ syncPtr := snch, threadId := thread }] }
      { a with threads := a.threads ++ [{ syncPtr := snch, threadId := thread }] } :=
    ⟨by rw [h.threads], h.callbacks, h.timers, h.timerQueue, h.debuggerPresent⟩
  rw [h.threads] at hadded ⊢
  split_ifs
  · exact h
  · dsimp only
    split_ifs
    · exact hadded.startTimer options hnow
    · exact hadded

/-- The callback in flight, of which there is one at most. -/
theorem Shows.callback {progress : Callback} (h : Shows w a)
    (hposition : w.oneShotTimer.position = .callback progress) : a.callbacks = [progress] := by
  rw [h.callbacks, hposition]
  rfl

theorem Shows.removeThread (h : Shows w a) (options : RuntimeOptions) (thread : ThreadId) :
    Shows { w with threads := (w.list.removeThread options thread).threads }
      (a.removeThread options thread) := by
  have hthreads : (a.removeThread options thread).threads =
      (w.list.removeThread options thread).threads := by
    simp only [ThreadWatchdog.removeThread_list, h.threads, list]
  obtain ⟨htimers, hcallbacks⟩ := ThreadWatchdog.removeThread_timers a options thread
  refine ⟨hthreads, hcallbacks.trans h.callbacks, by rw [htimers]; exact h.timers, ?_, ?_⟩
  · rw [← h.timerQueue]
    unfold ThreadWatchdog.removeThread
    split_ifs
    · rfl
    · split <;> rfl
  · rw [ThreadWatchdog.debuggerPresent_removeThread]
    exact h.debuggerPresent

theorem Shows.scan {starts : SyncPtr → Nat} {options : RuntimeOptions} {nowMs : Nat}
    (h : Shows w a) (hscan : w.scan starts options nowMs now = some w') :
    ∃ b, a.scan starts options nowMs 0 = some b ∧ Shows w' b := by
  unfold LinuxWatchdog.scan at hscan
  split_ifs at hscan with hposition
  obtain rfl := Option.some.inj hscan
  have hduration : a.maxDurationSec options = w.list.maxDurationSec options := by
    simp [ThreadWatchdog.maxDurationSec, h.debuggerPresent, list]
  refine ⟨_, by simp only [ThreadWatchdog.scan, h.callback hposition]; rfl, ?_⟩
  refine ⟨?_, ?_, h.timers, h.timerQueue, h.debuggerPresent⟩
  · rw [h.threads, hduration]
  · rw [h.threads, hduration]
    rfl

theorem Shows.report (h : Shows w a) (hreport : w.report now = some w') :
    ∃ found b, a.report 0 = some (found, b) ∧ Shows w' b := by
  unfold LinuxWatchdog.report at hreport
  split at hreport
  · rename_i found hposition
    obtain rfl := Option.some.inj hreport
    refine ⟨found, _, by simp only [ThreadWatchdog.report, h.callback hposition]; rfl, ?_⟩
    exact ⟨h.threads, rfl, h.timers, h.timerQueue, h.debuggerPresent⟩
  · cases hreport

theorem Shows.rearm (h : Shows w a) (options : RuntimeOptions) (hnow : 0 < now)
    (hrearm : w.rearm now = some w') : ∃ b, a.rearm options 0 = some b ∧ Shows w' b := by
  unfold LinuxWatchdog.rearm at hrearm
  split_ifs at hrearm with hposition hempty
  · obtain rfl := Option.some.inj hrearm
    refine ⟨{ a with callbacks := [] }, ?_, ?_⟩
    · simp [ThreadWatchdog.rearm, h.callback hposition, h.threads, hempty]
    · exact ⟨h.threads, rfl, h.timers, h.timerQueue, h.debuggerPresent⟩
  · obtain rfl := Option.some.inj hrearm
    refine ⟨{ a with callbacks := [] }.startTimer options, ?_, ?_⟩
    · simp [ThreadWatchdog.rearm, h.callback hposition, h.threads, hempty]
    · have hreturned : Shows { w with oneShotTimer := w.oneShotTimer.goTo now .head }
          { a with callbacks := [] } :=
        ⟨h.threads, rfl, h.timers, h.timerQueue, h.debuggerPresent⟩
      exact hreturned.startTimer options hnow

theorem Shows.loop {timer : OneShotTimer} (h : Shows w a) (hstarted : Started w.oneShotTimer)
    (hloop : w.oneShotTimer.loop now = some timer) :
    ∃ b, exec ThreadWatchdog.step a
        (if Expires w.oneShotTimer now then [.timerExpired 0] else []) = some b ∧
      Shows { w with oneShotTimer := timer } b := by
  obtain ⟨hexpires, rfl⟩ | ⟨hnot, hcallbacks, position, rfl, hnew, -⟩ := loop_cases hloop
  · have hnone : a.callbacks = [] := by
      rw [h.callbacks, hexpires.1]
      rfl
    have hlength := h.timers
    rw [if_neg (hstarted hexpires.1)] at hlength
    obtain ⟨duration, htimers⟩ := List.length_eq_one_iff.mp hlength
    refine ⟨{ a with oneShotTimers := [], callbacks := [.expired] }, ?_, ?_⟩
    · rw [if_pos hexpires]
      refine exec_cons.mpr ⟨_, ?_, rfl⟩
      simp [ThreadWatchdog.step, ThreadWatchdog.timerExpired, htimers, hnone]
    · exact ⟨h.threads, rfl, rfl, h.timerQueue, h.debuggerPresent⟩
  · refine ⟨a, by rw [if_neg hnot]; rfl, h.threads, ?_, h.timers, h.timerQueue, h.debuggerPresent⟩
    rw [h.callbacks, hcallbacks]
    exact hnew.symm

theorem Shows.step {e : LinuxSection × Nat} (h : Shows w a) (hstarted : Started w.oneShotTimer)
    (hnow : 0 < e.2) (hstep : w.step e = some w') :
    ∃ b, exec ThreadWatchdog.step a (point w e) = some b ∧ Shows w' b := by
  have single : ∀ {section' b}, ThreadWatchdog.step a section' = some b → Shows w' b →
      ∃ b, exec ThreadWatchdog.step a [section'] = some b ∧ Shows w' b :=
    fun hb hshows => ⟨_, exec_cons.mpr ⟨_, hb, rfl⟩, hshows⟩
  obtain ⟨kind, now⟩ := e
  cases kind with
  | addThread options thread snch =>
    obtain rfl := Option.some.inj hstep
    exact single rfl (h.addThread options thread snch hnow)
  | removeThread options thread =>
    obtain rfl := Option.some.inj hstep
    exact single rfl (h.removeThread options thread)
  | loop =>
    obtain ⟨timer, htimer, rfl⟩ := Option.map_eq_some_iff.mp hstep
    exact h.loop hstarted htimer
  | scan starts options nowMs =>
    obtain ⟨b, hb, hshows⟩ := h.scan hstep
    exact single hb hshows
  | report =>
    obtain ⟨found, b, hb, hshows⟩ := h.report hstep
    exact single (by rw [ThreadWatchdog.step, hb]; rfl) hshows
  | rearm options =>
    obtain ⟨b, hb, hshows⟩ := h.rearm options hnow hstep
    exact single hb hshows
  | shutdown =>
    obtain rfl := Option.some.inj hstep
    exact ⟨a, rfl, h.threads, h.callbacks, h.timers, h.timerQueue, h.debuggerPresent⟩

theorem Started.step {e : LinuxSection × Nat} (h : Started w.oneShotTimer) (hnow : 0 < e.2)
    (hstep : w.step e = some w') : Started w'.oneShotTimer := by
  obtain ⟨kind, now⟩ := e
  cases kind with
  | addThread options thread snch =>
    obtain rfl := Option.some.inj hstep
    unfold LinuxWatchdog.addThread
    split_ifs
    · exact h
    · dsimp only
      split_ifs
      · exact fun _ => hnow.ne'
      · exact h
  | removeThread options thread =>
    obtain rfl := Option.some.inj hstep
    exact h
  | loop =>
    obtain ⟨timer, htimer, rfl⟩ := Option.map_eq_some_iff.mp hstep
    obtain ⟨-, rfl⟩ | ⟨-, -, position, rfl, -, hstarted⟩ := loop_cases htimer
    · exact fun hposition => by cases hposition
    · exact hstarted
  | scan starts options nowMs =>
    simp only [LinuxWatchdog.step, LinuxWatchdog.scan] at hstep
    split_ifs at hstep
    obtain rfl := Option.some.inj hstep
    exact fun hposition => by cases hposition
  | report =>
    simp only [LinuxWatchdog.step, LinuxWatchdog.report] at hstep
    split at hstep
    · obtain rfl := Option.some.inj hstep
      exact fun hposition => by cases hposition
    · cases hstep
  | rearm options =>
    simp only [LinuxWatchdog.step, LinuxWatchdog.rearm] at hstep
    split_ifs at hstep <;> obtain rfl := Option.some.inj hstep
    · exact fun hposition => by cases hposition
    · exact fun hposition => by cases hposition
  | shutdown =>
    obtain rfl := Option.some.inj hstep
    exact h

/-- The watchdog on the timer of Linux refines the watchdog with one timer, in every interleaving
of its sections with the loop. -/
theorem exec_refines {es : List (LinuxSection × Nat)} (hnow : ∀ e ∈ es, 0 < e.2)
    (h : exec step {} es = some w) :
    ∃ a, exec ThreadWatchdog.step { timerQueue := false } (linearization step point {} es) =
      some a ∧ Shows w a := by
  have hstart : Shows {} { timerQueue := false } := ⟨rfl, rfl, rfl, rfl, rfl⟩
  have hrun := exec_linearization (I := fun w a => Shows w a ∧ Started w.oneShotTimer)
    (P := fun _ e => 0 < e.2) (fun w a e w' hI hnow hstep => by
      obtain ⟨b, hb, hshows⟩ := hI.1.step hI.2 hnow hstep
      exact ⟨b, hb, hshows, hI.2.step hnow hstep⟩)
    ⟨hstart, fun hposition => by cases hposition⟩ h (along_of_mem fun _ => hnow)
  obtain ⟨a, ha, hshows, -⟩ := hrun
  exact ⟨a, ha, hshows⟩

/-- The loop sleeps longer than the timer takes, and finds a thread that holds its lock. -/
def sleepAndScan : List (LinuxSection × Nat) :=
  let woken := 6 * OneShotTimer.second
  [(.loop, 1), (.addThread {} 1 ⟨1, 0⟩, 2), (.loop, woken), (.loop, woken), (.loop, woken + 1),
    (.scan (fun _ => 1) {} 40000, woken + 2), (.report, woken + 3), (.rearm {}, woken + 4)]

theorem exec_refines_sample : ∃ w a, exec step {} sleepAndScan = some w ∧
    exec ThreadWatchdog.step { timerQueue := false } (linearization step point {} sleepAndScan) =
      some a ∧ Shows w a := by
  obtain ⟨w, hrun, -⟩ : ∃ w, exec step {} sleepAndScan = some w ∧ True :=
    exists_exec (by decide +kernel)
  obtain ⟨a, ha, hshows⟩ := exec_refines (by simp [sleepAndScan, OneShotTimer.second]) hrun
  exact ⟨w, a, hrun, ha, hshows⟩

end LinuxWatchdog
end CppGuard
