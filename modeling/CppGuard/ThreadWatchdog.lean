import CppGuard.SynchLocksHeld

/-!
# The watchdog

`thread_watchdog_t` keeps a list of the threads that it observes and starts a one-shot timer.
When a timer has expired, `one_shot_timer_callback` runs: it scans the threads, reports at most
one of them, and starts the timer again. Each of these is one step; other threads act between
them.
-/
namespace CppGuard

/-- The options that the hooks and the watchdog read. -/
structure RuntimeOptions where
  haltOnError : Bool := false
  overrideProcessExitCodeOnError : Bool := false
  threadWatchdogEnabled : Bool := true
  threadWatchdogMaxDurationSec : Nat := 30
  deriving DecidableEq, Repr

/-- A pointer to a `SynchLocksHeld` object, which belongs to the thread that has created it. -/
structure SyncPtr where
  owner : ThreadId
  address : Nat
  deriving DecidableEq, Repr

structure ThreadInfo where
  syncPtr : SyncPtr
  threadId : ThreadId
  alreadyLogged : Bool := false
  deriving DecidableEq, Repr

/-- How far a call of `one_shot_timer_callback` has come. -/
inductive Callback where
  | expired
  /-- With `found_long_locked` and `elapsed_ms`. -/
  | scanned (found : Option (SyncPtr × Nat))
  | reported
  deriving DecidableEq, Repr

structure ThreadWatchdog where
  threads : List ThreadInfo := []
  /-- What `start` was called with for the one-shot timers that are armed. -/
  oneShotTimers : List Nat := []
  /-- The calls of `one_shot_timer_callback` before their last section. -/
  callbacks : List Callback := []
  debuggerPresent : Bool := false
  /-- The timers are those of a timer queue, as on Windows. On Linux there is one timer, and the
  thread that waits for it runs the callbacks. -/
  timerQueue : Bool := true
  deriving DecidableEq, Repr

namespace ThreadWatchdog

/-- `m_one_shot_timer.start`. -/
def startTimer (w : ThreadWatchdog) (options : RuntimeOptions) : ThreadWatchdog :=
  let durationSec := if 10 ≤ options.threadWatchdogMaxDurationSec then 5 else 1
  { w with
    oneShotTimers :=
      if w.timerQueue then w.oneShotTimers ++ [durationSec]
      -- the time of the timer is set again
      else [durationSec] }

def addThread (w : ThreadWatchdog) (options : RuntimeOptions) (thread : ThreadId)
    (snch : SyncPtr) : ThreadWatchdog :=
  if options.threadWatchdogEnabled = false then w
  else
    let w := { w with threads := w.threads ++ [{ syncPtr := snch, threadId := thread }] }
    if w.threads.length = 1 then w.startTimer options else w

/-- `remove_thread`: the last entry is copied to the deleted place. -/
def removeThread (w : ThreadWatchdog) (options : RuntimeOptions) (thread : ThreadId) :
    ThreadWatchdog :=
  if options.threadWatchdogEnabled = false then w
  else
    match w.threads.findIdx? (fun o => o.threadId = thread), w.threads.getLast? with
    | some i, some back => { w with threads := (w.threads.set i back).dropLast }
    | _, _ => w

/-! ## The callback of the timer -/

/-- A timer expires: it is not armed any more, and its callback begins. -/
def timerExpired (w : ThreadWatchdog) (i : Nat) : Option ThreadWatchdog :=
  if i < w.oneShotTimers.length ∧ (w.timerQueue = true ∨ w.callbacks = []) then
    some { w with
      oneShotTimers := w.oneShotTimers.eraseIdx i
      callbacks := w.callbacks ++ [.expired] }
  else none

/-- The loop over the threads. `starts` are the values of `m_lock_start_time_point`. -/
def scanThreads (starts : SyncPtr → Nat) (maxDurationSec now : Nat) :
    List ThreadInfo → List ThreadInfo × Option (SyncPtr × Nat)
  | [] => ([], none)
  | thread :: threads =>
    let lockStartTimePoint := starts thread.syncPtr
    if lockStartTimePoint = 0 ∨ now ≤ lockStartTimePoint then
      let (threads, found) := scanThreads starts maxDurationSec now threads
      ({ thread with alreadyLogged := false } :: threads, found)
    else if thread.alreadyLogged = true then
      let (threads, found) := scanThreads starts maxDurationSec now threads
      (thread :: threads, found)
    else
      let elapsedMs := now - lockStartTimePoint
      if maxDurationSec * 1000 ≤ elapsedMs then
        ({ thread with alreadyLogged := true } :: threads, some (thread.syncPtr, elapsedMs))
      else
        let (threads, found) := scanThreads starts maxDurationSec now threads
        (thread :: threads, found)

def maxDurationSec (w : ThreadWatchdog) (options : RuntimeOptions) : Nat :=
  if options.threadWatchdogMaxDurationSec ≤ 120 ∧ w.debuggerPresent = true then 120
  else options.threadWatchdogMaxDurationSec

/-- The first section of a callback. -/
def scan (w : ThreadWatchdog) (starts : SyncPtr → Nat) (options : RuntimeOptions) (now i : Nat) :
    Option ThreadWatchdog :=
  if w.callbacks[i]? = some .expired then
    let (threads, found) := scanThreads starts (w.maxDurationSec options) now w.threads
    some { w with threads, callbacks := w.callbacks.set i (.scanned found) }
  else none

/-- The call of `process_watchdog_error`, if a thread was found. -/
def report (w : ThreadWatchdog) (i : Nat) : Option (Option (SyncPtr × Nat) × ThreadWatchdog) :=
  match w.callbacks[i]? with
  | some (.scanned found) => some (found, { w with callbacks := w.callbacks.set i .reported })
  | _ => none

/-- The last section of a callback. -/
def rearm (w : ThreadWatchdog) (options : RuntimeOptions) (i : Nat) : Option ThreadWatchdog :=
  if w.callbacks[i]? = some .reported then
    let w := { w with callbacks := w.callbacks.eraseIdx i }
    some (if w.threads.isEmpty then w else w.startTimer options)
  else none

end ThreadWatchdog
end CppGuard
