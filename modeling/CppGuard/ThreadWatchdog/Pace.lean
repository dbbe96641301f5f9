import CppGuard.ThreadWatchdog.OneShotTimer

/-!
# How often the threads are scanned

The loop sleeps for a second at a time, and the timer runs for five. If the loop is never late by
more than `delay` at one of its sections, then the list of threads is scanned at least every six
seconds and ten delays, whoever comes and goes meanwhile. Once the timer is shut down, the loop
ends.
-/
namespace CppGuard
open Transition

/-- The watchdog, the time, and when the list was scanned last, or got its first thread since. -/
structure Paced where
  watchdog : LinuxWatchdog
  now : Nat
  scanned : Nat

namespace OneShotTimer

/-- How long the loop may stay where it is. -/
def limit (delay : Nat) : LoopPosition → Nat
  | .sleeping => second + delay
  | _ => delay

/-- How long it may take until the loop has passed its second scope. -/
def remaining (delay : Nat) : LoopPosition → Nat
  | .elapsed => delay
  | .started => 2 * delay
  | .sleeping => second + 3 * delay
  | .head => second + 4 * delay
  | .callback .reported => second + 5 * delay
  | .callback (.scanned _) => second + 6 * delay
  | .callback .expired => second + 7 * delay
  | .exited => 0

end OneShotTimer

/-- The first section of the callback. -/
def LinuxSection.isScan : LinuxSection → Bool
  | .scan _ _ _ => true
  | _ => false

def LinuxSection.isShutdown : LinuxSection → Bool
  | .shutdown => true
  | _ => false

namespace Paced
open OneShotTimer LinuxWatchdog

/-- A watchdog that is created at `now`. -/
def create (now : Nat) : Paced := ⟨{ oneShotTimer := { since := now } }, now, now⟩

def step (p : Paced) (e : LinuxSection × Nat) : Option Paced :=
  (p.watchdog.step e).map fun w =>
    { watchdog := w
      now := e.2
      scanned :=
        if e.1.isScan ∨ p.watchdog.threads = [] ∧ w.threads ≠ [] then e.2 else p.scanned }

/-- Time goes on, the loop is never late, and the timer is not shut down. -/
def OnTime (delay : Nat) (p : Paced) (e : LinuxSection × Nat) : Prop :=
  let timer := p.watchdog.oneShotTimer
  p.now ≤ e.2 ∧ e.2 ≤ timer.since + limit delay timer.position ∧
    e.1.isShutdown = false

instance (delay : Nat) (p : Paced) (e : LinuxSection × Nat) : Decidable (OnTime delay p e) :=
  inferInstanceAs (Decidable (_ ∧ _ ∧ _))

/-- While there are threads, the timer is started again in time. -/
def Watched (delay scanned : Nat) (timer : OneShotTimer) : Prop :=
  match timer.position with
  | .callback .expired => timer.since ≤ scanned + 6 * second + 9 * delay
  | .callback (.scanned _) => timer.since ≤ scanned
  | .callback .reported => timer.since ≤ scanned + delay
  | _ => timer.startTimePoint ≠ 0 ∧ timer.startTimePoint ≤ scanned + 2 * delay

structure InTime (delay : Nat) (p : Paced) : Prop where
  pos : 0 < p.now
  since_le : p.watchdog.oneShotTimer.since ≤ p.now
  running : p.watchdog.oneShotTimer.shutdown = false
  position : p.watchdog.oneShotTimer.position ≠ .exited
  started : Started p.watchdog.oneShotTimer
  due : p.watchdog.oneShotTimer.startTimePoint ≠ 0 →
    p.watchdog.oneShotTimer.since + remaining delay p.watchdog.oneShotTimer.position ≤
      p.watchdog.oneShotTimer.startTimePoint + 6 * second + 7 * delay
  watched : p.watchdog.threads ≠ [] → Watched delay p.scanned p.watchdog.oneShotTimer

theorem limit_le_remaining {delay : Nat} {position : LoopPosition} (h : position ≠ .exited) :
    limit delay position ≤ remaining delay position := by
  cases position with
  | exited => exact absurd rfl h
  | callback progress => cases progress <;> (simp only [limit, remaining]; omega)
  | _ =>
    simp only [limit, remaining]
    omega

theorem remaining_le (delay : Nat) (position : LoopPosition) :
    remaining delay position ≤ second + 7 * delay := by
  cases position with
  | callback progress => cases progress <;> (simp only [remaining]; omega)
  | _ =>
    simp only [remaining]
    omega

variable {delay : Nat} {p p' : Paced} {e : LinuxSection × Nat}

theorem inTime_create {now : Nat} (hnow : 0 < now) : InTime delay (create now) where
  pos := hnow
  since_le := le_rfl
  running := rfl
  position := by simp [create]
  started := fun h => by cases h
  due := fun h => absurd rfl h
  watched := fun h => absurd rfl h

/-- There are threads, and the loop is not late. -/
theorem InTime.scanned (h : InTime delay p) (hontime : OnTime delay p e)
    (hthreads : p.watchdog.threads ≠ []) : e.2 ≤ p.scanned + 6 * second + 10 * delay := by
  obtain ⟨-, hlimit, -⟩ := hontime
  have hwatched := h.watched hthreads
  have hrest := @limit_le_remaining delay _ h.position
  have hdue := h.due
  cases hposition : p.watchdog.oneShotTimer.position with
  | exited => exact absurd hposition h.position
  | callback progress =>
    simp only [hposition, limit] at hlimit
    cases progress <;> simp only [Watched, hposition] at hwatched <;> omega
  | _ =>
    simp only [Watched, hposition] at hwatched
    have := hdue hwatched.1
    omega

/-- The loop gets to another position. -/
theorem InTime.goTo {now scanned : Nat} {threads : List ThreadInfo} {timer : OneShotTimer}
    {position : LoopPosition} (h : InTime delay p) (hnow : p.now ≤ now)
    (hrunning : timer.shutdown = false) (hexit : position ≠ .exited)
    (hstarted : position = .elapsed → timer.startTimePoint ≠ 0)
    (hdue : timer.startTimePoint ≠ 0 →
      now + remaining delay position ≤ timer.startTimePoint + 6 * second + 7 * delay)
    (hwatched : threads ≠ [] → Watched delay scanned (timer.goTo now position)) :
    InTime delay ⟨⟨threads, timer.goTo now position⟩, now, scanned⟩ where
  pos := h.pos.trans_le hnow
  since_le := le_rfl
  running := hrunning
  position := hexit
  started := hstarted
  due := hdue
  watched := hwatched

/-- A step of `loop` outside of the callback. -/
theorem InTime.loop {timer : OneShotTimer} {now : Nat} (h : InTime delay p)
    (hontime : OnTime delay p (.loop, now))
    (hloop : p.watchdog.oneShotTimer.loop now = some timer) :
    InTime delay ⟨{ p.watchdog with oneShotTimer := timer }, now, p.scanned⟩ := by
  obtain ⟨hnow, hlimit, -⟩ := hontime
  have hdue := h.due
  have hwatched := h.watched
  unfold OneShotTimer.loop at hloop
  cases hposition : p.watchdog.oneShotTimer.position with
  | head =>
    simp only [hposition, h.running] at hloop hlimit hdue
    obtain rfl := Option.some.inj hloop
    refine h.goTo hnow h.running (by simp) (by simp) (fun hne => ?_) fun hthreads => ?_
    · have := hdue hne
      simp only [limit, remaining, Bool.false_eq_true, if_false] at *
      omega
    · simpa [Watched, hposition, OneShotTimer.goTo] using hwatched hthreads
  | sleeping =>
    simp only [hposition] at hloop hlimit hdue
    split_ifs at hloop
    obtain rfl := Option.some.inj hloop
    refine h.goTo hnow h.running (by simp) (by simp) (fun hne => ?_) fun hthreads => ?_
    · have := hdue hne
      simp only [limit, remaining] at *
      omega
    · simpa [Watched, hposition, OneShotTimer.goTo] using hwatched hthreads
  | started =>
    simp only [hposition] at hloop hlimit hdue
    obtain rfl := Option.some.inj hloop
    split_ifs with hzero
    · refine h.goTo hnow h.running (by simp) (by simp) (fun hne => absurd hzero hne)
        fun hthreads => ?_
      simpa [Watched, hposition, OneShotTimer.goTo] using hwatched hthreads
    · refine h.goTo hnow h.running (by simp) (fun _ => hzero) (fun hne => ?_) fun hthreads => ?_
      · have := hdue hne
        simp only [limit, remaining] at *
        omega
      · simpa [Watched, hposition, OneShotTimer.goTo] using hwatched hthreads
  | elapsed =>
    simp only [hposition] at hloop hlimit hdue
    split_ifs at hloop with helapsed
    · obtain rfl := Option.some.inj hloop
      refine h.goTo hnow h.running (by simp) (by simp) (fun hne => ?_) fun hthreads => ?_
      · simp only [remaining, second] at *
        omega
      · simpa [Watched, hposition, OneShotTimer.goTo] using hwatched hthreads
    · obtain rfl := Option.some.inj hloop
      refine h.goTo hnow h.running (by simp) (by simp) (fun hne => absurd rfl hne)
        fun hthreads => ?_
      have hstart := hwatched hthreads
      have := hdue (h.started hposition)
      simp only [Watched, hposition, OneShotTimer.goTo, limit, remaining] at *
      omega
  | callback progress => simp [hposition] at hloop
  | exited => exact absurd hposition h.position

/-- The timer is started for the first thread. -/
theorem InTime.start {now : Nat} {threads : List ThreadInfo} (h : InTime delay p)
    (hnow : p.now ≤ now) : InTime delay
      ⟨⟨threads, p.watchdog.oneShotTimer.start now⟩, now, now⟩ where
  pos := h.pos.trans_le hnow
  since_le := h.since_le.trans hnow
  running := h.running
  position := h.position
  started := fun _ => (h.pos.trans_le hnow).ne'
  due := fun _ => by
    have hrest := remaining_le delay p.watchdog.oneShotTimer.position
    have hsince := h.since_le
    simp only [OneShotTimer.start] at *
    omega
  watched := fun _ => by
    have hsince := h.since_le
    have hpos := h.pos
    cases hposition : p.watchdog.oneShotTimer.position with
    | callback progress =>
      cases progress <;> simp only [Watched, OneShotTimer.start, hposition] <;> omega
    | _ =>
      simp only [Watched, OneShotTimer.start, hposition]
      omega

theorem InTime.later {now : Nat} {threads : List ThreadInfo} (h : InTime delay p)
    (hnow : p.now ≤ now) (hthreads : threads ≠ [] → p.watchdog.threads ≠ []) :
    InTime delay ⟨{ p.watchdog with threads }, now, p.scanned⟩ where
  pos := h.pos.trans_le hnow
  since_le := h.since_le.trans hnow
  running := h.running
  position := h.position
  started := h.started
  due := h.due
  watched := fun hne => h.watched (hthreads hne)

/-- The first thread starts the timer, any other one leaves it alone. -/
theorem InTime.addThread {now : Nat} (h : InTime delay p) (hnow : p.now ≤ now)
    (options : RuntimeOptions) (thread : ThreadId) (snch : SyncPtr) :
    let w := p.watchdog.addThread options thread snch now
    InTime delay
      ⟨w, now, if p.watchdog.threads = [] ∧ w.threads ≠ [] then now else p.scanned⟩ := by
  by_cases hdisabled : options.threadWatchdogEnabled = false
  · simp only [LinuxWatchdog.addThread, hdisabled, if_true, and_not_self, if_false]
    exact h.later hnow id
  · by_cases hfirst : p.watchdog.threads = []
    · have hlooked : ([] ++ [(⟨snch, thread, false⟩ : ThreadInfo)]) ≠ [] := by simp
      simp only [LinuxWatchdog.addThread, hdisabled, if_false, hfirst, List.nil_append,
        List.length_singleton, if_true, Bool.true_eq_false] at hlooked ⊢
      rw [if_pos ⟨trivial, hlooked⟩]
      exact h.start hnow
    · have hmore : (p.watchdog.threads ++ [(⟨snch, thread, false⟩ : ThreadInfo)]).length ≠ 1 := by
        simpa using hfirst
      simp only [LinuxWatchdog.addThread, hdisabled, if_false, hmore, hfirst, false_and]
      exact h.later hnow fun _ => hfirst

/-- No thread is added, so that the timer need not be started. -/
theorem InTime.removeThread {now : Nat} (h : InTime delay p) (hnow : p.now ≤ now)
    (options : RuntimeOptions) (thread : ThreadId) :
    let threads := (p.watchdog.list.removeThread options thread).threads
    InTime delay ⟨{ p.watchdog with threads }, now,
      if p.watchdog.threads = [] ∧ threads ≠ [] then now else p.scanned⟩ := by
  have hempty : p.watchdog.threads = [] →
      (p.watchdog.list.removeThread options thread).threads = [] := by
    intro hnil
    simp [ThreadWatchdog.removeThread, LinuxWatchdog.list, hnil]
  simp only [not_and_not_right.mpr hempty, if_false]
  exact h.later hnow fun hne hnil => hne (hempty hnil)

/-- The callback has looked at the list, and may take as long again to report. -/
theorem InTime.scan {now : Nat} {kind : LinuxSection} (h : InTime delay p)
    (hontime : OnTime delay p (kind, now))
    (hposition : p.watchdog.oneShotTimer.position = .callback .expired)
    (threads : List ThreadInfo) (found : Option (SyncPtr × Nat)) :
    InTime delay ⟨⟨threads, p.watchdog.oneShotTimer.goTo now (.callback (.scanned found))⟩,
      now, now⟩ := by
  obtain ⟨hnow, hlimit, -⟩ := hontime
  have hdue := h.due
  simp only [hposition, limit, remaining] at hdue hlimit
  refine h.goTo hnow h.running (by simp) (by simp) (fun hne => ?_) fun _ => le_rfl
  have := hdue hne
  simp only [remaining]
  omega

theorem InTime.report {now : Nat} {kind : LinuxSection} {found : Option (SyncPtr × Nat)}
    (h : InTime delay p) (hontime : OnTime delay p (kind, now))
    (hposition : p.watchdog.oneShotTimer.position = .callback (.scanned found)) :
    InTime delay ⟨{ p.watchdog with
      oneShotTimer := p.watchdog.oneShotTimer.goTo now (.callback .reported) }, now,
      p.scanned⟩ := by
  obtain ⟨hnow, hlimit, -⟩ := hontime
  have hdue := h.due
  simp only [hposition, limit, remaining] at hdue hlimit
  refine h.goTo hnow h.running (by simp) (by simp) (fun hne => ?_) fun hthreads => ?_
  · have := hdue hne
    simp only [remaining]
    omega
  · have := h.watched hthreads
    simp only [Watched, hposition, OneShotTimer.goTo] at this ⊢
    omega

/-- The list is empty, and nobody waits for the timer. -/
theorem InTime.idle {now : Nat} {kind : LinuxSection} (h : InTime delay p)
    (hontime : OnTime delay p (kind, now))
    (hposition : p.watchdog.oneShotTimer.position = .callback .reported)
    (hempty : p.watchdog.threads = []) :
    InTime delay ⟨{ p.watchdog with oneShotTimer := p.watchdog.oneShotTimer.goTo now .head }, now,
      p.scanned⟩ := by
  obtain ⟨hnow, hlimit, -⟩ := hontime
  have hdue := h.due
  simp only [hposition, limit, remaining] at hdue hlimit
  refine h.goTo hnow h.running (by simp) (by simp) (fun hne => ?_) fun hthreads => ?_
  · have := hdue hne
    simp only [remaining]
    omega
  · exact absurd hempty hthreads

theorem InTime.rearm {now : Nat} {kind : LinuxSection} (h : InTime delay p)
    (hontime : OnTime delay p (kind, now))
    (hposition : p.watchdog.oneShotTimer.position = .callback .reported) :
    InTime delay ⟨{ p.watchdog with
      oneShotTimer := (p.watchdog.oneShotTimer.start now).goTo now .head }, now,
      p.scanned⟩ := by
  obtain ⟨hnow, hlimit, -⟩ := hontime
  simp only [hposition, limit] at hlimit
  refine h.goTo hnow h.running (by simp) (by simp) (fun _ => ?_) fun hthreads => ?_
  · simp only [OneShotTimer.start, remaining]
    omega
  · have := h.watched hthreads
    have hpos := h.pos
    simp only [Watched, hposition, OneShotTimer.goTo, OneShotTimer.start] at this ⊢
    omega

theorem InTime.step (h : InTime delay p) (hontime : OnTime delay p e)
    (hstep : p.step e = some p') : InTime delay p' := by
  obtain ⟨w, hw, rfl⟩ := Option.map_eq_some_iff.mp hstep
  obtain ⟨kind, now⟩ := e
  cases kind with
  | addThread options thread snch =>
    obtain rfl := Option.some.inj hw
    simp only [LinuxSection.isScan, Bool.false_eq_true, false_or]
    exact h.addThread hontime.1 options thread snch
  | removeThread options thread =>
    obtain rfl := Option.some.inj hw
    simp only [LinuxSection.isScan, Bool.false_eq_true, false_or]
    exact h.removeThread hontime.1 options thread
  | loop =>
    obtain ⟨timer, htimer, rfl⟩ := Option.map_eq_some_iff.mp hw
    simp only [LinuxSection.isScan, Bool.false_eq_true, false_or, and_not_self, if_false]
    exact h.loop hontime htimer
  | scan starts options nowMs =>
    simp only [LinuxWatchdog.step, LinuxWatchdog.scan] at hw
    split_ifs at hw with hposition
    obtain rfl := Option.some.inj hw
    simp only [LinuxSection.isScan, true_or, if_true]
    exact h.scan hontime hposition ..
  | report =>
    simp only [LinuxWatchdog.step, LinuxWatchdog.report] at hw
    split at hw
    · rename_i found hposition
      obtain rfl := Option.some.inj hw
      simp only [LinuxSection.isScan, Bool.false_eq_true, false_or, and_not_self, if_false]
      exact h.report hontime hposition
    · cases hw
  | rearm options =>
    simp only [LinuxWatchdog.step, LinuxWatchdog.rearm] at hw
    split_ifs at hw with hposition hempty
    all_goals
      obtain rfl := Option.some.inj hw
      simp only [LinuxSection.isScan, Bool.false_eq_true, false_or, and_not_self, if_false]
    · exact h.idle hontime hposition (List.isEmpty_iff.mp hempty)
    · exact h.rearm hontime hposition
  | shutdown => cases hontime.2.2

/-- While there are threads, and the loop is never late by more than `delay`, the list was scanned,
or got its first thread, at most six seconds and ten delays ago. -/
theorem exec_scanned {now : Nat} {es : List (LinuxSection × Nat)} (hnow : 0 < now)
    (hrun : exec step (create now) es = some p)
    (hontime : Along (OnTime delay) step (create now) es) :
    Along (fun p e => p.watchdog.threads ≠ [] → e.2 ≤ p.scanned + 6 * second + 10 * delay) step
      (create now) es :=
  along_of_invariant_along (I := InTime delay) (fun _ _ _ h hontime _ => h.scanned hontime)
    (fun _ _ _ h hontime hstep => h.step hontime hstep) (inTime_create hnow) hrun hontime

/-- The thread 1 holds its lock from the beginning; the loop wakes up five seconds late. -/
theorem exec_scanned_sample : ∃ p, exec step (create 1) sleepAndScan = some p ∧
    Along (fun p e => p.watchdog.threads ≠ [] →
      e.2 ≤ p.scanned + 6 * second + 10 * (5 * second)) step (create 1) sleepAndScan := by
  obtain ⟨p, hrun, -⟩ : ∃ p, exec step (create 1) sleepAndScan = some p ∧ True :=
    exists_exec (by decide +kernel)
  exact ⟨p, hrun, exec_scanned (by decide) hrun (by decide +kernel)⟩

end Paced

/-! ## The end of the loop -/

/-- A section that the thread of the timer runs. -/
def LinuxSection.isLoop : LinuxSection → Bool
  | .loop | .scan _ _ _ | .report | .rearm _ => true
  | .addThread _ _ _ | .removeThread _ _ | .shutdown => false

/-- How many sections the loop may still run. -/
def LoopPosition.rank : LoopPosition → Nat
  | .sleeping => 7
  | .started => 6
  | .elapsed => 5
  | .callback .expired => 4
  | .callback (.scanned _) => 3
  | .callback .reported => 2
  | .head => 1
  | .exited => 0

/-- How often the loop may still scan the list. -/
def LoopPosition.scans (position : LoopPosition) : Nat := if 4 ≤ position.rank then 1 else 0

namespace LinuxWatchdog
open OneShotTimer

variable {w w' : LinuxWatchdog} {e : LinuxSection × Nat} {es : List (LinuxSection × Nat)}

theorem rank_step (hshutdown : w.oneShotTimer.shutdown = true) (hstep : w.step e = some w') :
    w'.oneShotTimer.shutdown = true ∧ w'.oneShotTimer.position.rank +
      (if e.1.isLoop = true then 1 else 0) ≤ w.oneShotTimer.position.rank := by
  obtain ⟨kind, now⟩ := e
  cases kind with
  | addThread options thread snch =>
    obtain rfl := Option.some.inj hstep
    have hsame : (w.addThread options thread snch now).oneShotTimer.position =
          w.oneShotTimer.position ∧
        (w.addThread options thread snch now).oneShotTimer.shutdown =
          w.oneShotTimer.shutdown := by
      unfold LinuxWatchdog.addThread
      split_ifs
      · exact ⟨rfl, rfl⟩
      · dsimp only
        split_ifs <;> exact ⟨rfl, rfl⟩
    exact ⟨hsame.2.trans hshutdown, (congrArg LoopPosition.rank hsame.1).le⟩
  | removeThread options thread =>
    obtain rfl := Option.some.inj hstep
    exact ⟨hshutdown, le_rfl⟩
  | loop =>
    obtain ⟨timer, htimer, rfl⟩ := Option.map_eq_some_iff.mp hstep
    unfold OneShotTimer.loop at htimer
    simp only [LinuxSection.isLoop, if_true]
    cases hposition : w.oneShotTimer.position with
    | head =>
      simp only [hposition, hshutdown, if_true] at htimer
      obtain rfl := Option.some.inj htimer
      exact ⟨hshutdown, by simp [goTo, LoopPosition.rank]⟩
    | sleeping =>
      simp only [hposition] at htimer
      split_ifs at htimer
      obtain rfl := Option.some.inj htimer
      exact ⟨hshutdown, by simp [goTo, LoopPosition.rank]⟩
    | started =>
      simp only [hposition] at htimer
      obtain rfl := Option.some.inj htimer
      refine ⟨hshutdown, ?_⟩
      split_ifs <;> simp [goTo, LoopPosition.rank]
    | elapsed =>
      simp only [hposition] at htimer
      split_ifs at htimer <;> obtain rfl := Option.some.inj htimer <;>
        exact ⟨hshutdown, by simp [goTo, LoopPosition.rank]⟩
    | callback progress => simp [hposition] at htimer
    | exited => simp [hposition] at htimer
  | scan starts options nowMs =>
    simp only [LinuxWatchdog.step, LinuxWatchdog.scan] at hstep
    split_ifs at hstep with hposition
    obtain rfl := Option.some.inj hstep
    exact ⟨hshutdown, by simp [hposition, LinuxSection.isLoop, goTo, LoopPosition.rank]⟩
  | report =>
    simp only [LinuxWatchdog.step, LinuxWatchdog.report] at hstep
    split at hstep
    · rename_i found hposition
      obtain rfl := Option.some.inj hstep
      exact ⟨hshutdown, by simp [hposition, LinuxSection.isLoop, goTo, LoopPosition.rank]⟩
    · cases hstep
  | rearm options =>
    simp only [LinuxWatchdog.step, LinuxWatchdog.rearm] at hstep
    split_ifs at hstep with hposition hempty <;> obtain rfl := Option.some.inj hstep <;>
      exact ⟨hshutdown, by simp [hposition, LinuxSection.isLoop, goTo, LoopPosition.rank]⟩
  | shutdown =>
    obtain rfl := Option.some.inj hstep
    exact ⟨rfl, le_rfl⟩

/-- The callback can only begin while the loop has four sections left. -/
theorem scan_rank (hstep : w.step e = some w') (hscan : e.1.isScan = true) :
    w.oneShotTimer.position.rank = 4 ∧ w'.oneShotTimer.position.rank = 3 := by
  obtain ⟨kind, now⟩ := e
  cases kind with
  | scan starts options nowMs =>
    simp only [LinuxWatchdog.step, LinuxWatchdog.scan] at hstep
    split_ifs at hstep with hposition
    obtain rfl := Option.some.inj hstep
    exact ⟨by rw [hposition]; rfl, rfl⟩
  | _ => cases hscan

theorem scans_step (hshutdown : w.oneShotTimer.shutdown = true) (hstep : w.step e = some w') :
    w'.oneShotTimer.shutdown = true ∧ w'.oneShotTimer.position.scans +
      (if e.1.isScan = true then 1 else 0) ≤ w.oneShotTimer.position.scans := by
  obtain ⟨hkept, hrank⟩ := rank_step hshutdown hstep
  refine ⟨hkept, ?_⟩
  by_cases hscan : e.1.isScan = true
  · obtain ⟨hbefore, hafter⟩ := scan_rank hstep hscan
    simp [LoopPosition.scans, hscan, hbefore, hafter]
  · simp only [LoopPosition.scans, hscan]
    grind

theorem rank_le (position : LoopPosition) : position.rank ≤ 7 := by
  cases position with
  | callback progress => cases progress <;> simp [LoopPosition.rank]
  | _ => simp [LoopPosition.rank]

/-- The loop can always go on. -/
theorem loop_goes_on {now : Nat} (hexit : w.oneShotTimer.position ≠ .exited)
    (hnow : w.oneShotTimer.since + second ≤ now) :
    ∃ section', section'.isLoop = true ∧ ∃ w', w.step (section', now) = some w' := by
  cases hposition : w.oneShotTimer.position with
  | exited => exact absurd hposition hexit
  | callback progress =>
    cases progress with
    | expired =>
      refine ⟨.scan (fun _ => 0) {} 0, rfl, ?_⟩
      simp [LinuxWatchdog.step, LinuxWatchdog.scan, hposition]
    | scanned found =>
      refine ⟨.report, rfl, ?_⟩
      simp [LinuxWatchdog.step, LinuxWatchdog.report, hposition]
    | reported =>
      refine ⟨.rearm {}, rfl, ?_⟩
      simp [LinuxWatchdog.step, LinuxWatchdog.rearm, hposition]
  | elapsed =>
    refine ⟨.loop, rfl, ?_⟩
    simp only [LinuxWatchdog.step, OneShotTimer.loop, hposition]
    split_ifs <;> exact ⟨_, rfl⟩
  | _ =>
    refine ⟨.loop, rfl, ?_⟩
    simp [LinuxWatchdog.step, OneShotTimer.loop, hposition, hnow]

/-- The destructor of the timer waits for the loop. From `m_shutdown` on the loop runs seven
sections at most, it calls the callback once at most, and it never gets stuck before it ends. -/
theorem exec_shutdown (hshutdown : w.oneShotTimer.shutdown = true)
    (hrun : exec step w es = some w') :
    es.countP (·.1.isLoop) ≤ 7 ∧ es.countP (·.1.isScan) ≤ 1 ∧
      ∀ now, w'.oneShotTimer.position ≠ .exited → w'.oneShotTimer.since + second ≤ now →
        ∃ section', section'.isLoop = true ∧ ∃ w'', w'.step (section', now) = some w'' := by
  have hrank := rank_le w.oneShotTimer.position
  have hloop := exec_countP_le (fun w : LinuxWatchdog => w.oneShotTimer.position.rank)
    (·.1.isLoop) (fun _ _ _ => rank_step) hshutdown hrun
  have hscan := exec_countP_le (fun w : LinuxWatchdog => w.oneShotTimer.position.scans)
    (·.1.isScan) (fun _ _ _ => scans_step) hshutdown hrun
  have hscans : w.oneShotTimer.position.scans ≤ 1 := by
    unfold LoopPosition.scans
    split_ifs <;> decide
  exact ⟨by omega, by omega, fun _ => loop_goes_on⟩

/-- The timer is shut down after it has expired. -/
def shutDown : LinuxWatchdog :=
  { oneShotTimer := { shutdown := true, position := .callback .expired, since := 1 } }

def lastCallback : List (LinuxSection × Nat) :=
  [(.scan (fun _ => 1) {} 40000, 2), (.report, 3), (.rearm {}, 4), (.loop, 5)]

theorem exec_shutdown_sample : lastCallback.countP (·.1.isLoop) ≤ 7 ∧
    lastCallback.countP (·.1.isScan) ≤ 1 ∧ ∃ w, exec step shutDown lastCallback = some w ∧
      w.oneShotTimer.position = .exited := by
  obtain ⟨w, hrun, hexited⟩ : ∃ w, exec step shutDown lastCallback = some w ∧
    w.oneShotTimer.position = .exited := exists_exec (by decide +kernel)
  obtain ⟨hloop, hscan, -⟩ := exec_shutdown rfl hrun
  exact ⟨hloop, hscan, w, hrun, hexited⟩

end LinuxWatchdog
end CppGuard
