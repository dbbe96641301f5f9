import CppGuard.DeadlockMonitor.Holds
import CppGuard.DeadlockMonitor.Polling

/-!
# Threads that wait for a condition variable

`cppguard_cnd_wait` sets the start time of the thread to the last value of `uint64_t`. No hook sets
it again while the thread holds a lock, so the watchdog skips the thread until then, and not only
while it waits. It watches the thread again if and only if the thread has been without a lock since
its last wait (`resumed_iff`).
-/
namespace CppGuard
open Transition DeadlockMonitor ThreadHistory

namespace Core

variable {maxLocks now : Nat} {s s' : Core} {t : ThreadId} {hook : Hook}

/-- The watchdog skips a thread with this start time. -/
def Suspended (s : Core) (t : ThreadId) : Prop := s.start t = 2 ^ 64 - 1

theorem inLock_n_ne_zero {mu : Addr} {id : GraphId} {held : SynchLocksHeld} (h : held.n ≠ 0) :
    (updateLockHistoryInLock mu id held).n ≠ 0 := by
  unfold updateLockHistoryInLock
  grind

/-- A thread that gives up its last lock is not watched any more. -/
theorem Effect.start_of_emptied (h : Effect maxLocks s t now hook s') (hn : (s.held t).n ≠ 0)
    (hn' : (s'.held t).n = 0) : s'.start t = 0 := by
  have narm : ∀ held, (arm now held).n = held.n := by
    intro held
    unfold arm
    split_ifs <;> rfl
  unfold start
  cases h with
  | lock | tryLock =>
    simp only [Function.update_self, narm] at hn'
    exact absurd hn' hn
  | inLock =>
    simp only [Function.update_self] at hn'
    exact absurd hn' (inLock_n_ne_zero hn)
  | unlock | unlockError =>
    simp only [Function.update_self] at hn' ⊢
    exact disarm_start hn'
  | cndWait =>
    simp only [Function.update_self] at hn'
    exact absurd hn' hn
  | threadDelete => simp [SynchLocksHeld.new]
  | lockIgnored | lockFull | lockRefused | unlockIgnored | delete | deleteHeld |
    increaseIgnoreCounter | setOptions => exact absurd hn' hn

theorem Effect.suspended_of_wait (h : Effect maxLocks s t now .cndWait s') : s'.Suspended t := by
  cases h
  simp [Suspended, start]

/-- As long as the thread holds a lock, it stays suspended. -/
theorem Effect.suspended (h : Effect maxLocks s t now hook s') (hsuspended : s.Suspended t)
    (hn : (s.held t).n ≠ 0) (hn' : (s'.held t).n ≠ 0) : s'.Suspended t := by
  by_cases hwait : hook = .cndWait
  · subst hwait
    exact h.suspended_of_wait
  · obtain hsame | ⟨hzero, -⟩ | ⟨hzero, -⟩ := h.start_cases hwait
    · exact hsame.trans hsuspended
    · exact absurd hzero hn'
    · exact absurd hzero hn

end Core

namespace DeadlockMonitor

/-- The watchdog reads the object of a thread that holds a lock. -/
theorem starts_syncPtr {maxLocks : Nat} {m : DeadlockMonitor} {t : ThreadId}
    (hn : (m.locksHeld maxLocks t).n ≠ 0) :
    m.starts (m.syncPtr t) = (m.locksHeld maxLocks t).lockStartTimePoint := by
  unfold starts syncLocks
  rw [show (m.syncPtr t).owner = t from rfl]
  cases hheld : (m.threadLocals t).syncLocksHeld with
  | some held => simp [locksHeld, hheld]
  | none =>
    simp only [locksHeld, hheld, Option.getD_none] at hn
    exact absurd rfl hn

end DeadlockMonitor

namespace Polled
open CppGuard.Core

variable {maxLocks now : Nat} {s s' : Polled} {task : Task} {t : ThreadId}

/-- The thread holds a lock. -/
def Holding (maxLocks : Nat) (t : ThreadId) (s : Polled) : Prop :=
  (s.config.monitor.locksHeld maxLocks t).n ≠ 0

instance (maxLocks : Nat) (t : ThreadId) : DecidablePred (Holding maxLocks t) :=
  fun _ => inferInstanceAs (Decidable (_ ≠ _))

/-- A hook of the thread has its effect; every other step leaves its history alone. -/
theorem step_held (h : step maxLocks s task = some s') (t : ThreadId) :
    (∃ hook now, task = .hook ⟨t, hook, now⟩ ∧
      Effect maxLocks (s.config.core maxLocks) t now hook (s'.config.core maxLocks)) ∨
      (s'.config.core maxLocks).held t = (s.config.core maxLocks).held t := by
  obtain ⟨c, hc, -, rfl⟩ := step_eq_some h
  by_cases hhook : ∃ e, task = .hook e
  · obtain ⟨e, rfl⟩ := hhook
    have heffect := Config.step_effect hc
    by_cases ht : t = e.thread
    · subst ht
      exact Or.inl ⟨e.hook, e.now, rfl, heffect⟩
    · exact Or.inr (heffect.frame ht).1
  · push Not at hhook
    have hlocals := Config.perform_threadLocals hc hhook
    refine Or.inr ?_
    simp only [Config.core, locksHeld, hlocals]

theorem step_suspended (h : step maxLocks s task = some s')
    (hsuspended : (s.config.core maxLocks).Suspended t) (hheld : Holding maxLocks t s)
    (hheld' : Holding maxLocks t s') : (s'.config.core maxLocks).Suspended t := by
  obtain ⟨hook, now, -, heffect⟩ | hsame := step_held h t
  · exact heffect.suspended hsuspended hheld hheld'
  · exact (congrArg SynchLocksHeld.lockStartTimePoint hsame).trans hsuspended

theorem exec_suspended {tasks : List Task} (hsuspended : (s.config.core maxLocks).Suspended t)
    (hheld : Always (Holding maxLocks t) (step maxLocks) s tasks)
    (hrun : exec (step maxLocks) s tasks = some s') : (s'.config.core maxLocks).Suspended t := by
  induction tasks generalizing s with
  | nil => exact Option.some.inj hrun ▸ hsuspended
  | cons task tasks ih =>
    obtain ⟨u, hu, hrun⟩ := exec_cons.mp hrun
    obtain ⟨hholding, hrest⟩ := (always_cons hu).mp hheld
    have hheld' : Holding maxLocks t u := hrest [] List.nil_prefix u rfl
    exact ih (step_suspended hu hsuspended hholding hheld') hrest hrun

/-- No callback selects a suspended thread: the clock does not show a later time. -/
theorem not_selected_of_suspended (hsuspended : (s.config.core maxLocks).Suspended t)
    (hheld : Holding maxLocks t s) (hnow : now < 2 ^ 64) :
    (s.config.selected now).map Prod.fst ≠ some (s.config.monitor.syncPtr t) := by
  intro hselected
  obtain ⟨⟨p, d⟩, hselected, rfl⟩ := Option.map_eq_some_iff.mp hselected
  obtain ⟨-, -, -, -, -, hlt, -⟩ := Config.selected_eq_some hselected
  have hstart : s.config.monitor.starts (s.config.monitor.syncPtr t) = 2 ^ 64 - 1 :=
    (starts_syncPtr hheld).trans hsuspended
  rw [hstart] at hlt
  omega

/-- A thread with a lock calls `cppguard_cnd_wait`, in any state. As long as it holds a lock from
then on, its start time is the last value of `uint64_t`, and no callback selects it. A step that
leaves it without a lock clears the start time. -/
theorem cndWait_suspends {between : List Task} {s₁ s₁' s₂ : Polled} {now₁ : Nat}
    (hwait : step maxLocks s₁ (.hook ⟨t, .cndWait, now₁⟩) = some s₁')
    (hbetween : exec (step maxLocks) s₁' between = some s₂)
    (hheld : Always (Holding maxLocks t) (step maxLocks) s₁' between) :
    (s₂.config.monitor.locksHeld maxLocks t).lockStartTimePoint = 2 ^ 64 - 1 ∧
    (∀ now, now < 2 ^ 64 →
      (s₂.config.selected now).map Prod.fst ≠ some (s₂.config.monitor.syncPtr t)) ∧
    ∀ task s₃, step maxLocks s₂ task = some s₃ →
      (s₃.config.monitor.locksHeld maxLocks t).n = 0 →
      (s₃.config.monitor.locksHeld maxLocks t).lockStartTimePoint = 0 := by
  have hstart : (s₁'.config.core maxLocks).Suspended t := by
    obtain ⟨c, hc, -, rfl⟩ := step_eq_some hwait
    have heffect : Effect maxLocks (s₁.config.core maxLocks) t now₁ .cndWait (c.core maxLocks) :=
      Config.step_effect (e := ⟨t, .cndWait, now₁⟩) hc
    exact heffect.suspended_of_wait
  have hsuspended := exec_suspended hstart hheld hbetween
  have hholding : Holding maxLocks t s₂ := hheld.last hbetween
  refine ⟨hsuspended, fun now => not_selected_of_suspended hsuspended hholding, ?_⟩
  intro task s₃ hstep hn
  obtain ⟨hook, now, -, heffect⟩ | hsame := step_held hstep t
  · exact heffect.start_of_emptied hholding hn
  · exact absurd ((congrArg SynchLocksHeld.n hsame).symm.trans hn) hholding

/-! ## When the thread is watched again -/

/-- The thread calls `cppguard_cnd_wait`. -/
def Waits (t : ThreadId) (_ : Polled) : Task → Prop
  | .hook e => e.thread = t ∧ e.hook = .cndWait
  | _ => False

instance (t : ThreadId) (s : Polled) (task : Task) : Decidable (Waits t s task) :=
  match task with
  | .hook _ => inferInstanceAs (Decidable (_ ∧ _))
  | .timerExpired _ | .scan _ _ | .report _ | .rearm _ => isFalse id

/-- The thread has called `cppguard_cnd_wait`, and no state since then has found it without a
lock. -/
def HoldingSinceWait (maxLocks : Nat) (t : ThreadId) (s₀ : Polled) (past : List Task) : Prop :=
  Since (Waits t) (fun s _ => ¬ Holding maxLocks t s) (step maxLocks) s₀ past

instance (maxLocks : Nat) (t : ThreadId) (s₀ : Polled) (past : List Task) :
    Decidable (HoldingSinceWait maxLocks t s₀ past) :=
  inferInstanceAs (Decidable (Since ..))

/-- A thread calls `cppguard_cnd_wait` with a mutex that it holds. -/
def WaitsWithLock (maxLocks : Nat) (t : ThreadId) (s : Polled) (task : Task) : Prop :=
  Waits t s task → Holding maxLocks t s

instance (maxLocks : Nat) (t : ThreadId) (s : Polled) (task : Task) :
    Decidable (WaitsWithLock maxLocks t s task) :=
  inferInstanceAs (Decidable (_ → _))

/-- A wait suspends the thread, whatever its start time was. -/
theorem step_waits (h : step maxLocks s task = some s') (hwaits : Waits t s task)
    (hheld : Holding maxLocks t s) :
    (s'.config.core maxLocks).Suspended t ∧ Holding maxLocks t s' := by
  cases task with
  | hook e =>
    obtain ⟨u, hook, now⟩ := e
    obtain ⟨rfl, rfl⟩ : u = t ∧ hook = .cndWait := hwaits
    obtain ⟨c, hc, -, rfl⟩ := step_eq_some h
    have heffect : Effect maxLocks (s.config.core maxLocks) u now .cndWait (c.core maxLocks) :=
      Config.step_effect (e := ⟨u, .cndWait, now⟩) hc
    refine ⟨heffect.suspended_of_wait, ?_⟩
    change ((c.core maxLocks).held u).n ≠ 0
    have hn : ((s.config.core maxLocks).held u).n ≠ 0 := hheld
    generalize c.core maxLocks = core at heffect
    cases heffect
    simpa using hn
  | _ => exact hwaits.elim

/-- A step that leaves the thread without a lock clears its start time. -/
theorem step_emptied (h : step maxLocks s task = some s') (hheld : Holding maxLocks t s)
    (hheld' : ¬ Holding maxLocks t s') : (s'.config.core maxLocks).start t = 0 := by
  obtain ⟨hook, now, -, heffect⟩ | hsame := step_held h t
  · exact heffect.start_of_emptied hheld (not_not.mp hheld')
  · exact absurd ((congrArg SynchLocksHeld.n hsame).trans_ne hheld) hheld'

/-- Without a wait a start time stays one that the clock has shown. -/
theorem step_start_le (h : step maxLocks s task = some s') (hwaits : ¬ Waits t s task)
    (hle : (s.config.core maxLocks).start t ≤ s.clock) :
    (s'.config.core maxLocks).start t ≤ s'.clock := by
  have heffect := step_held h t
  obtain ⟨c, -, hclock, rfl⟩ := step_eq_some h
  obtain ⟨hook, now, rfl, heffect⟩ | hsame := heffect
  · have hhook : hook ≠ .cndWait := fun heq => hwaits ⟨rfl, heq⟩
    obtain hsame | ⟨-, hzero⟩ | ⟨-, hnow, -⟩ := heffect.start_cases hhook
    · exact hsame.trans_le (hle.trans hclock)
    · exact hzero.trans_le (Nat.zero_le _)
    · exact hnow.le
  · exact (congrArg SynchLocksHeld.lockStartTimePoint hsame).trans_le (hle.trans hclock)

/-- Without a wait the start time stays, as long as the thread keeps a lock. -/
theorem step_start_eq (h : step maxLocks s task = some s') (hwaits : ¬ Waits t s task)
    (hheld : Holding maxLocks t s) (hheld' : Holding maxLocks t s') :
    (s'.config.core maxLocks).start t = (s.config.core maxLocks).start t := by
  obtain ⟨hook, now, rfl, heffect⟩ | hsame := step_held h t
  · have hhook : hook ≠ .cndWait := fun heq => hwaits ⟨rfl, heq⟩
    obtain hsame | ⟨hzero, -⟩ | ⟨hzero, -⟩ := heffect.start_cases hhook
    · exact hsame
    · exact absurd hzero hheld'
    · exact absurd hzero hheld
  · exact congrArg SynchLocksHeld.lockStartTimePoint hsame

theorem holdingSinceWait_concat {s₀ : Polled} {past : List Task}
    (hrun : exec (step maxLocks) s₀ past = some s) (hstep : step maxLocks s task = some s') :
    HoldingSinceWait maxLocks t s₀ (past ++ [task]) ↔
      Waits t s task ∨ Holding maxLocks t s ∧ HoldingSinceWait maxLocks t s₀ past := by
  rw [HoldingSinceWait, since_concat hrun hstep, not_not]
  rfl

/-- A thread that keeps a lock and is not suspended in the end was not suspended before. -/
theorem exec_start_eq {s₀ : Polled} {past tasks : List Task}
    (hpast : exec (step maxLocks) s₀ past = some s)
    (hrun : exec (step maxLocks) s tasks = some s')
    (hheld : Always (Holding maxLocks t) (step maxLocks) s tasks)
    (hno : ¬ HoldingSinceWait maxLocks t s₀ (past ++ tasks)) :
    ¬ HoldingSinceWait maxLocks t s₀ past ∧
      (s'.config.core maxLocks).start t = (s.config.core maxLocks).start t := by
  induction tasks using List.reverseRecOn generalizing s' with
  | nil =>
    obtain rfl := Option.some.inj hrun
    exact ⟨by simpa using hno, rfl⟩
  | append_singleton tasks task ih =>
    obtain ⟨u, hu, hstep⟩ := exec_concat.mp hrun
    have hbefore : Always (Holding maxLocks t) (step maxLocks) s tasks :=
      fun es' hes' => hheld es' (hes'.trans (List.prefix_append _ _))
    have hholding : Holding maxLocks t u := hbefore.last hu
    rw [← List.append_assoc, holdingSinceWait_concat (exec_append.mpr ⟨s, hpast, hu⟩) hstep] at hno
    obtain ⟨hwaits, hsince⟩ := not_or.mp hno
    obtain ⟨hpast', hstart⟩ := ih hu hbefore fun h => hsince ⟨hholding, h⟩
    exact ⟨hpast', (step_start_eq hstep hwaits hholding (hheld.last hrun)).trans hstart⟩

/-- The start time tells whether the thread still holds the locks with which it has waited. -/
structure Watched (maxLocks : Nat) (t : ThreadId) (s₀ : Polled) (past : List Task) (s : Polled) :
    Prop where
  suspended : HoldingSinceWait maxLocks t s₀ past → Holding maxLocks t s →
    (s.config.core maxLocks).Suspended t
  start_le : ¬ (HoldingSinceWait maxLocks t s₀ past ∧ Holding maxLocks t s) →
    (s.config.core maxLocks).start t ≤ s.clock
  clock_lt : s.clock < 2 ^ 64

theorem Watched.step {s₀ : Polled} {past : List Task} (h : Watched maxLocks t s₀ past s)
    (hrun : exec (step maxLocks) s₀ past = some s) (hlock : WaitsWithLock maxLocks t s task)
    (hstep : Polled.step maxLocks s task = some s') :
    Watched maxLocks t s₀ (past ++ [task]) s' := by
  have hsince := @holdingSinceWait_concat maxLocks s s' task t s₀ past hrun hstep
  have hclock : s'.clock < 2 ^ 64 := by
    unfold Polled.step at hstep
    simp only at hstep
    split_ifs at hstep with hlt
    obtain ⟨c, -, rfl⟩ := Option.map_eq_some_iff.mp hstep
    exact hlt.2
  by_cases hwaits : Waits t s task
  · obtain ⟨hsuspended, hheld'⟩ := step_waits hstep hwaits (hlock hwaits)
    refine ⟨fun _ _ => hsuspended, fun hno => ?_, hclock⟩
    exact absurd ⟨hsince.mpr (Or.inl hwaits), hheld'⟩ hno
  · by_cases hstill : HoldingSinceWait maxLocks t s₀ past ∧ Holding maxLocks t s
    · obtain ⟨hpast, hheld⟩ := hstill
      refine ⟨fun _ => step_suspended hstep (h.suspended hpast hheld) hheld, fun hno => ?_, hclock⟩
      have hheld' : ¬ Holding maxLocks t s' := fun hheld' =>
        hno ⟨hsince.mpr (Or.inr ⟨hheld, hpast⟩), hheld'⟩
      exact (step_emptied hstep hheld hheld').trans_le (Nat.zero_le _)
    · refine ⟨fun hnow _ => ?_, fun _ => step_start_le hstep hwaits (h.start_le hstill), hclock⟩
      exact absurd ((hsince.mp hnow).resolve_left hwaits).symm hstill

theorem exec_watched {options : RuntimeOptions} {debuggerPresent timerQueue : Bool}
    {tasks : List Task}
    (hrun : exec (step maxLocks) { config := .start options debuggerPresent timerQueue } tasks =
      some s)
    (hlock : Along (WaitsWithLock maxLocks t) (step maxLocks)
      { config := .start options debuggerPresent timerQueue } tasks) :
    Watched maxLocks t { config := .start options debuggerPresent timerQueue } tasks s := by
  induction tasks using List.reverseRecOn generalizing s with
  | nil =>
    obtain rfl := Option.some.inj hrun
    exact ⟨False.elim, fun _ => Nat.zero_le _, Nat.two_pow_pos 64⟩
  | append_singleton tasks task ih =>
    obtain ⟨u, hu, hstep⟩ := exec_concat.mp hrun
    obtain ⟨hbefore, hlast, -⟩ := (along_append hu).mp hlock
    exact (ih hu hbefore).step hu hlast hstep

/-- In every run in which a thread calls `cppguard_cnd_wait` with locks that it holds, any number
of times, and then keeps a lock from some state on: its start time is not later than that state if
and only if it has been without a lock since its last wait. If it has not, no callback selects it.
If it has, a callback finds it overlong once it has kept the lock for the maximal duration. -/
theorem resumed_iff {options : RuntimeOptions} {debuggerPresent timerQueue : Bool}
    {past tasks : List Task} {u : Polled}
    (hpast : exec (step maxLocks) { config := .start options debuggerPresent timerQueue } past =
      some u)
    (hrun : exec (step maxLocks) u tasks = some s)
    (hheld : Always (Holding maxLocks t) (step maxLocks) u tasks)
    (hlock : Along (WaitsWithLock maxLocks t) (step maxLocks)
      { config := .start options debuggerPresent timerQueue } (past ++ tasks)) :
    ((s.config.monitor.locksHeld maxLocks t).lockStartTimePoint ≤ u.clock ↔
      ¬ HoldingSinceWait maxLocks t { config := .start options debuggerPresent timerQueue }
        (past ++ tasks) ∨ u.clock = 2 ^ 64 - 1) ∧
    (HoldingSinceWait maxLocks t { config := .start options debuggerPresent timerQueue }
        (past ++ tasks) →
      ∀ now, now < 2 ^ 64 →
        (s.config.selected now).map Prod.fst ≠ some (s.config.monitor.syncPtr t)) ∧
    (¬ HoldingSinceWait maxLocks t { config := .start options debuggerPresent timerQueue }
        (past ++ tasks) →
      ∀ o maxDurationSec now, o.syncPtr = s.config.monitor.syncPtr t →
        (s.config.monitor.locksHeld maxLocks t).lockStartTimePoint ≠ 0 →
        u.clock + maxDurationSec * 1000 ≤ now →
        ThreadWatchdog.Overlong s.config.monitor.starts maxDurationSec now o) := by
  have hu := exec_watched hpast ((along_append hpast).mp hlock).1
  have hs := exec_watched (exec_append.mpr ⟨u, hpast, hrun⟩) hlock
  have hholding : Holding maxLocks t s := hheld.last hrun
  have hclock := hu.clock_lt
  by_cases hsince : HoldingSinceWait maxLocks t
      { config := .start options debuggerPresent timerQueue } (past ++ tasks)
  · have hsuspended := hs.suspended hsince hholding
    have hstart : (s.config.monitor.locksHeld maxLocks t).lockStartTimePoint = 2 ^ 64 - 1 :=
      hsuspended
    refine ⟨?_, fun _ now => not_selected_of_suspended hsuspended hholding, absurd hsince⟩
    rw [hstart]
    constructor
    · exact fun hle => Or.inr (by omega)
    · exact fun hclock' => (hclock'.resolve_left (not_not_intro hsince)).ge
  · obtain ⟨hbefore, hsame⟩ := exec_start_eq hpast hrun hheld hsince
    have hle : (s.config.monitor.locksHeld maxLocks t).lockStartTimePoint ≤ u.clock :=
      hsame.trans_le (hu.start_le fun hstill => hbefore hstill.1)
    refine ⟨iff_of_true hle (Or.inl hsince), fun hsuspended => absurd hsuspended hsince, ?_⟩
    intro _ o maxDurationSec now ho hne hnow
    rw [ThreadWatchdog.Overlong, ho, starts_syncPtr hholding]
    exact ⟨hne, by omega⟩

/-- A thread enters a mutex. -/
def waiting : List Task :=
  [.hook ⟨1, .beforeLock 16, 1⟩, .hook ⟨1, .inLock 0, 1⟩, .timerExpired 0]

/-- The wait is over, and the thread enters another mutex and leaves the first one. -/
def returned : List Task :=
  [.hook ⟨1, .beforeLock 32, 2⟩, .hook ⟨1, .inLock 0, 2⟩, .hook ⟨1, .afterLock 16, 3⟩]

/-- What the runs of the two examples have in common. -/
theorem exec_returned : ∃ s₁ s₁' s₂,
    exec (step 20) { config := .start {} false true } waiting = some s₁ ∧
    step 20 s₁ (.hook ⟨1, .cndWait, 1⟩) = some s₁' ∧
    exec (step 20) s₁' returned = some s₂ ∧ Always (Holding 20 1) (step 20) s₁' returned ∧
    s₂.clock < (s₂.config.monitor.locksHeld 20 1).lockStartTimePoint ∧
    s₂.config.monitor.threadWatchdog.threads = [⟨⟨1, 0⟩, 1, false⟩] ∧
    (step 20 s₂ (.scan 10000000 0)).isSome = true ∧ s₂.config.selected 10000000 = none := by
  obtain ⟨s₁, hbefore, hrest⟩ : ∃ s₁,
      exec (step 20) { config := .start {} false true } waiting = some s₁ ∧
      (step 20 s₁ (.hook ⟨1, .cndWait, 1⟩)).any (fun s₁' =>
        decide (Always (Holding 20 1) (step 20) s₁' returned) &&
        (exec (step 20) s₁' returned).any fun s₂ => decide (
          s₂.clock < (s₂.config.monitor.locksHeld 20 1).lockStartTimePoint ∧
          s₂.config.monitor.threadWatchdog.threads = [⟨⟨1, 0⟩, 1, false⟩] ∧
          (step 20 s₂ (.scan 10000000 0)).isSome = true ∧
          s₂.config.selected 10000000 = none)) = true :=
    exists_exec (by decide +kernel)
  obtain ⟨s₁', hwait, hrest⟩ := (Option.any_eq_true _ _).mp hrest
  obtain ⟨hheld, hrest⟩ := (Bool.and_eq_true _ _).mp hrest
  obtain ⟨s₂, hbetween, hlast⟩ := (Option.any_eq_true _ _).mp hrest
  exact ⟨s₁, s₁', s₂, hbefore, hwait, hbetween, of_decide_eq_true hheld, of_decide_eq_true hlast⟩

/-- The thread still holds the other mutex long after the wait, and no callback finds it. -/
theorem cndWait_not_resumed : ¬ ∀ maxLocks options debuggerPresent timerQueue before between t now
    s₁ s₁' s₂, exec (step maxLocks) { config := .start options debuggerPresent timerQueue }
      before = some s₁ →
    step maxLocks s₁ (.hook ⟨t, .cndWait, now⟩) = some s₁' →
    exec (step maxLocks) s₁' between = some s₂ →
    Always (Holding maxLocks t) (step maxLocks) s₁' between →
    (∃ hook later, hook ≠ .cndWait ∧ .hook ⟨t, hook, later⟩ ∈ between) →
    (s₂.config.monitor.locksHeld maxLocks t).lockStartTimePoint ≤ s₂.clock := by
  intro h
  obtain ⟨s₁, s₁', s₂, hbefore, hwait, hbetween, hheld, hlt, -⟩ := exec_returned
  refine absurd (h 20 {} false true _ _ 1 1 s₁ s₁' s₂ hbefore hwait hbetween hheld ?_)
    (Nat.not_le.mpr hlt)
  exact ⟨.beforeLock 32, 2, by decide, by decide⟩

/-- The thread waits, leaves the mutex and enters another one. -/
def leftAndEntered : List Task :=
  waiting ++ [.hook ⟨1, .cndWait, 1⟩, .hook ⟨1, .afterLock 16, 3⟩, .hook ⟨1, .beforeLock 32, 4⟩,
    .hook ⟨1, .inLock 0, 5⟩]

/-- It enters a third one inside. -/
def entersAnother : List Task :=
  [.hook ⟨1, .beforeLock 48, 20000⟩, .hook ⟨1, .inLock 0, 20000⟩]

theorem resumed_iff_sample : ∃ u s,
    exec (step 20) { config := .start {} false true } leftAndEntered = some u ∧ u.clock = 5 ∧
    exec (step 20) u entersAnother = some s ∧
    (s.config.monitor.locksHeld 20 1).lockStartTimePoint ≤ 5 ∧
    ∀ o, o.syncPtr = s.config.monitor.syncPtr 1 →
      ThreadWatchdog.Overlong s.config.monitor.starts 30 30005 o := by
  obtain ⟨u, hpast, hclock, hheld, hrest⟩ : ∃ u,
      exec (step 20) { config := .start {} false true } leftAndEntered = some u ∧
      u.clock = 5 ∧ Always (Holding 20 1) (step 20) u entersAnother ∧
      (exec (step 20) u entersAnother).any (fun s =>
        decide ((s.config.monitor.locksHeld 20 1).lockStartTimePoint ≠ 0)) = true :=
    exists_exec (by decide +kernel)
  obtain ⟨s, hrun, hstart⟩ := (Option.any_eq_true _ _).mp hrest
  have hlock : Along (WaitsWithLock 20 1) (step 20) { config := .start {} false true }
      (leftAndEntered ++ entersAnother) := by decide +kernel
  have hleft : ¬ HoldingSinceWait 20 1 { config := .start {} false true }
      (leftAndEntered ++ entersAnother) := by decide +kernel
  obtain ⟨hiff, -, hoverlong⟩ := resumed_iff hpast hrun hheld hlock
  rw [hclock] at hiff hoverlong
  exact ⟨u, s, hpast, hclock, hrun, hiff.mpr (Or.inl hleft),
    fun o ho => hoverlong hleft o 30 30005 ho (of_decide_eq_true hstart) (by decide)⟩

end Polled
end CppGuard
