import CppGuard.DeadlockMonitor.Registry
import CppGuard.Library.Transition

/-!
# Every thread that locks is watched

A thread is registered when it gets its object. If that happens in a hook that does not register
it, the thread is never watched.
-/
namespace CppGuard
open CountedList Transition DeadlockMonitor

/-- The hooks that ask for a thread to be watched. -/
def Hook.isLocking : Hook → Bool
  | .beforeLock _ | .beforeTryLock _ => true
  | _ => false

namespace Registry

/-- What the entries of a thread point to. -/
def watchedPtrs (threads : List ThreadInfo) (t : ThreadId) : List SyncPtr :=
  (threads.filter fun o => o.threadId = t).map ThreadInfo.syncPtr

variable {threads threads' : List ThreadInfo} {t u : ThreadId}

theorem watchedPtrs_congr (h : threads'.map (fun o => (o.syncPtr, o.threadId)) =
    threads.map fun o => (o.syncPtr, o.threadId)) (t : ThreadId) :
    watchedPtrs threads' t = watchedPtrs threads t := by
  have hids : ∀ threads : List ThreadInfo, watchedPtrs threads t =
      ((threads.map fun o => (o.syncPtr, o.threadId)).filter fun e => e.2 = t).map Prod.fst := by
    intro threads
    rw [List.filter_map, List.map_map]
    rfl
  rw [hids, hids, h]

theorem watchedPtrs_append (threads threads' : List ThreadInfo) (t : ThreadId) :
    watchedPtrs (threads ++ threads') t = watchedPtrs threads t ++ watchedPtrs threads' t := by
  simp [watchedPtrs]

theorem watchedPtrs_of_perm (h : threads'.Perm threads) (t : ThreadId) :
    (watchedPtrs threads' t).Perm (watchedPtrs threads t) :=
  (h.filter _).map _

theorem watchedPtrs_without_other (threads : List ThreadInfo) (hu : t ≠ u) :
    (watchedPtrs (ThreadWatchdog.withoutThread threads u) t).Perm (watchedPtrs threads t) := by
  obtain ⟨-, hsame⟩ | ⟨a, o, b, rfl, ho, hwithout⟩ :=
    ThreadWatchdog.withoutThread_cases threads u
  · rw [hsame]
  · have hperm := watchedPtrs_of_perm ((closeGap_perm b).append_left a) t
    rw [hwithout]
    refine hperm.trans (List.Perm.of_eq ?_)
    have hne : ¬ o.threadId = t := fun h => hu (h.symm.trans ho)
    simp [watchedPtrs, hne]

/-- The only entry of a thread is removed. -/
theorem watchedPtrs_without {p : SyncPtr} (h : watchedPtrs threads t = [p]) :
    watchedPtrs (ThreadWatchdog.withoutThread threads t) t = [] := by
  obtain ⟨hnone, -⟩ | ⟨a, o, b, rfl, ho, hwithout⟩ :=
    ThreadWatchdog.withoutThread_cases threads t
  · have hnil : watchedPtrs threads t = [] := by
      simp only [watchedPtrs, List.map_eq_nil_iff, List.filter_eq_nil_iff, decide_eq_true_eq]
      exact hnone
    cases hnil.symm.trans h
  · have hsplit : watchedPtrs (a ++ o :: b) t =
        watchedPtrs a t ++ o.syncPtr :: watchedPtrs b t := by simp [watchedPtrs, ho]
    have hlength := congrArg List.length (hsplit.symm.trans h)
    simp only [List.length_append, List.length_cons, List.length_nil] at hlength
    have hperm := watchedPtrs_of_perm ((closeGap_perm b).append_left a) t
    rw [hwithout]
    apply List.length_eq_zero_iff.mp
    rw [hperm.length_eq, watchedPtrs_append, List.length_append]
    omega

/-- A thread that was registered has an object, and one entry, which points to it. -/
structure Registers (r : Registry) (t : ThreadId) : Prop where
  enabled : r.options.threadWatchdogEnabled = true
  tracked : r.registered t = true → r.tracked t = true
  entries : watchedPtrs r.watchdog.threads t =
    if r.registered t = true then [⟨t, r.address t⟩] else []

variable {r : Registry} {tl : ThreadLocal} {hook : Hook} {monitorThread : Bool}

theorem Registers.congr (h : Registers r t) {watchdog : ThreadWatchdog}
    (hids : watchdog.threads.map (fun o => (o.syncPtr, o.threadId)) =
      r.watchdog.threads.map fun o => (o.syncPtr, o.threadId)) :
    Registers { r with watchdog } t :=
  ⟨h.enabled, h.tracked, (watchedPtrs_congr hids t).trans h.entries⟩

theorem Registers.track (h : Registers r t) (u : ThreadId) : Registers (r.track u) t := by
  refine ⟨h.enabled, fun hregistered => ?_, h.entries⟩
  have htracked := h.tracked hregistered
  unfold Registry.track
  grind [Function.update_apply]

/-- A thread that has no object was not registered. -/
theorem Registers.not_registered (h : Registers r t) (hnew : ¬ r.tracked u = true) (hself : t = u) :
    ¬ r.registered t = true := by
  subst hself
  exact fun hregistered => hnew (h.tracked hregistered)

theorem Registers.create (h : Registers r t) (hnew : ¬ r.tracked u = true) :
    Registers (r.create u) t := by
  refine ⟨h.enabled, (h.track u).tracked, ?_⟩
  have hentries := h.entries
  have hnot := h.not_registered hnew
  simp only [Registry.create, Registry.track]
  grind [Function.update_apply]

/-- The thread that is registered has no entry yet. -/
theorem Registers.watch (h : Registers r t) (htracked : r.tracked u = true)
    (hnew : t = u → ¬ r.registered t = true) : Registers (r.watch u) t := by
  have hentries := h.entries
  refine ⟨h.enabled, fun hregistered => ?_, ?_⟩
  · have := h.tracked
    simp only [Registry.watch] at hregistered ⊢
    grind [Function.update_apply]
  · simp only [Registry.watch, ThreadWatchdog.addThread_list, h.enabled, if_true,
      watchedPtrs_append, hentries]
    by_cases hself : t = u
    · subst hself
      simp [watchedPtrs, hnew rfl]
    · have hself' : ¬ u = t := fun heq => hself heq.symm
      simp [watchedPtrs, hself, hself']

theorem Registers.get (h : Registers r t) (u : ThreadId) (monitorThread : Bool) :
    Registers (r.get u monitorThread) t := by
  unfold Registry.get
  split_ifs with htracked hmonitor
  · exact h
  · exact (h.create htracked).watch (Function.update_self ..) (h.not_registered htracked)
  · exact h.create htracked

theorem Registers.exit (h : Registers r t) (u : ThreadId) : Registers (r.exit u) t := by
  have hentries := h.entries
  have hremoved : (r.watchdog.removeThread r.options u).threads =
      ThreadWatchdog.withoutThread r.watchdog.threads u := by
    rw [ThreadWatchdog.removeThread_list, if_pos h.enabled]
  by_cases hself : t = u
  · subst hself
    refine ⟨h.enabled, fun hregistered => ?_, ?_⟩
    · simp [Registry.exit] at hregistered
    · simp only [Registry.exit, Function.update_self, Bool.false_eq_true, if_false]
      split_ifs with hregistered
      · rw [if_pos hregistered] at hentries
        rw [hremoved]
        exact watchedPtrs_without hentries
      · rw [if_neg hregistered] at hentries
        exact hentries
  · refine ⟨h.enabled, fun hregistered => ?_, ?_⟩
    · have := h.tracked
      simp only [Registry.exit] at hregistered ⊢
      grind [Function.update_apply]
    · simp only [Registry.exit, Function.update_of_ne hself]
      rw [← hentries]
      split_ifs with hother
      · have hperm := watchedPtrs_without_other r.watchdog.threads hself
        rw [hremoved]
        rw [hentries] at hperm ⊢
        split_ifs at hperm ⊢
        · exact List.perm_singleton.mp hperm
        · exact List.perm_nil.mp hperm
      · rfl

/-- Every hook keeps the registry in order, while the watchdog is enabled. -/
theorem Registers.call (h : Registers r t) (tl : ThreadLocal) (u : ThreadId)
    (henabled : ∀ options, hook = .setOptions options → options.threadWatchdogEnabled = true) :
    Registers (r.call tl u hook) t := by
  apply call_cases (P := fun r => Registers r t)
  · exact h
  · exact h.track u
  · exact h.get u
  · exact fun options hoptions => ⟨henabled options hoptions, h.tracked, h.entries⟩
  · exact fun _ => h.exit u

/-- A thread that was registered stays registered until its end. -/
theorem registered_call (h : r.registered t = true) (hexit : u = t → hook ≠ .threadDelete) :
    (r.call tl u hook).registered t = true := by
  apply call_cases (P := fun r => r.registered t = true)
  · exact h
  · exact h
  · intro monitorThread
    unfold Registry.get
    split_ifs
    · exact h
    · simp only [watch, create, track]
      grind [Function.update_apply]
    · exact h
  · exact fun _ _ => h
  · intro hdelete
    have hne : t ≠ u := fun heq => hexit heq.symm hdelete
    exact (Function.update_of_ne hne _ _).trans h

theorem call_of_isLocking (h : hook.isLocking = true) (hcounter : tl.ignoreCounterLock = 0) :
    r.call tl t hook = r.get t true := by
  cases hook with
  | beforeLock mu => simp [Registry.call, hcounter]
  | beforeTryLock mu => rfl
  | _ => cases h

/-- A thread without an object is registered when it locks. -/
theorem registered_get (h : ¬ r.tracked t = true) : (r.get t true).registered t = true := by
  unfold Registry.get
  rw [if_neg h, if_pos rfl]
  exact Function.update_self ..

end Registry

/-! ## Runs -/

namespace Config

/-- The watchdog has one entry for the thread, and it points to the object of the thread. -/
def Watched (t : ThreadId) (c : Config) : Prop :=
  (c.monitor.threadLocals t).syncLocksHeld.isSome = true ∧
    (c.monitor.threadWatchdog.threads.filter fun o => o.threadId = t).map ThreadInfo.syncPtr =
      [c.monitor.syncPtr t]

/-- The thread calls a hook before it locks, and is not ignored. -/
def locks (t : ThreadId) (c : Config) : Task → Bool
  | .hook e => decide (e.thread = t) && e.hook.isLocking &&
    (c.monitor.threadLocals t).ignoreCounterLock == 0
  | _ => false

/-- If the thread locks, it has no object yet, or it was registered when it got it. -/
def RegistersOnLocking (t : ThreadId) (c : Config) (task : Task) : Prop :=
  c.locks t task = true → (c.monitor.threadLocals t).syncLocksHeld.isSome = true →
    (c.monitor.threadLocals t).synchLocksDeleter = true

end Config

def Task.isExit (t : ThreadId) : Task → Bool
  | .hook e => decide (e.thread = t) && decide (e.hook = .threadDelete)
  | _ => false

def Task.KeepsWatchdog : Task → Prop
  | .hook e => ∀ options, e.hook = .setOptions options → options.threadWatchdogEnabled = true
  | _ => True

/-- The monitor, and whether a thread has locked since it began. -/
structure LockingThread where
  config : Config := {}
  hasLocked : Bool := false

namespace LockingThread

def step (maxLocks : Nat) (t : ThreadId) (s : LockingThread) (task : Task) :
    Option LockingThread :=
  (s.config.perform maxLocks task).map fun c =>
    { config := c
      hasLocked := !task.isExit t && (s.hasLocked || s.config.locks t task) }

/-- From its first locking call until its end a thread is watched. -/
def WatchedOnceLocked (t : ThreadId) (s : LockingThread) : Prop :=
  s.hasLocked = true → s.config.Watched t

structure Inv (t : ThreadId) (s : LockingThread) : Prop where
  registers : s.config.monitor.registry.Registers t
  hasLocked : s.hasLocked = true → (s.config.monitor.threadLocals t).synchLocksDeleter = true

variable {maxLocks : Nat} {s s' : LockingThread} {t : ThreadId} {task : Task}

theorem Inv.watched (h : Inv t s) (hlocked : s.hasLocked = true) : s.config.Watched t := by
  have hregistered : s.config.monitor.registry.registered t = true := h.hasLocked hlocked
  have hentries := h.registers.entries
  rw [if_pos hregistered] at hentries
  exact ⟨h.registers.tracked hregistered, hentries⟩

theorem Inv.kept (h : Inv t s) (hcondition : s.config.RegistersOnLocking t task)
    (hkeeps : task.KeepsWatchdog) (hstep : step maxLocks t s task = some s') : Inv t s' := by
  obtain ⟨c, hc, rfl⟩ := Option.map_eq_some_iff.mp hstep
  by_cases hhook : ∃ e, task = .hook e
  · obtain ⟨e, rfl⟩ := hhook
    have hregistry := Config.step_registry hc
    have hregisters := h.registers.call (s.config.monitor.threadLocals e.thread) e.thread hkeeps
    rw [← hregistry] at hregisters
    refine ⟨hregisters, fun hlocked => ?_⟩
    change c.monitor.registry.registered t = true
    rw [hregistry]
    simp only [Task.isExit, Bool.and_eq_true, Bool.not_eq_true', Bool.or_eq_true,
      Bool.and_eq_false_iff, decide_eq_false_iff_not] at hlocked
    obtain ⟨hexit, hlocked | hlocks⟩ := hlocked
    · refine Registry.registered_call (h.hasLocked hlocked) fun heq => ?_
      exact hexit.resolve_left fun hne => hne heq
    · have hall := hlocks
      simp only [Config.locks, Bool.and_eq_true, decide_eq_true_eq, beq_iff_eq] at hall
      obtain ⟨⟨rfl, hlocking⟩, hcounter⟩ := hall
      by_cases htracked : s.config.monitor.registry.tracked e.thread = true
      · refine Registry.registered_call (hcondition hlocks htracked) fun _ heq => ?_
        rw [heq] at hlocking
        cases hlocking
      · rw [Registry.call_of_isLocking hlocking hcounter]
        exact Registry.registered_get htracked
  · push Not at hhook
    obtain ⟨w, hregistry, hthreads, -⟩ := Config.perform_registry hc hhook
    refine ⟨?_, fun hlocked => ?_⟩
    · have hids := s.config.scanned_ids task
      rw [← hthreads] at hids
      have hregisters := h.registers.congr hids
      rwa [← hregistry] at hregisters
    · have hsame : c.monitor.registry.registered t = s.config.monitor.registry.registered t := by
        rw [hregistry]
      cases task with
      | hook e => exact absurd rfl (hhook e)
      | timerExpired i | scan now i | report i | rearm i =>
        simp only [Task.isExit, Config.locks, Bool.not_false, Bool.true_and, Bool.or_false]
          at hlocked
        exact hsame.trans (h.hasLocked hlocked)

/-- A thread that was not registered when it got its object locks without being watched. -/
theorem Inv.not_watched (h : Inv t s) (hcondition : ¬ s.config.RegistersOnLocking t task)
    (hstep : step maxLocks t s task = some s') : ¬ WatchedOnceLocked t s' := by
  obtain ⟨c, hc, rfl⟩ := Option.map_eq_some_iff.mp hstep
  unfold Config.RegistersOnLocking at hcondition
  push Not at hcondition
  obtain ⟨hlocks, htracked, hregistered⟩ := hcondition
  cases task with
  | hook e =>
    have hall := hlocks
    simp only [Config.locks, Bool.and_eq_true, decide_eq_true_eq, beq_iff_eq] at hall
    obtain ⟨⟨rfl, hlocking⟩, hcounter⟩ := hall
    have hexit : (Task.hook e).isExit e.thread = false := by
      cases hhook : e.hook with
      | threadDelete =>
        rw [hhook] at hlocking
        cases hlocking
      | _ => simp [Task.isExit, hhook]
    intro hwatched
    obtain ⟨-, hentry⟩ := hwatched (by simp [hexit, hlocks])
    have hget : s.config.monitor.registry.get e.thread true = s.config.monitor.registry :=
      if_pos htracked
    have hregistry : c.monitor.registry = s.config.monitor.registry := by
      rw [Config.step_registry hc, Registry.call_of_isLocking hlocking hcounter, hget]
    have hnone : Registry.watchedPtrs s.config.monitor.registry.watchdog.threads e.thread = [] :=
      h.registers.entries.trans (if_neg hregistered)
    rw [← hregistry] at hnone
    cases hnone.symm.trans hentry
  | _ => cases hlocks

/-- A thread is watched from its first locking call on if and only if it never locks with an object
that it got from a hook that does not register it. -/
theorem watchedOnceLocked_iff {options : RuntimeOptions} {debuggerPresent timerQueue : Bool}
    {tasks : List Task} (henabled : options.threadWatchdogEnabled = true)
    (hkeeps : ∀ task ∈ tasks, task.KeepsWatchdog)
    (hrun : exec (step maxLocks t) { config := .start options debuggerPresent timerQueue } tasks =
      some s) :
    Always (WatchedOnceLocked t) (step maxLocks t)
        { config := .start options debuggerPresent timerQueue } tasks ↔
      Along (fun s task => s.config.RegistersOnLocking t task) (step maxLocks t)
        { config := .start options debuggerPresent timerQueue } tasks := by
  have hstart : Inv t { config := .start options debuggerPresent timerQueue } := by
    refine ⟨⟨henabled, nofun, ?_⟩, nofun⟩
    rfl
  exact always_iff_along (I := Inv t) (fun _ h => h.watched)
    (fun s task hmem s' h hcondition hstep => h.kept hcondition (hkeeps task hmem) hstep)
    (fun s task _ s' h hcondition hstep => h.not_watched hcondition hstep) hstart hrun

/-- A thread deletes a lock before it locks one. -/
def deleteFirst : List Task :=
  [.hook ⟨1, .deleteLock 8, 1⟩, .hook ⟨1, .beforeLock 16, 1⟩]

theorem exec_deleteFirst : ∃ s,
    exec (step 20 1) { config := .start {} false true } deleteFirst = some s ∧
    s.hasLocked = true ∧ s.config.monitor.threadWatchdog.threads = [] :=
  exists_exec (by decide +kernel)

theorem keepsWatchdog_deleteFirst : ∀ task ∈ deleteFirst, task.KeepsWatchdog := by
  simp [deleteFirst, Task.KeepsWatchdog]

theorem deleteFirst_not_watchedOnceLocked : ¬ ∀ maxLocks t options debuggerPresent timerQueue
    tasks s, options.threadWatchdogEnabled = true → (∀ task ∈ tasks, task.KeepsWatchdog) →
    exec (step maxLocks t) { config := .start options debuggerPresent timerQueue } tasks = some s →
    Always (WatchedOnceLocked t) (step maxLocks t)
      { config := .start options debuggerPresent timerQueue } tasks := by
  intro h
  obtain ⟨s, hrun, hlocked, hthreads⟩ := exec_deleteFirst
  have hwatched := h 20 1 {} false true deleteFirst s rfl keepsWatchdog_deleteFirst hrun
  obtain ⟨-, hentry⟩ := hwatched.last hrun hlocked
  rw [hthreads] at hentry
  cases hentry

theorem watchedOnceLocked_iff_sample :
    ∃ s, exec (step 20 1) { config := .start {} false true } deleteFirst = some s ∧
    (Always (WatchedOnceLocked 1) (step 20 1) { config := .start {} false true } deleteFirst ↔
      Along (fun s task => s.config.RegistersOnLocking 1 task) (step 20 1)
        { config := .start {} false true } deleteFirst) := by
  obtain ⟨s, hrun, -⟩ := exec_deleteFirst
  exact ⟨s, hrun, watchedOnceLocked_iff rfl keepsWatchdog_deleteFirst hrun⟩

end LockingThread
end CppGuard
