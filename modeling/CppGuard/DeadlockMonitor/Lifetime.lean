import CppGuard.DeadlockMonitor.Registration

/-!
# Entries of threads that have exited

`add_thread` and `remove_thread` both look at the option, at different times. If it is switched in
between, the entry of a thread is left behind, or there is none to remove.
-/
namespace CppGuard
open CountedList Transition DeadlockMonitor

namespace Registry

/-- Whether the watchdog was enabled when a thread was registered; `r'` comes after `r`. -/
def enabledAfter (r r' : Registry) (enabledAt : ThreadId → Bool) (t : ThreadId) : Bool :=
  if (r'.registered t && !r.registered t) = true then r.options.threadWatchdogEnabled
  else enabledAt t

/-- A thread has one entry if it was registered while the watchdog was enabled. -/
structure Follows (r : Registry) (enabledAt : ThreadId → Bool) : Prop where
  tracked : ∀ t, r.registered t = true → r.tracked t = true
  entries : ∀ t, (watchedPtrs r.watchdog.threads t).length =
    if r.registered t = true ∧ enabledAt t = true then 1 else 0

variable {r r' : Registry} {enabledAt : ThreadId → Bool} {t u : ThreadId} {tl : ThreadLocal}
  {hook : Hook} {threads : List ThreadInfo}

/-- No thread was registered. -/
theorem Follows.after (h : Follows r' enabledAt)
    (hnot : ∀ t, r'.registered t = true → r.registered t = true) :
    Follows r' (r.enabledAfter r' enabledAt) := by
  have hsame : r.enabledAfter r' enabledAt = enabledAt := by
    funext t
    have := hnot t
    unfold enabledAfter
    grind
  rwa [hsame]

theorem mem_of_length_watchedPtrs (h : (watchedPtrs threads t).length = 1) :
    ∃ o ∈ threads, o.threadId = t := by
  obtain ⟨p, hp⟩ := List.length_eq_one_iff.mp h
  have hmem : p ∈ watchedPtrs threads t := by simp [hp]
  obtain ⟨o, ho, -⟩ := List.mem_map.mp hmem
  obtain ⟨ho, hid⟩ := List.mem_filter.mp ho
  exact ⟨o, ho, of_decide_eq_true hid⟩

theorem length_watchedPtrs_pos {o : ThreadInfo} (h : o ∈ threads) :
    0 < (watchedPtrs threads o.threadId).length := by
  refine List.length_pos_of_mem (a := o.syncPtr) ?_
  exact List.mem_map_of_mem (List.mem_filter.mpr ⟨h, decide_eq_true rfl⟩)

/-- Everything that leaves the registered threads and the list alone. -/
theorem Follows.congr (h : Follows r enabledAt) (registered : r'.registered = r.registered)
    (tracked : ∀ t, r.tracked t = true → r'.tracked t = true)
    (ptrs : ∀ t, watchedPtrs r'.watchdog.threads t = watchedPtrs r.watchdog.threads t) :
    Follows r' enabledAt := by
  refine ⟨fun t hregistered => tracked t (h.tracked t (registered ▸ hregistered)), fun t => ?_⟩
  rw [ptrs, registered]
  exact h.entries t

theorem Follows.track (h : Follows r enabledAt) (u : ThreadId) :
    Follows (r.track u) enabledAt := by
  refine h.congr rfl (fun t htracked => ?_) fun _ => rfl
  unfold Registry.track
  grind [Function.update_apply]

/-- A thread without an object was not registered, and has no entry. -/
theorem Follows.watch (h : Follows r enabledAt) (hnew : ¬ r.registered u = true)
    (htracked : r.tracked u = true) :
    Follows (r.watch u) (r.enabledAfter (r.watch u) enabledAt) := by
  constructor
  · intro t hregistered
    have := h.tracked t
    simp only [Registry.watch] at hregistered ⊢
    grind [Function.update_apply]
  · intro t
    have hentries := h.entries t
    simp only [Registry.watch, ThreadWatchdog.addThread_list, enabledAfter]
    by_cases hself : t = u
    · subst hself
      have hnone : watchedPtrs r.watchdog.threads t = [] := by
        rw [if_neg fun hboth => hnew hboth.1] at hentries
        exact List.length_eq_zero_iff.mp hentries
      split_ifs <;> simp_all [watchedPtrs]
    · have hother : ¬ u = t := fun heq => hself heq.symm
      have hkept : (watchedPtrs (if r.options.threadWatchdogEnabled = true then
          r.watchdog.threads ++ [{ syncPtr := ⟨u, r.address u⟩, threadId := u }]
          else r.watchdog.threads) t) = watchedPtrs r.watchdog.threads t := by
        split_ifs
        · simp [watchedPtrs, hother]
        · rfl
      rw [hkept, hentries]
      simp [Function.update_of_ne hself]

theorem Follows.get (h : Follows r enabledAt) (u : ThreadId) (monitorThread : Bool) :
    Follows (r.get u monitorThread) (r.enabledAfter (r.get u monitorThread) enabledAt) := by
  have create : ¬ r.tracked u = true → Follows (r.create u) enabledAt := fun _ =>
    (h.track u).congr rfl (fun _ htracked => htracked) fun _ => rfl
  unfold Registry.get
  split_ifs with htracked hmonitor
  · exact h.after fun _ hregistered => hregistered
  · exact (create htracked).watch (fun hregistered => htracked (h.tracked u hregistered))
      (Function.update_self ..)
  · exact (create htracked).after fun _ hregistered => hregistered

/-- A thread exits; the option is what it was when the thread was registered. -/
theorem Follows.exit (h : Follows r enabledAt) (u : ThreadId)
    (hswitch : r.registered u = true → r.options.threadWatchdogEnabled = enabledAt u) :
    Follows (r.exit u) enabledAt := by
  constructor
  · intro t hregistered
    have := h.tracked t
    simp only [Registry.exit] at hregistered ⊢
    grind [Function.update_apply]
  · intro t
    have hentries := h.entries t
    by_cases hself : t = u
    · subst hself
      simp only [Registry.exit, Function.update_self, Bool.false_eq_true, false_and, if_false]
      split_ifs with hregistered
      · rw [ThreadWatchdog.removeThread_list]
        split_ifs with henabled
        · have hone : r.registered t = true ∧ enabledAt t = true :=
            ⟨hregistered, (hswitch hregistered) ▸ henabled⟩
          rw [if_pos hone] at hentries
          obtain ⟨p, hp⟩ := List.length_eq_one_iff.mp hentries
          rw [watchedPtrs_without hp, List.length_nil]
        · rw [hentries, if_neg]
          rintro ⟨-, hat⟩
          exact henabled ((hswitch hregistered).trans hat)
      · rw [hentries, if_neg fun hboth => hregistered hboth.1]
    · have hkept : (watchedPtrs (r.exit u).watchdog.threads t).length =
          (watchedPtrs r.watchdog.threads t).length := by
        have hperm := watchedPtrs_without_other r.watchdog.threads hself
        simp only [Registry.exit]
        split_ifs
        · rw [ThreadWatchdog.removeThread_list]
          split_ifs
          · exact hperm.length_eq
          · rfl
        · rfl
      rw [hkept, hentries]
      simp [Registry.exit, Function.update_of_ne hself]

/-- A hook keeps the list in order, unless a thread exits after the option was switched. -/
theorem Follows.call (h : Follows r enabledAt) (tl : ThreadLocal) (u : ThreadId)
    (hswitch : hook = .threadDelete → r.registered u = true →
      r.options.threadWatchdogEnabled = enabledAt u) :
    Follows (r.call tl u hook) (r.enabledAfter (r.call tl u hook) enabledAt) := by
  apply call_cases (P := fun r' => Follows r' (r.enabledAfter r' enabledAt))
  · exact h.after fun _ hregistered => hregistered
  · exact (h.track u).after fun _ hregistered => hregistered
  · exact h.get u
  · intro options _
    have hset : Follows { r with options } enabledAt :=
      h.congr rfl (fun _ htracked => htracked) fun _ => rfl
    exact hset.after fun _ hregistered => hregistered
  · intro hdelete
    refine (h.exit u (hswitch hdelete)).after fun t hregistered => ?_
    simp only [Registry.exit] at hregistered
    grind [Function.update_apply]

end Registry

/-! ## Runs -/

/-- The monitor, and for every registered thread whether the watchdog was enabled then. -/
structure Lifetimes where
  config : Config := {}
  enabledAt : ThreadId → Bool := fun _ => false

namespace Lifetimes

def step (maxLocks : Nat) (s : Lifetimes) (task : Task) : Option Lifetimes :=
  (s.config.perform maxLocks task).map fun c =>
    { config := c
      enabledAt := s.config.monitor.registry.enabledAfter c.monitor.registry s.enabledAt }

/-- A thread that was registered exits. -/
def Exits (s : Lifetimes) (t : ThreadId) (task : Task) : Prop :=
  (∃ now, task = .hook ⟨t, .threadDelete, now⟩) ∧
    (s.config.monitor.threadLocals t).synchLocksDeleter = true

/-- Every entry belongs to a thread that was registered and has not exited since. -/
def NoneExited (s : Lifetimes) : Prop :=
  ∀ o ∈ s.config.monitor.threadWatchdog.threads,
    (s.config.monitor.threadLocals o.threadId).synchLocksDeleter = true

/-- The `assert(false)` of `remove_thread` is not reached. -/
def FindsThread (s : Lifetimes) (task : Task) : Prop :=
  ∀ t, s.Exits t task → s.config.monitor.runtimeOptions.threadWatchdogEnabled = true →
    ∃ o ∈ s.config.monitor.threadWatchdog.threads, o.threadId = t

/-- When a registered thread exits, the watchdog is enabled or disabled as it was when the thread
was registered. -/
def KeepsSwitch (s : Lifetimes) (task : Task) : Prop :=
  ∀ t, s.Exits t task → s.config.monitor.runtimeOptions.threadWatchdogEnabled = s.enabledAt t

def Follows (s : Lifetimes) : Prop := s.config.monitor.registry.Follows s.enabledAt

variable {maxLocks : Nat} {s s' : Lifetimes} {task : Task}

theorem Follows.noneExited (h : s.Follows) : s.NoneExited := by
  intro o ho
  have hpos := (Registry.length_watchedPtrs_pos ho).trans_eq (h.entries o.threadId)
  split_ifs at hpos with hboth
  · exact hboth.1
  · exact absurd hpos (Nat.lt_irrefl 0)

theorem Follows.findsThread (h : s.Follows) (hswitch : s.KeepsSwitch task) :
    s.FindsThread task := by
  intro t hexits henabled
  apply Registry.mem_of_length_watchedPtrs
  exact (h.entries t).trans (if_pos ⟨hexits.2, (hswitch t hexits).symm.trans henabled⟩)

theorem Follows.step (h : s.Follows) (hswitch : s.KeepsSwitch task)
    (hstep : Lifetimes.step maxLocks s task = some s') : s'.Follows := by
  obtain ⟨c, hc, rfl⟩ := Option.map_eq_some_iff.mp hstep
  unfold Follows
  dsimp only
  by_cases hhook : ∃ e, task = .hook e
  · obtain ⟨⟨t, hook, now⟩, rfl⟩ := hhook
    rw [Config.step_registry hc]
    refine Registry.Follows.call h _ t fun hdelete hregistered => ?_
    obtain rfl : hook = .threadDelete := hdelete
    exact hswitch t ⟨⟨now, rfl⟩, hregistered⟩
  · push Not at hhook
    obtain ⟨w, hregistry, hthreads, -⟩ := Config.perform_registry hc hhook
    rw [hregistry]
    have hkept : Registry.Follows { s.config.monitor.registry with watchdog := w } s.enabledAt :=
      Registry.Follows.congr h rfl (fun _ htracked => htracked) fun t =>
        Registry.watchedPtrs_congr (hthreads ▸ s.config.scanned_ids task) t
    exact hkept.after fun _ hregistered => hregistered

/-- The option was switched: the entry of the thread stays, or there is none to be found. -/
theorem Follows.broken (h : s.Follows) (hswitch : ¬ s.KeepsSwitch task)
    (hstep : Lifetimes.step maxLocks s task = some s') (hfinds : s.FindsThread task) :
    ¬ s'.NoneExited := by
  obtain ⟨c, hc, rfl⟩ := Option.map_eq_some_iff.mp hstep
  unfold KeepsSwitch at hswitch
  push Not at hswitch
  obtain ⟨t, hexits, hne⟩ := hswitch
  obtain ⟨⟨now, rfl⟩, hregistered⟩ := hexits
  have hentries := h.entries t
  cases henabled : s.config.monitor.runtimeOptions.threadWatchdogEnabled with
  | true =>
    obtain ⟨o, ho, rfl⟩ := hfinds t ⟨⟨now, rfl⟩, hregistered⟩ henabled
    have hpos := Registry.length_watchedPtrs_pos ho
    have hat : ¬ s.enabledAt o.threadId = true := fun hat => hne (henabled.trans hat.symm)
    rw [if_neg fun hboth => hat hboth.2] at hentries
    exact absurd hentries hpos.ne'
  | false =>
    have hat : s.enabledAt t = true := by simpa [henabled] using hne
    rw [if_pos ⟨hregistered, hat⟩] at hentries
    obtain ⟨o, ho, rfl⟩ := Registry.mem_of_length_watchedPtrs hentries
    have hstepped : Config.step maxLocks s.config ⟨o.threadId, .threadDelete, now⟩ = some c := hc
    have hregistry := Config.step_registry hstepped
    have hthreads : c.monitor.registry.watchdog.threads =
        s.config.monitor.registry.watchdog.threads := by
      simp only [hregistry, Registry.call, Registry.exit]
      split_ifs
      · rw [ThreadWatchdog.removeThread_list, if_neg]
        exact fun htrue => by cases htrue.symm.trans henabled
      · rfl
    have hexited : c.monitor.registry.registered o.threadId = false := by
      rw [hregistry]
      exact Function.update_self ..
    intro hnone
    have hstill : o ∈ c.monitor.registry.watchdog.threads := hthreads ▸ ho
    cases hexited.symm.trans (hnone o hstill)

/-- All the time, only threads that have not exited have entries, and `remove_thread` finds the
entry of a thread, if and only if the option is never switched between the registration of a thread
and its exit so that it differs at the exit. -/
theorem entries_follow_iff {options : RuntimeOptions} {debuggerPresent timerQueue : Bool}
    {tasks : List Task}
    (hrun : exec (step maxLocks) { config := .start options debuggerPresent timerQueue } tasks =
      some s) :
    (Always NoneExited (step maxLocks) { config := .start options debuggerPresent timerQueue }
          tasks ∧
        Along FindsThread (step maxLocks) { config := .start options debuggerPresent timerQueue }
          tasks) ↔
      Along KeepsSwitch (step maxLocks) { config := .start options debuggerPresent timerQueue }
        tasks :=
  always_along_iff (I := Follows) (fun _ h => h.noneExited)
    (fun _ _ _ _ h hswitch hstep => ⟨h.step hswitch hstep, h.findsThread hswitch⟩)
    (fun _ _ _ _ h hswitch hstep hfinds => h.broken hswitch hstep hfinds)
    ⟨nofun, fun _ => rfl⟩ hrun

/-- The watchdog is switched off between the registration of a thread and its exit. -/
def switchOff : List Task :=
  [.hook ⟨1, .beforeLock 16, 1⟩, .hook ⟨2, .setOptions { threadWatchdogEnabled := false }, 1⟩,
    .hook ⟨1, .threadDelete, 1⟩]

theorem exec_switchOff : ∃ s,
    exec (step 20) { config := .start {} false true } switchOff = some s ∧
    s.config.monitor.threadWatchdog.threads = [⟨⟨1, 0⟩, 1, false⟩] ∧
    (s.config.monitor.threadLocals 1).synchLocksDeleter = false :=
  exists_exec (by decide +kernel)

theorem switchOff_not_entries_follow : ¬ ∀ maxLocks options debuggerPresent timerQueue tasks s,
    exec (step maxLocks) { config := .start options debuggerPresent timerQueue } tasks = some s →
    Always NoneExited (step maxLocks) { config := .start options debuggerPresent timerQueue }
        tasks ∧
      Along FindsThread (step maxLocks) { config := .start options debuggerPresent timerQueue }
        tasks := by
  intro h
  obtain ⟨s, hrun, hthreads, hexited⟩ := exec_switchOff
  have hnone := (h 20 {} false true switchOff s hrun).1.last hrun ⟨⟨1, 0⟩, 1, false⟩
    (by simp [hthreads])
  cases hexited.symm.trans hnone

theorem entries_follow_iff_sample : ∃ s,
    exec (step 20) { config := .start {} false true } switchOff = some s ∧
    ((Always NoneExited (step 20) { config := .start {} false true } switchOff ∧
        Along FindsThread (step 20) { config := .start {} false true } switchOff) ↔
      Along KeepsSwitch (step 20) { config := .start {} false true } switchOff) := by
  obtain ⟨s, hrun, -⟩ := exec_switchOff
  exact ⟨s, hrun, entries_follow_iff hrun⟩

end Lifetimes
end CppGuard
