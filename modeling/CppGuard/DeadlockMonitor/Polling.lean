import CppGuard.DeadlockMonitor.Registry
import CppGuard.Library.Transition

/-!
# Threads that are busy for too long

A callback reports a busy thread at most once: it marks the thread, and clears the mark when it
finds the thread idle. A thread that was idle between two callbacks only is still marked, so it is
the history of the callbacks that tells which overlong interval is reported (`Remembers`).
-/
namespace CppGuard
open Transition DeadlockMonitor

namespace Registry

/-- Every entry of the watchdog points to an object of its own. -/
structure Distinct (r : Registry) : Prop where
  nodup : (r.watchdog.threads.map ThreadInfo.syncPtr).Nodup
  address_lt : ∀ o ∈ r.watchdog.threads, o.syncPtr.address < r.nextAddress

variable {r : Registry} {t : ThreadId} {tl : ThreadLocal} {hook : Hook} {o : ThreadInfo}

/-- The list of watched threads is the same, or has an entry for a new object, or lost one. -/
def ThreadsAfter (r : Registry) (t : ThreadId) (r' : Registry) : Prop :=
  r'.watchdog.threads = r.watchdog.threads ∧ r.nextAddress ≤ r'.nextAddress ∨
  r'.watchdog.threads =
    r.watchdog.threads ++ [{ syncPtr := ⟨t, r.nextAddress⟩, threadId := t }] ∧
    r.nextAddress < r'.nextAddress ∨
  r'.watchdog.threads = ThreadWatchdog.withoutThread r.watchdog.threads t ∧
    r.nextAddress ≤ r'.nextAddress

theorem threadsAfter_call (r : Registry) (tl : ThreadLocal) (t : ThreadId) (hook : Hook) :
    r.ThreadsAfter t (r.call tl t hook) := by
  apply call_cases (P := r.ThreadsAfter t)
  · exact Or.inl ⟨rfl, Nat.le_refl _⟩
  · exact Or.inl ⟨rfl, Nat.le_refl _⟩
  · intro monitorThread
    unfold Registry.get
    split_ifs
    · exact Or.inl ⟨rfl, Nat.le_refl _⟩
    · cases henabled : r.options.threadWatchdogEnabled with
      | true =>
        refine Or.inr (Or.inl ⟨?_, Nat.lt_succ_self _⟩)
        simp [watch, create, track, ThreadWatchdog.addThread_list, henabled]
      | false =>
        refine Or.inl ⟨?_, Nat.le_succ _⟩
        simp [watch, create, track, ThreadWatchdog.addThread_list, henabled]
    · exact Or.inl ⟨rfl, Nat.le_succ _⟩
  · exact fun _ _ => Or.inl ⟨rfl, Nat.le_refl _⟩
  · intro _
    unfold Registry.ThreadsAfter Registry.exit
    dsimp only
    split_ifs
    · rw [ThreadWatchdog.removeThread_list]
      split_ifs
      · exact Or.inr (Or.inr ⟨rfl, Nat.le_refl _⟩)
      · exact Or.inl ⟨rfl, Nat.le_refl _⟩
    · exact Or.inl ⟨rfl, Nat.le_refl _⟩

theorem nextAddress_call (r : Registry) (tl : ThreadLocal) (t : ThreadId) (hook : Hook) :
    r.nextAddress ≤ (r.call tl t hook).nextAddress := by
  obtain ⟨-, h⟩ | ⟨-, h⟩ | ⟨-, h⟩ := r.threadsAfter_call tl t hook
  · exact h
  · exact h.le
  · exact h

/-- An entry is an old one, or its object is new and not marked. -/
theorem mem_call_threads (h : o ∈ (r.call tl t hook).watchdog.threads) :
    o ∈ r.watchdog.threads ∨ o.syncPtr.address = r.nextAddress ∧ o.alreadyLogged = false := by
  obtain ⟨hthreads, -⟩ | ⟨hthreads, -⟩ | ⟨hthreads, -⟩ := r.threadsAfter_call tl t hook
  · exact Or.inl (hthreads ▸ h)
  · rw [hthreads] at h
    obtain h | h := List.mem_append.mp h
    · exact Or.inl h
    · obtain rfl := List.mem_singleton.mp h
      exact Or.inr ⟨rfl, rfl⟩
  · rw [hthreads] at h
    obtain ⟨rest, hperm, hsub⟩ := ThreadWatchdog.withoutThread_perm r.watchdog.threads t
    exact Or.inl (hsub.subset (hperm.mem_iff.mp h))

theorem Distinct.congr (h : Distinct r) {watchdog : ThreadWatchdog}
    (hids : watchdog.threads.map (fun o => (o.syncPtr, o.threadId)) =
      r.watchdog.threads.map fun o => (o.syncPtr, o.threadId)) : Distinct { r with watchdog } := by
  have hptrs : watchdog.threads.map ThreadInfo.syncPtr =
      r.watchdog.threads.map ThreadInfo.syncPtr := by
    have hfst := congrArg (List.map Prod.fst) hids
    rwa [List.map_map, List.map_map] at hfst
  refine ⟨hptrs ▸ h.nodup, fun o ho => ?_⟩
  have hmem := List.mem_map_of_mem (f := ThreadInfo.syncPtr) ho
  rw [hptrs] at hmem
  obtain ⟨o', ho', hptr⟩ := List.mem_map.mp hmem
  rw [← hptr]
  exact h.address_lt o' ho'

theorem Distinct.call (h : Distinct r) (tl : ThreadLocal) (t : ThreadId) (hook : Hook) :
    Distinct (r.call tl t hook) := by
  obtain ⟨hthreads, hnext⟩ | ⟨hthreads, hnext⟩ | ⟨hthreads, hnext⟩ := r.threadsAfter_call tl t hook
  · constructor
    · exact hthreads ▸ h.nodup
    · rw [hthreads]
      exact fun o ho => (h.address_lt o ho).trans_le hnext
  · constructor
    · rw [hthreads, List.map_append]
      refine List.nodup_append.mpr ⟨h.nodup, List.nodup_singleton _, ?_⟩
      rintro p hp q hq rfl
      obtain ⟨o, ho, rfl⟩ := List.mem_map.mp hp
      have hlt := h.address_lt o ho
      rw [List.mem_singleton.mp hq] at hlt
      exact Nat.lt_irrefl _ hlt
    · rw [hthreads]
      intro o ho
      obtain ho | ho := List.mem_append.mp ho
      · exact (h.address_lt o ho).trans hnext
      · rw [List.mem_singleton.mp ho]
        exact hnext
  · obtain ⟨rest, hperm, hsub⟩ := ThreadWatchdog.withoutThread_perm r.watchdog.threads t
    constructor
    · rw [hthreads]
      exact (hperm.map _).nodup_iff.mpr (h.nodup.sublist (hsub.map _))
    · rw [hthreads]
      intro o ho
      exact (h.address_lt o (hsub.subset (hperm.mem_iff.mp ho))).trans_le hnext

theorem debuggerPresent_call (r : Registry) (tl : ThreadLocal) (t : ThreadId) (hook : Hook) :
    (r.call tl t hook).watchdog.debuggerPresent = r.watchdog.debuggerPresent := by
  apply call_cases (P := fun r' => r'.watchdog.debuggerPresent = r.watchdog.debuggerPresent)
  · rfl
  · rfl
  · intro monitorThread
    unfold Registry.get
    split_ifs
    · rfl
    · exact ThreadWatchdog.debuggerPresent_addThread ..
    · rfl
  · exact fun _ _ => rfl
  · intro _
    unfold Registry.exit
    dsimp only
    split_ifs
    · exact ThreadWatchdog.debuggerPresent_removeThread ..
    · rfl

theorem options_call (r : Registry) (tl : ThreadLocal) (t : ThreadId) (hook : Hook) :
    (r.call tl t hook).options = r.options ∨
      hook = .setOptions (r.call tl t hook).options := by
  apply call_cases (P := fun r' => r'.options = r.options ∨ hook = .setOptions r'.options)
  · exact Or.inl rfl
  · exact Or.inl rfl
  · exact fun monitorThread => Or.inl (options_get r t monitorThread)
  · exact fun _ hoptions => Or.inr hoptions
  · exact fun _ => Or.inl rfl

end Registry

/-! ## Runs -/

/-- The options that the parser accepts have a maximal duration. -/
def Task.HasMaxDuration : Task → Prop
  | .hook e => ∀ options, e.hook = .setOptions options → 0 < options.threadWatchdogMaxDurationSec
  | _ => True

/-- The monitor, what the clock has shown, and for every object whether a callback has reported
the present busy interval of its thread. -/
structure Polled where
  config : Config := {}
  clock : Nat := 0
  reported : SyncPtr → Bool := fun _ => false

namespace Polled

def selects (c : Config) (p : SyncPtr) : Task → Bool
  | .scan now _ => (c.selected now).map Prod.fst == some p
  | _ => false

/-- The clock shows a `uint64_t` and does not go back. A busy interval ends when the start time
of the thread changes. -/
def step (maxLocks : Nat) (s : Polled) (task : Task) : Option Polled :=
  let now := task.time.getD s.clock
  if s.clock ≤ now ∧ now < 2 ^ 64 then
    (s.config.perform maxLocks task).map fun c =>
      { config := c
        clock := now
        reported p := decide (c.monitor.starts p = s.config.monitor.starts p) &&
          (s.reported p || selects s.config p task) }
  else none

/-- The thread has been busy for too long and no callback has reported it. -/
def Unreported (s : Polled) (now : Nat) (o : ThreadInfo) : Prop :=
  ThreadWatchdog.Overlong s.config.monitor.starts
    s.config.monitor.runtimeOptions.threadWatchdogMaxDurationSec now o ∧
    s.reported o.syncPtr = false

instance (s : Polled) (now : Nat) (o : ThreadInfo) : Decidable (s.Unreported now o) :=
  inferInstanceAs (Decidable ((_ ∧ _) ∧ _))

/-- A callback that finds an overlong interval that was not reported reports such an interval. -/
def ReportsOverlong (s : Polled) (task : Task) : Prop :=
  ∀ now callback, task = .scan now callback →
    (∃ o ∈ s.config.monitor.threadWatchdog.threads, s.Unreported now o) →
    ∃ p d, s.config.selected now = some (p, d) ∧
      ∃ o ∈ s.config.monitor.threadWatchdog.threads, o.syncPtr = p ∧ s.Unreported now o

/-- A callback reports the thread. -/
def Reports (p : SyncPtr) (s : Polled) (task : Task) : Prop := selects s.config p task = true

/-- A callback looks at the thread, before it reports one, and finds it idle. -/
def FindsIdle (p : SyncPtr) (s : Polled) : Task → Prop
  | .scan now _ =>
    p ∈ (ThreadWatchdog.passed ((s.config.selected now).map Prod.fst)
      s.config.monitor.threadWatchdog.threads).map ThreadInfo.syncPtr ∧
      (s.config.monitor.starts p = 0 ∨ now ≤ s.config.monitor.starts p)
  | _ => False

/-- A callback has reported the thread, and none has found it idle since then. -/
def NotIdleSince (maxLocks : Nat) (s₀ : Polled) (past : List Task) (p : SyncPtr) : Prop :=
  Since (Reports p) (FindsIdle p) (step maxLocks) s₀ past

/-- The thread is in a new busy interval, and no callback has found it idle between that and the
report of an earlier one. -/
def Reentered (maxLocks : Nat) (s₀ : Polled) (x : Polled × List Task) (p : SyncPtr) : Prop :=
  NotIdleSince maxLocks s₀ x.2 p ∧ x.1.reported p = false

/-- A callback finds a thread overlong in a new interval only if another callback has found it idle
before, or if a thread is overlong as well that no callback has reported since it was idle. -/
def SeenIdle (maxLocks : Nat) (s₀ : Polled) (x : Polled × List Task) : Task → Prop
  | .scan now _ =>
    ∀ o ∈ x.1.config.monitor.threadWatchdog.threads,
      ThreadWatchdog.Overlong x.1.config.monitor.starts
        x.1.config.monitor.runtimeOptions.threadWatchdogMaxDurationSec now o →
      Reentered maxLocks s₀ x o.syncPtr →
      ∃ o' ∈ x.1.config.monitor.threadWatchdog.threads,
        ThreadWatchdog.Overlong x.1.config.monitor.starts
          x.1.config.monitor.runtimeOptions.threadWatchdogMaxDurationSec now o' ∧
        ¬ NotIdleSince maxLocks s₀ x.2 o'.syncPtr
  | _ => True

instance (p : SyncPtr) (s : Polled) (task : Task) : Decidable (Reports p s task) :=
  inferInstanceAs (Decidable (_ = true))

instance (p : SyncPtr) (s : Polled) (task : Task) : Decidable (FindsIdle p s task) :=
  match task with
  | .scan _ _ => inferInstanceAs (Decidable (_ ∧ _))
  | .hook _ | .timerExpired _ | .report _ | .rearm _ => isFalse id

instance (maxLocks : Nat) (s₀ : Polled) (past : List Task) (p : SyncPtr) :
    Decidable (NotIdleSince maxLocks s₀ past p) :=
  inferInstanceAs (Decidable (Since ..))

instance (maxLocks : Nat) (s₀ : Polled) (x : Polled × List Task) (task : Task) :
    Decidable (SeenIdle maxLocks s₀ x task) :=
  have (now : Nat) (o : ThreadInfo) : Decidable (ThreadWatchdog.Overlong x.1.config.monitor.starts
      x.1.config.monitor.runtimeOptions.threadWatchdogMaxDurationSec now o) :=
    inferInstanceAs (Decidable (_ ∧ _))
  have (p : SyncPtr) : Decidable (Reentered maxLocks s₀ x p) :=
    inferInstanceAs (Decidable (_ ∧ _))
  match task with
  | .scan _ _ => inferInstanceAs (Decidable (∀ o ∈ x.1.config.monitor.threadWatchdog.threads, _))
  | .hook _ | .timerExpired _ | .report _ | .rearm _ => isTrue trivial

/-- A thread whose interval was reported is marked, and was busy at the last callback. -/
structure Inv (s : Polled) : Prop where
  debuggerPresent : s.config.monitor.threadWatchdog.debuggerPresent = false
  maxDuration : 0 < s.config.monitor.runtimeOptions.threadWatchdogMaxDurationSec
  distinct : s.config.monitor.registry.Distinct
  reported_lt : ∀ p, s.reported p = true → p.address < s.config.monitor.nextAddress
  marked : ∀ o ∈ s.config.monitor.threadWatchdog.threads, s.reported o.syncPtr = true →
    o.alreadyLogged = true ∧ s.config.monitor.starts o.syncPtr ≠ 0 ∧
      s.config.monitor.starts o.syncPtr < s.clock

/-- The part of it that does not depend on a debugger and the options. -/
structure Marked (s : Polled) : Prop where
  distinct : s.config.monitor.registry.Distinct
  reported_lt : ∀ p, s.reported p = true → p.address < s.config.monitor.nextAddress
  marked : ∀ o ∈ s.config.monitor.threadWatchdog.threads, s.reported o.syncPtr = true →
    o.alreadyLogged = true ∧ s.config.monitor.starts o.syncPtr ≠ 0 ∧
      s.config.monitor.starts o.syncPtr < s.clock

variable {maxLocks now : Nat} {s s' : Polled} {task : Task} {p : SyncPtr} {d : Nat}

theorem step_eq_some (h : step maxLocks s task = some s') : ∃ c,
    s.config.perform maxLocks task = some c ∧ s.clock ≤ task.time.getD s.clock ∧
      s' = { config := c
             clock := task.time.getD s.clock
             reported := fun p => decide (c.monitor.starts p = s.config.monitor.starts p) &&
               (s.reported p || selects s.config p task) } := by
  unfold step at h
  simp only at h
  split_ifs at h with hclock
  obtain ⟨c, hc, rfl⟩ := Option.map_eq_some_iff.mp h
  exact ⟨c, hc, hclock.1, rfl⟩

/-- What was reported is not selected again. -/
theorem Marked.not_reported (h : Marked s) (hselected : s.config.selected now = some (p, d)) :
    s.reported p = false := by
  obtain ⟨o, ho, rfl, hlogged, -⟩ := Config.selected_eq_some hselected
  by_contra hreported
  have hmarked := (h.marked o ho (Bool.eq_true_of_not_eq_false hreported)).1
  cases hlogged.symm.trans hmarked

/-- The object that a callback selects is one of the watched threads. -/
theorem Marked.selects_lt (h : Marked s) (hselects : selects s.config p task = true) :
    p.address < s.config.monitor.nextAddress := by
  cases task with
  | scan now callback =>
    obtain ⟨⟨p, d⟩, hselected, rfl⟩ := Option.map_eq_some_iff.mp (beq_iff_eq.mp hselects)
    obtain ⟨o, ho, rfl, -⟩ := Config.selected_eq_some hselected
    exact h.distinct.address_lt o ho
  | _ => cases hselects

theorem Marked.marked_scanned (h : Marked s) (hclock : s.clock ≤ task.time.getD s.clock) :
    ∀ o ∈ s.config.scanned task,
      s.reported o.syncPtr = true ∨ selects s.config o.syncPtr task = true →
      o.alreadyLogged = true ∧ s.config.monitor.starts o.syncPtr ≠ 0 ∧
        s.config.monitor.starts o.syncPtr < task.time.getD s.clock := by
  have hmarked : ∀ o ∈ s.config.monitor.threadWatchdog.threads, s.reported o.syncPtr = true →
      o.alreadyLogged = true ∧ s.config.monitor.starts o.syncPtr ≠ 0 ∧
        s.config.monitor.starts o.syncPtr < task.time.getD s.clock := by
    intro o ho hreported
    obtain ⟨hlogged, hne, hlt⟩ := h.marked o ho hreported
    exact ⟨hlogged, hne, hlt.trans_le hclock⟩
  intro o ho hreported
  cases task with
  | scan now callback =>
    refine ThreadWatchdog.scanThreads_marked h.distinct.nodup hmarked o ho ?_
    exact hreported.imp_right beq_iff_eq.mp
  | _ => exact hmarked o ho (hreported.resolve_right nofun)

/-- What a step keeps, if the clock and the list of watched threads are as they should be. -/
theorem Marked.of_registry (h : Marked s) {c : Config} {clock : Nat}
    (distinct : c.monitor.registry.Distinct)
    (nextAddress : s.config.monitor.nextAddress ≤ c.monitor.registry.nextAddress)
    (marked : ∀ o ∈ c.monitor.registry.watchdog.threads,
      s.reported o.syncPtr = true ∨ selects s.config o.syncPtr task = true →
      o.alreadyLogged = true ∧ s.config.monitor.starts o.syncPtr ≠ 0 ∧
        s.config.monitor.starts o.syncPtr < clock) :
    Marked { config := c
             clock := clock
             reported := fun p => decide (c.monitor.starts p = s.config.monitor.starts p) &&
               (s.reported p || selects s.config p task) } := by
  refine ⟨distinct, fun p hp => ?_, fun o ho hp => ?_⟩
  · simp only [Bool.and_eq_true, Bool.or_eq_true] at hp
    obtain ⟨-, hp | hp⟩ := hp
    · exact (h.reported_lt p hp).trans_le nextAddress
    · exact (h.selects_lt hp).trans_le nextAddress
  · simp only [Bool.and_eq_true, Bool.or_eq_true, decide_eq_true_eq] at hp
    rw [hp.1]
    exact marked o ho hp.2

theorem Marked.kept (h : Marked s) (hstep : step maxLocks s task = some s') : Marked s' := by
  obtain ⟨c, hc, hclock, rfl⟩ := step_eq_some hstep
  by_cases hhook : ∃ e, task = .hook e
  · obtain ⟨e, rfl⟩ := hhook
    have hregistry := Config.step_registry hc
    set r := s.config.monitor.registry
    set tl := s.config.monitor.threadLocals e.thread
    apply h.of_registry <;> rw [hregistry]
    · exact h.distinct.call tl e.thread e.hook
    · exact r.nextAddress_call tl e.thread e.hook
    · intro o ho hreported
      have hreported := hreported.resolve_right nofun
      obtain hold | ⟨hnew, -⟩ := Registry.mem_call_threads ho
      · obtain ⟨hlogged, hne, hlt⟩ := h.marked o hold hreported
        exact ⟨hlogged, hne, hlt.trans_le hclock⟩
      · exact absurd hnew (h.reported_lt _ hreported).ne
  · push Not at hhook
    obtain ⟨w, hregistry, hthreads, -⟩ := Config.perform_registry hc hhook
    apply h.of_registry <;> rw [hregistry]
    · apply h.distinct.congr
      rw [hthreads]
      exact s.config.scanned_ids task
    · exact Nat.le_refl _
    · simp only [hthreads]
      exact h.marked_scanned hclock

theorem Inv.toMarked (h : Inv s) : Marked s := ⟨h.distinct, h.reported_lt, h.marked⟩

/-- Without a debugger the option is the limit. -/
theorem Inv.maxDurationSec (h : Inv s) :
    s.config.monitor.threadWatchdog.maxDurationSec s.config.monitor.runtimeOptions =
      s.config.monitor.runtimeOptions.threadWatchdogMaxDurationSec := by
  simp [ThreadWatchdog.maxDurationSec, h.debuggerPresent]

/-- What a callback selects is overlong, and it was not reported. -/
theorem Inv.selected (h : Inv s) (hselected : s.config.selected now = some (p, d)) :
    ∃ o ∈ s.config.monitor.threadWatchdog.threads, o.syncPtr = p ∧ o.alreadyLogged = false ∧
      s.Unreported now o := by
  obtain ⟨o, ho, rfl, hlogged, hne, -, hle, -⟩ := Config.selected_eq_some hselected
  rw [h.maxDurationSec] at hle
  exact ⟨o, ho, rfl, hlogged, ⟨hne, hle⟩, h.toMarked.not_reported hselected⟩

/-- A callback selects a thread if one is overlong and not marked. -/
theorem Inv.exists_selected (h : Inv s) {o : ThreadInfo}
    (ho : o ∈ s.config.monitor.threadWatchdog.threads)
    (hoverlong : ThreadWatchdog.Overlong s.config.monitor.starts
      s.config.monitor.runtimeOptions.threadWatchdogMaxDurationSec now o)
    (hlogged : o.alreadyLogged = false) : ∃ p d, s.config.selected now = some (p, d) := by
  cases hselected : s.config.selected now with
  | some found => exact ⟨found.1, found.2, rfl⟩
  | none =>
    have hlt : s.config.monitor.starts o.syncPtr < now := by
      have := hoverlong.2
      have := h.maxDuration
      omega
    rw [← h.maxDurationSec] at hoverlong
    have hmarked := (ThreadWatchdog.scanThreads_none hselected).2 o ho hlt hoverlong
    cases hlogged.symm.trans hmarked

theorem Inv.kept (h : Inv s) (hduration : task.HasMaxDuration)
    (hstep : step maxLocks s task = some s') : Inv s' := by
  have hmarked := h.toMarked.kept hstep
  obtain ⟨c, hc, -, rfl⟩ := step_eq_some hstep
  have hregistry : c.monitor.registry.watchdog.debuggerPresent = false ∧
      0 < c.monitor.registry.options.threadWatchdogMaxDurationSec := by
    by_cases hhook : ∃ e, task = .hook e
    · obtain ⟨e, rfl⟩ := hhook
      rw [Config.step_registry hc, Registry.debuggerPresent_call]
      refine ⟨h.debuggerPresent, ?_⟩
      obtain hsame | hoptions := Registry.options_call s.config.monitor.registry
        (s.config.monitor.threadLocals e.thread) e.thread e.hook
      · rw [hsame]
        exact h.maxDuration
      · exact hduration _ hoptions
    · push Not at hhook
      obtain ⟨w, hregistry, -, hdebugger⟩ := Config.perform_registry hc hhook
      rw [hregistry]
      exact ⟨hdebugger.trans h.debuggerPresent, h.maxDuration⟩
  exact ⟨hregistry.1, hregistry.2, hmarked.distinct, hmarked.reported_lt, hmarked.marked⟩

theorem marked_start (options : RuntimeOptions) (debuggerPresent timerQueue : Bool) :
    Marked { config := .start options debuggerPresent timerQueue } where
  distinct := ⟨List.nodup_nil, nofun⟩
  reported_lt := nofun
  marked := nofun

theorem inv_start {options : RuntimeOptions} {timerQueue : Bool}
    (hduration : 0 < options.threadWatchdogMaxDurationSec) :
    Inv { config := .start options false timerQueue } where
  debuggerPresent := rfl
  maxDuration := hduration
  distinct := ⟨List.nodup_nil, nofun⟩
  reported_lt := nofun
  marked := nofun

/-! ## What the marks say -/

/-- A thread is marked if and only if a callback has reported it and none has found it idle
since then. -/
structure Remembers (maxLocks : Nat) (s₀ : Polled) (x : Polled × List Task) : Prop where
  inv : Inv x.1
  run : exec (step maxLocks) s₀ x.2 = some x.1
  marked_iff : ∀ o ∈ x.1.config.monitor.threadWatchdog.threads,
    o.alreadyLogged = true ↔ NotIdleSince maxLocks s₀ x.2 o.syncPtr
  address_lt : ∀ p, NotIdleSince maxLocks s₀ x.2 p → p.address < x.1.config.monitor.nextAddress

variable {s₀ : Polled} {x y : Polled × List Task}

theorem notIdleSince_concat {past : List Task} (hrun : exec (step maxLocks) s₀ past = some s)
    (hstep : step maxLocks s task = some s') : NotIdleSince maxLocks s₀ (past ++ [task]) p ↔
      Reports p s task ∨ ¬ FindsIdle p s task ∧ NotIdleSince maxLocks s₀ past p :=
  since_concat hrun hstep

/-- Only a callback reports a thread or finds it idle. -/
theorem notIdleSince_concat_of_not_scan {past : List Task}
    (hrun : exec (step maxLocks) s₀ past = some s) (hstep : step maxLocks s task = some s')
    (hnot : ∀ now callback, task ≠ .scan now callback) :
    NotIdleSince maxLocks s₀ (past ++ [task]) p ↔ NotIdleSince maxLocks s₀ past p := by
  rw [notIdleSince_concat hrun hstep]
  cases task with
  | scan now callback => exact absurd rfl (hnot now callback)
  | _ => simp [Reports, selects, FindsIdle]

theorem Remembers.kept (h : Remembers maxLocks s₀ x) (hduration : task.HasMaxDuration)
    (hrecord : record (step maxLocks) x task = some y) : Remembers maxLocks s₀ y := by
  obtain ⟨s', hstep, rfl⟩ := record_eq_some.mp hrecord
  obtain ⟨s, past⟩ := x
  have hrun := exec_concat.mpr ⟨s, h.run, hstep⟩
  have hinv := h.inv.kept hduration hstep
  obtain ⟨c, hc, -, rfl⟩ := step_eq_some hstep
  by_cases hhook : ∃ e, task = .hook e
  · obtain ⟨e, rfl⟩ := hhook
    have hregistry := Config.step_registry hc
    set r := s.config.monitor.registry
    set tl := s.config.monitor.threadLocals e.thread
    have hsince p : NotIdleSince maxLocks s₀ (past ++ [.hook e]) p ↔
        NotIdleSince maxLocks s₀ past p :=
      notIdleSince_concat_of_not_scan h.run hstep (by simp)
    have hthreads : c.monitor.threadWatchdog = (r.call tl e.thread e.hook).watchdog :=
      congrArg Registry.watchdog hregistry
    have hnext : c.monitor.nextAddress = (r.call tl e.thread e.hook).nextAddress :=
      congrArg Registry.nextAddress hregistry
    refine ⟨hinv, hrun, fun o ho => ?_, fun p hp => ?_⟩
    · rw [hsince]
      simp only [hthreads] at ho
      obtain hold | ⟨hnew, hclear⟩ := Registry.mem_call_threads ho
      · exact h.marked_iff o hold
      · refine iff_of_false (by simp [hclear]) fun hsince => ?_
        exact absurd hnew (h.address_lt _ hsince).ne
    · simp only [hnext]
      exact (h.address_lt p ((hsince p).mp hp)).trans_le (r.nextAddress_call tl e.thread e.hook)
  · push Not at hhook
    obtain ⟨w, hregistry, hthreads, -⟩ := Config.perform_registry hc hhook
    have hthreads : c.monitor.threadWatchdog.threads = s.config.scanned task :=
      (congrArg (fun r => r.watchdog.threads) hregistry).trans hthreads
    have hnext : c.monitor.nextAddress = s.config.monitor.nextAddress :=
      congrArg Registry.nextAddress hregistry
    refine ⟨hinv, hrun, fun o ho => ?_, fun p hp => ?_⟩
    · simp only [hthreads] at ho
      cases task with
      | hook e => exact absurd rfl (hhook e)
      | scan now callback =>
        obtain ⟨z, hz, hptr, hmarked⟩ :=
          ThreadWatchdog.scanThreads_alreadyLogged h.inv.distinct.nodup rfl o ho
        rw [hmarked, notIdleSince_concat h.run hstep, h.marked_iff z hz, hptr, and_comm]
        exact or_congr_left beq_iff_eq.symm
      | _ =>
        rw [notIdleSince_concat_of_not_scan h.run hstep (by simp)]
        exact h.marked_iff o ho
    · simp only [hnext]
      obtain hreports | ⟨-, hsince⟩ := (notIdleSince_concat h.run hstep).mp hp
      · exact h.inv.toMarked.selects_lt hreports
      · exact h.address_lt p hsince

/-- In a run that has come to `x`, the next callback reports an overlong interval that was not
reported if and only if the callbacks before it have seen the threads idle. -/
theorem Remembers.reports_iff (h : Remembers maxLocks s₀ x) :
    x.1.ReportsOverlong task ↔ SeenIdle maxLocks s₀ x task := by
  cases task with
  | scan now callback =>
    constructor
    · intro hreports o ho hoverlong hreentered
      obtain ⟨p, d, hselected, -⟩ :=
        hreports now callback rfl ⟨o, ho, hoverlong, hreentered.2⟩
      obtain ⟨o', ho', -, hclear, hoverlong', -⟩ := h.inv.selected hselected
      refine ⟨o', ho', hoverlong', fun hsince => ?_⟩
      cases hclear.symm.trans ((h.marked_iff o' ho').mpr hsince)
    · rintro hseen now' callback' htask ⟨o, ho, hoverlong, hunreported⟩
      cases htask
      obtain ⟨o', ho', hoverlong', hnot⟩ : ∃ o' ∈ x.1.config.monitor.threadWatchdog.threads,
          ThreadWatchdog.Overlong x.1.config.monitor.starts
            x.1.config.monitor.runtimeOptions.threadWatchdogMaxDurationSec now o' ∧
          ¬ NotIdleSince maxLocks s₀ x.2 o'.syncPtr := by
        by_cases hsince : NotIdleSince maxLocks s₀ x.2 o.syncPtr
        · exact hseen o ho hoverlong ⟨hsince, hunreported⟩
        · exact ⟨o, ho, hoverlong, hsince⟩
      have hclear : o'.alreadyLogged = false := by
        by_contra hmarked
        exact hnot ((h.marked_iff o' ho').mp (Bool.eq_true_of_not_eq_false hmarked))
      obtain ⟨p, d, hselected⟩ := h.inv.exists_selected ho' hoverlong' hclear
      obtain ⟨z, hz, hptr, -, hz'⟩ := h.inv.selected hselected
      exact ⟨p, d, hselected, z, hz, hptr, hz'⟩
  | _ => exact iff_of_true (by simp [ReportsOverlong]) trivial

theorem remembers_start {options : RuntimeOptions} {timerQueue : Bool}
    (hduration : 0 < options.threadWatchdogMaxDurationSec) :
    Remembers maxLocks { config := .start options false timerQueue }
      ({ config := .start options false timerQueue }, []) where
  inv := inv_start hduration
  run := rfl
  marked_iff := by simp [Config.start]
  address_lt := by simp [NotIdleSince, Since]

/-- Every callback of a run that could report an overlong interval does so if and only if between
the report of a thread and every callback that finds it overlong in a later interval some callback
has found it idle, or else another thread that is overlong then has not been reported since it was
idle. -/
theorem reportsOverlong_iff {options : RuntimeOptions} {timerQueue : Bool} {tasks : List Task}
    (hduration : 0 < options.threadWatchdogMaxDurationSec)
    (hdurations : ∀ task ∈ tasks, task.HasMaxDuration) :
    Along ReportsOverlong (step maxLocks) { config := .start options false timerQueue } tasks ↔
      Along (SeenIdle maxLocks { config := .start options false timerQueue })
        (record (step maxLocks)) ({ config := .start options false timerQueue }, []) tasks := by
  rw [← along_record []]
  exact along_congr (fun _ _ _ h => h.reports_iff)
    (fun _ task hmem _ h hstep => h.kept (hdurations task hmem) hstep) (remembers_start hduration)

/-- A thread is reported, leaves, and enters again before the next callback. -/
def busyAgain : List Task :=
  [.hook ⟨1, .beforeLock 16, 1⟩, .hook ⟨1, .inLock 0, 1⟩, .timerExpired 0, .scan 40000 0,
    .report 0, .rearm 0, .hook ⟨1, .afterLock 16, 40001⟩, .hook ⟨1, .beforeLock 16, 40001⟩,
    .hook ⟨1, .inLock 0, 40001⟩, .timerExpired 0]

/-- The second interval is overlong, and the thread is marked. -/
theorem exec_busyAgain : ∃ s,
    exec (step 20) { config := .start {} false true } busyAgain = some s ∧
    s.Unreported 80000 ⟨⟨1, 0⟩, 1, true⟩ ∧
    s.config.monitor.threadWatchdog.threads = [⟨⟨1, 0⟩, 1, true⟩] ∧
    s.config.selected 80000 = none ∧ (step 20 s (.scan 80000 0)).isSome = true :=
  exists_exec (by decide +kernel)

theorem hasMaxDuration_busyAgain : ∀ task ∈ busyAgain ++ [.scan 80000 0], task.HasMaxDuration := by
  simp [busyAgain, Task.HasMaxDuration]

theorem busyAgain_not_reportsOverlong : ¬ ∀ maxLocks options timerQueue tasks s,
    0 < options.threadWatchdogMaxDurationSec → (∀ task ∈ tasks, task.HasMaxDuration) →
    exec (step maxLocks) { config := .start options false timerQueue } tasks = some s →
    Along ReportsOverlong (step maxLocks) { config := .start options false timerQueue } tasks := by
  intro h
  obtain ⟨s, hrun, hunreported, hthreads, hselected, hpossible⟩ := exec_busyAgain
  obtain ⟨s', hscan⟩ := Option.isSome_iff_exists.mp hpossible
  have halong := h 20 {} true _ s' (by decide) hasMaxDuration_busyAgain
    (exec_concat.mpr ⟨s, hrun, hscan⟩)
  have hreports := ((along_append hrun).mp halong).2.1
  obtain ⟨p, d, hsome, -⟩ := hreports 80000 0 rfl ⟨_, by simp [hthreads], hunreported⟩
  cases hselected.symm.trans hsome

/-- The first thread is reported and enters again; the second one is overlong as well when the
next callback runs. Then a callback finds the first thread idle before it enters once more. -/
def busyInTurn : List Task :=
  [.hook ⟨1, .beforeLock 16, 1⟩, .hook ⟨1, .inLock 0, 1⟩, .timerExpired 0, .scan 40000 0,
    .report 0, .rearm 0, .hook ⟨1, .afterLock 16, 40001⟩, .hook ⟨1, .beforeLock 16, 40001⟩,
    .hook ⟨1, .inLock 0, 40001⟩, .hook ⟨2, .beforeLock 32, 41000⟩, .hook ⟨2, .inLock 0, 41000⟩,
    .timerExpired 0, .scan 75000 0, .report 0, .rearm 0, .hook ⟨1, .afterLock 16, 75001⟩,
    .timerExpired 0, .scan 76000 0, .report 0, .rearm 0, .hook ⟨1, .beforeLock 16, 76001⟩,
    .hook ⟨1, .inLock 0, 76001⟩, .timerExpired 0]

theorem reportsOverlong_iff_sample : ∃ s,
    exec (step 20) { config := .start {} false true } busyInTurn = some s ∧
    s.config.selected 110000 = some (⟨1, 0⟩, 33999) ∧
    Along ReportsOverlong (step 20) { config := .start {} false true }
      (busyInTurn ++ [.scan 110000 0]) := by
  obtain ⟨s, hrun, hselected⟩ : ∃ s,
      exec (step 20) { config := .start {} false true } busyInTurn = some s ∧
      s.config.selected 110000 = some (⟨1, 0⟩, 33999) := exists_exec (by decide +kernel)
  have hdurations : ∀ task ∈ busyInTurn ++ [.scan 110000 0], task.HasMaxDuration := by
    simp [busyInTurn, Task.HasMaxDuration]
  refine ⟨s, hrun, hselected, (reportsOverlong_iff (by decide) hdurations).mpr ?_⟩
  decide +kernel

end Polled
end CppGuard
