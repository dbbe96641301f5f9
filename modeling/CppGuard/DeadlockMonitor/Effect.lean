import CppGuard.DeadlockMonitor.Basic

/-!
# What a hook does

`Core` is what the results about the monitor look at: a thread without a history has an
empty one, and the watchdog is left out. `Effect` lists the effects that a hook can have;
`step_effect` is the only place where the hooks are unfolded.
-/
namespace CppGuard
open DeadlockMonitor ThreadHistory

structure Core where
  graph : Rep := {}
  held : ThreadId → SynchLocksHeld
  calls : ThreadId → List (Addr × GraphId) := fun _ => []
  potentialDeadlocksFound : Bool := false
  otherErrorsFound : Bool := false
  errors : List (Report × Bool) := []
  haltOnError : Bool := false
  ignoreLock : ThreadId → Nat := fun _ => 0
  ignoreUnlock : ThreadId → Nat := fun _ => 0

def Config.core (maxLocks : Nat) (c : Config) : Core where
  graph := c.monitor.deadlockGraph
  held := c.monitor.locksHeld maxLocks
  calls := c.calls
  potentialDeadlocksFound := c.monitor.potentialDeadlocksFound
  otherErrorsFound := c.monitor.otherErrorsFound
  errors := c.monitor.processedErrors
  haltOnError := c.monitor.runtimeOptions.haltOnError
  ignoreLock t := (c.monitor.threadLocals t).ignoreCounterLock
  ignoreUnlock t := (c.monitor.threadLocals t).ignoreCounterUnlock

/-- A before-hook of a thread without recorded locks arms the watchdog. -/
def arm (now : Nat) (held : SynchLocksHeld) : SynchLocksHeld :=
  if held.n = 0 then { held with lockStartTimePoint := now } else held

@[simp] theorem entries_arm (now : Nat) (held : SynchLocksHeld) :
    (arm now held).entries = held.entries := by
  unfold arm
  split_ifs <;> rfl

@[simp] theorem entries_disarm (held : SynchLocksHeld) : (disarm held).entries = held.entries := by
  unfold disarm
  split_ifs <;> rfl

namespace Core

def called (s : Core) (t : ThreadId) (mu : Addr) (id : GraphId) : Core :=
  { s with calls := Function.update s.calls t ((mu, id) :: s.calls t) }

inductive Effect (maxLocks : Nat) (s : Core) (t : ThreadId) (now : Nat) : Hook → Core → Prop
  | lockIgnored {mu} : 0 < s.ignoreLock t →
      Effect maxLocks s t now (.beforeLock mu)
        { s.called t mu invalidGraphId with
          ignoreLock := Function.update s.ignoreLock t (s.ignoreLock t - 1) }
  | lockFull {mu} : s.ignoreLock t = 0 → maxLocks ≤ (s.held t).n → s.haltOnError = false →
      Effect maxLocks s t now (.beforeLock mu)
        { s.called t mu invalidGraphId with
          errors := s.errors ++ [(.maxLocksPerThreadReached (s.held t).n t mu, false)]
          otherErrorsFound := true }
  | lock {mu id g g'} : s.ignoreLock t = 0 → (s.held t).n < maxLocks →
      s.graph.getId maxLocks t mu = some (id, g) →
      checkHeldLocks id (s.held t).entries (g.updateStackTrace id t (s.held t)) = some (none, g') →
      Effect maxLocks s t now (.beforeLock mu)
        { s.called t mu id with
          graph := g', held := Function.update s.held t (arm now (s.held t)) }
  | lockRefused {mu id g g' other report} : s.ignoreLock t = 0 → (s.held t).n < maxLocks →
      s.graph.getId maxLocks t mu = some (id, g) →
      checkHeldLocks id (s.held t).entries (g.updateStackTrace id t (s.held t)) =
        some (some other, g') →
      buildDeadlockCircleLogText g' t mu id other = some report → s.haltOnError = false →
      Effect maxLocks s t now (.beforeLock mu)
        { s.called t mu id with
          graph := g', errors := s.errors ++ [(report, true)], potentialDeadlocksFound := true }
  | tryLock {mu id g} : s.graph.getId maxLocks t mu = some (id, g) →
      Effect maxLocks s t now (.beforeTryLock mu)
        { s.called t mu id with
          graph := g, held := Function.update s.held t (arm now (s.held t))
          ignoreLock := Function.update s.ignoreLock t (s.ignoreLock t - 1) }
  | inLock {call mu id} : (s.calls t)[call]? = some (mu, id) → id ≠ invalidGraphId →
      Effect maxLocks s t now (.inLock call)
        { s with held := Function.update s.held t (updateLockHistoryInLock mu id (s.held t)) }
  | unlockIgnored {mu} : 0 < s.ignoreUnlock t →
      Effect maxLocks s t now (.afterLock mu)
        { s with ignoreUnlock := Function.update s.ignoreUnlock t (s.ignoreUnlock t - 1) }
  | unlock {mu id g held'} : s.ignoreUnlock t = 0 →
      s.graph.getId maxLocks t mu = some (id, g) →
      updateLockHistoryAfterLock t mu id (s.held t) = .ok held' →
      Effect maxLocks s t now (.afterLock mu)
        { s with graph := g, held := Function.update s.held t (disarm held') }
  | unlockError {mu id g report} : s.ignoreUnlock t = 0 →
      s.graph.getId maxLocks t mu = some (id, g) →
      updateLockHistoryAfterLock t mu id (s.held t) = .error report → s.haltOnError = false →
      Effect maxLocks s t now (.afterLock mu)
        { s with
          graph := g, held := Function.update s.held t (disarm (s.held t))
          errors := s.errors ++ [(report, false)], otherErrorsFound := true }
  | delete {mu g} : s.graph.removeNode mu = some g →
      (∀ l ∈ (s.held t).entries, l.mu ≠ some mu) →
      Effect maxLocks s t now (.deleteLock mu) { s with graph := g }
  | deleteHeld {mu g} : s.graph.removeNode mu = some g →
      (∃ l ∈ (s.held t).entries, l.mu = some mu) → s.haltOnError = false →
      Effect maxLocks s t now (.deleteLock mu)
        { s with graph := g, errors := s.errors ++ [(.deleteLockedLock t mu, false)] }
  | cndWait :
      Effect maxLocks s t now .cndWait
        { s with
          held := Function.update s.held t ({ s.held t with lockStartTimePoint := 2 ^ 64 - 1 }) }
  | increaseIgnoreCounter {i j} :
      Effect maxLocks s t now (.increaseIgnoreCounter i j)
        { s with
          ignoreLock := Function.update s.ignoreLock t ((s.ignoreLock t + i) % 2 ^ 32)
          ignoreUnlock := Function.update s.ignoreUnlock t ((s.ignoreUnlock t + j) % 2 ^ 32) }
  | setOptions {options} :
      Effect maxLocks s t now (.setOptions options)
        { s with haltOnError := options.haltOnError }
  | threadDelete :
      Effect maxLocks s t now .threadDelete
        { s with
          held := Function.update s.held t (.new maxLocks t)
          calls := Function.update s.calls t []
          ignoreLock := Function.update s.ignoreLock t 0
          ignoreUnlock := Function.update s.ignoreUnlock t 0 }

end Core

/-! ## The effects are those of the hooks -/

namespace DeadlockMonitor

variable (m : DeadlockMonitor) (calls : ThreadId → List (Addr × GraphId)) (maxLocks : Nat)
  (t : ThreadId)

theorem core_setLocksHeld (held : SynchLocksHeld) :
    Config.core maxLocks ⟨m.setLocksHeld t held, calls⟩ =
      { Config.core maxLocks ⟨m, calls⟩ with
        held := Function.update (Config.core maxLocks ⟨m, calls⟩).held t held } := by
  simp only [Config.core, Core.mk.injEq, true_and, setLocksHeld, setThreadLocal]
  refine ⟨?_, ?_, ?_⟩ <;> funext u <;> grind [Function.update_apply, locksHeld]

theorem core_makeShared (held : SynchLocksHeld) :
    Config.core maxLocks ⟨m.makeShared t held, calls⟩ =
      { Config.core maxLocks ⟨m, calls⟩ with
        held := Function.update (Config.core maxLocks ⟨m, calls⟩).held t held } := by
  simp only [Config.core, Core.mk.injEq, true_and, makeShared, setThreadLocal]
  refine ⟨?_, ?_, ?_⟩ <;> funext u <;> grind [Function.update_apply, locksHeld]

theorem core_setThreadLocal (tl : ThreadLocal)
    (h : tl.syncLocksHeld = (m.threadLocals t).syncLocksHeld) :
    Config.core maxLocks ⟨m.setThreadLocal t tl, calls⟩ =
      { Config.core maxLocks ⟨m, calls⟩ with
        ignoreLock := Function.update (fun u => (m.threadLocals u).ignoreCounterLock) t
          tl.ignoreCounterLock
        ignoreUnlock := Function.update (fun u => (m.threadLocals u).ignoreCounterUnlock) t
          tl.ignoreCounterUnlock } := by
  simp only [Config.core, Core.mk.injEq, true_and, setThreadLocal]
  refine ⟨?_, ?_, ?_⟩ <;> funext u <;> grind [Function.update_apply, locksHeld]

/-- `Synch_GetAllLocks` makes explicit what was implicit. -/
theorem synchGetAllLocks_spec (monitorThread : Bool) :
    (m.synchGetAllLocks maxLocks t monitorThread).1 = m.locksHeld maxLocks t ∧
      Config.core maxLocks ⟨(m.synchGetAllLocks maxLocks t monitorThread).2, calls⟩ =
        Config.core maxLocks ⟨m, calls⟩ := by
  unfold synchGetAllLocks
  cases hheld : (m.threadLocals t).syncLocksHeld with
  | some held => simp [locksHeld, hheld]
  | none =>
    have hnew : m.locksHeld maxLocks t = .new maxLocks t := by simp [locksHeld, hheld]
    have hset : Config.core maxLocks ⟨m.makeShared t (.new maxLocks t), calls⟩ =
        Config.core maxLocks ⟨m, calls⟩ := by
      have hself := Function.update_eq_self t (Config.core maxLocks ⟨m, calls⟩).held
      rw [core_makeShared, ← hnew]
      exact congrArg (fun f => { Config.core maxLocks ⟨m, calls⟩ with held := f }) hself
    cases monitorThread with
    | false => exact ⟨hnew.symm, hset⟩
    | true =>
      set m' := m.makeShared t (.new maxLocks t)
      have hdeleter := core_setThreadLocal m' calls maxLocks t
        { m'.threadLocals t with synchLocksDeleter := true } rfl
      have hlock := Function.update_eq_self t fun u => (m'.threadLocals u).ignoreCounterLock
      have hunlock := Function.update_eq_self t fun u => (m'.threadLocals u).ignoreCounterUnlock
      simp only [hlock, hunlock] at hdeleter
      exact ⟨hnew.symm, hdeleter.trans hset⟩

theorem processError_eq_some {report : Report} {isDeadlock : Bool} {m' : DeadlockMonitor} :
    m.processError report isDeadlock = some m' ↔ m.runtimeOptions.haltOnError = false ∧
      m' = { m with processedErrors := m.processedErrors ++ [(report, isDeadlock)] } := by
  unfold processError
  split_ifs with h
  · simp [h]
  · simp [h, eq_comm]

end DeadlockMonitor

namespace Config

variable {maxLocks now : Nat} {c : Config} {t : ThreadId} {mu : Addr}

theorem core_called {m : DeadlockMonitor} {s : Core} (id : GraphId)
    (h : core maxLocks ⟨m, c.calls⟩ = s) :
    core maxLocks (c.called t mu (id, m)) = s.called t mu id := by
  subst h
  rfl

/-- An error that is no deadlock is stored, and marked as found. -/
theorem core_otherError {m : DeadlockMonitor} {s : Core} (report : Report)
    (h : core maxLocks ⟨m, c.calls⟩ = s) :
    core maxLocks ⟨{ m with
        processedErrors := m.processedErrors ++ [(report, false)]
        otherErrorsFound := true }, c.calls⟩ =
      { s with errors := s.errors ++ [(report, false)], otherErrorsFound := true } := by
  subst h
  rfl

/-- The first lock of a thread starts its clock. -/
theorem core_armed {m : DeadlockMonitor} {s : Core} (h : core maxLocks ⟨m, c.calls⟩ = s) (g : Rep)
    (hn : (s.held t).n = 0) :
    core maxLocks ⟨{ m with deadlockGraph := g }.setLocksHeld t
        { s.held t with lockStartTimePoint := now }, c.calls⟩ =
      { s with graph := g, held := Function.update s.held t (arm now (s.held t)) } := by
  subst h
  rw [core_setLocksHeld, arm, if_pos hn]
  rfl

/-- An ignored call is counted down. -/
theorem core_countDown (maxLocks : Nat) (c : Config) (t : ThreadId) :
    core maxLocks ⟨if 0 < (c.monitor.threadLocals t).ignoreCounterLock then
        c.monitor.setThreadLocal t { c.monitor.threadLocals t with
          ignoreCounterLock := (c.monitor.threadLocals t).ignoreCounterLock - 1 }
      else c.monitor, c.calls⟩ =
      { c.core maxLocks with
        ignoreLock := Function.update (c.core maxLocks).ignoreLock t
          ((c.core maxLocks).ignoreLock t - 1) } := by
  split_ifs with hignore
  · have hcore := core_setThreadLocal c.monitor c.calls maxLocks t
      { c.monitor.threadLocals t with
        ignoreCounterLock := (c.monitor.threadLocals t).ignoreCounterLock - 1 } rfl
    have hunlock := Function.update_eq_self t
      fun u => (c.monitor.threadLocals u).ignoreCounterUnlock
    simp only [hunlock] at hcore
    exact hcore
  · have hzero : (c.core maxLocks).ignoreLock t = 0 := Nat.eq_zero_of_not_pos hignore
    have hself : Function.update (c.core maxLocks).ignoreLock t 0 =
        (c.core maxLocks).ignoreLock := by rw [← hzero, Function.update_eq_self]
    simp only [hzero, Nat.zero_sub, hself]

theorem beforeLock_effect {result : GraphId × DeadlockMonitor}
    (h : dlcDeadlockCheckBeforeLock maxLocks now t mu c.monitor = some result) :
    Core.Effect maxLocks (c.core maxLocks) t now (.beforeLock mu)
      ((c.called t mu result).core maxLocks) := by
  unfold dlcDeadlockCheckBeforeLock at h
  by_cases hignore : 0 < (c.monitor.threadLocals t).ignoreCounterLock
  · simp only [hignore, if_true, Option.some.injEq] at h
    subst h
    have hcore := core_countDown maxLocks c t
    rw [if_pos hignore] at hcore
    rw [core_called invalidGraphId hcore]
    exact .lockIgnored hignore
  · have hzero : (c.core maxLocks).ignoreLock t = 0 := Nat.eq_zero_of_not_pos hignore
    obtain ⟨hheld, hcore⟩ := synchGetAllLocks_spec c.monitor c.calls maxLocks t true
    rcases hget : c.monitor.synchGetAllLocks maxLocks t true with ⟨allLocks, m⟩
    rw [hget] at hheld hcore h
    obtain rfl : allLocks = (c.core maxLocks).held t := hheld
    have hgraph : m.deadlockGraph = (c.core maxLocks).graph := congrArg Core.graph hcore
    have hhalt : m.runtimeOptions.haltOnError = (c.core maxLocks).haltOnError :=
      congrArg Core.haltOnError hcore
    simp only [hignore, if_false] at h
    by_cases hfull : maxLocks ≤ ((c.core maxLocks).held t).n
    · simp only [hfull, if_true, Option.bind_eq_bind, Option.bind_eq_some_iff,
        processError_eq_some] at h
      obtain ⟨m', ⟨hno, rfl⟩, h⟩ := h
      obtain rfl := Option.some.inj h
      rw [core_called invalidGraphId (core_otherError _ hcore)]
      exact .lockFull hzero hfull (hhalt ▸ hno)
    · simp only [hfull, if_false, Option.bind_eq_bind, Option.bind_eq_some_iff, Prod.exists,
        hgraph] at h
      obtain ⟨id, g, hid, h⟩ := h
      have hlt : ((c.core maxLocks).held t).n < maxLocks := Nat.lt_of_not_le hfull
      by_cases hn : ((c.core maxLocks).held t).n = 0
      · rw [if_pos hn] at h
        obtain rfl := Option.some.inj h
        have hnil : ((c.core maxLocks).held t).entries = [] := by
          simp [SynchLocksHeld.entries, hn]
        rw [core_called id (core_armed hcore _ hn)]
        exact .lock hzero hlt hid (by rw [hnil, checkHeldLocks])
      · simp only [hn, if_false, Option.bind_eq_some_iff, Prod.exists] at h
        obtain ⟨refused, g', hcheck, h⟩ := h
        have harm : arm now ((c.core maxLocks).held t) = (c.core maxLocks).held t := if_neg hn
        cases refused with
        | none =>
          obtain rfl := Option.some.inj h
          have hcore' : core maxLocks ⟨{ m with deadlockGraph := g' }, c.calls⟩ =
              { c.core maxLocks with
                graph := g'
                held := Function.update (c.core maxLocks).held t
                  (arm now ((c.core maxLocks).held t)) } := by
            rw [harm, Function.update_eq_self, ← hcore]
            rfl
          rw [core_called id hcore']
          exact .lock hzero hlt hid hcheck
        | some other =>
          simp only [Option.bind_eq_some_iff, processError_eq_some] at h
          obtain ⟨report, hreport, m', ⟨hno, rfl⟩, h⟩ := h
          obtain rfl := Option.some.inj h
          have hcore' : core maxLocks ⟨{ m with
              deadlockGraph := g'
              processedErrors := m.processedErrors ++ [(report, true)]
              potentialDeadlocksFound := true }, c.calls⟩ = { c.core maxLocks with
                graph := g'
                errors := (c.core maxLocks).errors ++ [(report, true)]
                potentialDeadlocksFound := true } := by
            rw [← hcore]
            rfl
          rw [core_called id hcore']
          exact .lockRefused hzero hlt hid hcheck hreport (hhalt ▸ hno)

theorem beforeTryLock_effect {result : GraphId × DeadlockMonitor}
    (h : dlcDeadlockCheckBeforeTryLock maxLocks now t mu c.monitor = some result) :
    Core.Effect maxLocks (c.core maxLocks) t now (.beforeTryLock mu)
      ((c.called t mu result).core maxLocks) := by
  unfold dlcDeadlockCheckBeforeTryLock at h
  have hcount := core_countDown maxLocks c t
  set m₁ := if 0 < (c.monitor.threadLocals t).ignoreCounterLock then
        c.monitor.setThreadLocal t { c.monitor.threadLocals t with
          ignoreCounterLock := (c.monitor.threadLocals t).ignoreCounterLock - 1 }
      else c.monitor
  have hgraph : m₁.deadlockGraph = (c.core maxLocks).graph := congrArg Core.graph hcount
  simp only [Option.bind_eq_bind, Option.bind_eq_some_iff, Prod.exists] at h
  obtain ⟨id, g, hid, h⟩ := h
  obtain ⟨hheld, hcore⟩ :=
    synchGetAllLocks_spec { m₁ with deadlockGraph := g } c.calls maxLocks t true
  rcases hget : ({ m₁ with deadlockGraph := g } : DeadlockMonitor).synchGetAllLocks maxLocks t true
    with ⟨allLocks, m⟩
  rw [hget] at hheld hcore h
  have hm₁ : core maxLocks ⟨{ m₁ with deadlockGraph := g }, c.calls⟩ =
      { core maxLocks ⟨m₁, c.calls⟩ with graph := g } := rfl
  rw [hm₁, hcount] at hcore
  obtain rfl : allLocks = (c.core maxLocks).held t :=
    hheld.trans (congrFun (congrArg Core.held hcount) t)
  have hresult : ∃ m', result = (id, m') ∧ core maxLocks ⟨m', c.calls⟩ =
      { core maxLocks ⟨m, c.calls⟩ with
        held := Function.update (c.core maxLocks).held t
          (arm now ((c.core maxLocks).held t)) } := by
    by_cases hn : ((c.core maxLocks).held t).n = 0
    · rw [if_pos hn] at h
      refine ⟨_, (Option.some.inj h).symm, ?_⟩
      rw [core_setLocksHeld, hcore, arm, if_pos hn]
    · rw [if_neg hn] at h
      refine ⟨_, (Option.some.inj h).symm, ?_⟩
      rw [hcore, arm, if_neg hn, Function.update_eq_self]
  obtain ⟨m', rfl, hm'⟩ := hresult
  rw [hcore] at hm'
  rw [core_called id hm']
  exact .tryLock (hgraph ▸ hid)

theorem afterLock_effect {m' : DeadlockMonitor}
    (h : dlcDeadlockCheckAfterLock maxLocks t mu c.monitor = some m') :
    Core.Effect maxLocks (c.core maxLocks) t now (.afterLock mu)
      (core maxLocks { c with monitor := m' }) := by
  unfold dlcDeadlockCheckAfterLock at h
  by_cases hignore : 0 < (c.monitor.threadLocals t).ignoreCounterUnlock
  · simp only [hignore, if_true] at h
    obtain rfl := Option.some.inj h
    have hcore := core_setThreadLocal c.monitor c.calls maxLocks t
      { c.monitor.threadLocals t with
        ignoreCounterUnlock := (c.monitor.threadLocals t).ignoreCounterUnlock - 1 } rfl
    have hlock := Function.update_eq_self t fun u => (c.monitor.threadLocals u).ignoreCounterLock
    simp only [hlock] at hcore
    rw [hcore]
    exact .unlockIgnored hignore
  · have hzero : (c.core maxLocks).ignoreUnlock t = 0 := Nat.eq_zero_of_not_pos hignore
    simp only [hignore, if_false, Option.bind_eq_bind, Option.bind_eq_some_iff, Prod.exists] at h
    obtain ⟨id, g, hid, h⟩ := h
    obtain ⟨hheld, hcore⟩ :=
      synchGetAllLocks_spec { c.monitor with deadlockGraph := g } c.calls maxLocks t false
    rcases hget : ({ c.monitor with deadlockGraph := g } : DeadlockMonitor).synchGetAllLocks
      maxLocks t false with ⟨heldLocks, m⟩
    rw [hget] at hheld hcore h
    obtain rfl : heldLocks = (c.core maxLocks).held t := hheld
    have hcore' : core maxLocks ⟨m, c.calls⟩ = { c.core maxLocks with graph := g } := hcore
    cases hafter : updateLockHistoryAfterLock t mu id ((c.core maxLocks).held t) with
    | ok held' =>
      simp only [hafter] at h
      obtain rfl := Option.some.inj h
      rw [core_setLocksHeld, hcore']
      exact .unlock hzero hid hafter
    | error report =>
      simp only [hafter, Option.bind_eq_some_iff, processError_eq_some] at h
      obtain ⟨m', ⟨hno, rfl⟩, h⟩ := h
      obtain rfl := Option.some.inj h
      have hhalt : m.runtimeOptions.haltOnError = (c.core maxLocks).haltOnError :=
        congrArg Core.haltOnError hcore
      rw [core_setLocksHeld, core_otherError report hcore']
      exact .unlockError hzero hid hafter (hhalt ▸ hno)

theorem deleteLock_effect {m' : DeadlockMonitor}
    (h : dlcDeadlockDeleteLock maxLocks t mu c.monitor = some m') :
    Core.Effect maxLocks (c.core maxLocks) t now (.deleteLock mu)
      (core maxLocks { c with monitor := m' }) := by
  unfold dlcDeadlockDeleteLock at h
  simp only [Option.bind_eq_bind, Option.bind_eq_some_iff] at h
  obtain ⟨g, hg, h⟩ := h
  obtain ⟨hheld, hcore⟩ :=
    synchGetAllLocks_spec { c.monitor with deadlockGraph := g } c.calls maxLocks t false
  rcases hget : ({ c.monitor with deadlockGraph := g } : DeadlockMonitor).synchGetAllLocks
    maxLocks t false with ⟨allLocks, m⟩
  rw [hget] at hheld hcore h
  obtain rfl : allLocks = (c.core maxLocks).held t := hheld
  have hcore' : core maxLocks ⟨m, c.calls⟩ = { c.core maxLocks with graph := g } := hcore
  by_cases hex : ∃ l ∈ ((c.core maxLocks).held t).entries, l.mu = some mu
  · simp only [hex, if_true, processError_eq_some] at h
    obtain ⟨hno, rfl⟩ := h
    have hhalt : m.runtimeOptions.haltOnError = (c.core maxLocks).haltOnError :=
      congrArg Core.haltOnError hcore
    have hsplit : core maxLocks ⟨{ m with
        processedErrors := m.processedErrors ++ [(.deleteLockedLock t mu, false)] }, c.calls⟩ =
        { core maxLocks ⟨m, c.calls⟩ with
          errors := (core maxLocks ⟨m, c.calls⟩).errors ++
            [(.deleteLockedLock t mu, false)] } := rfl
    rw [hsplit, hcore']
    exact .deleteHeld hg hex (hhalt ▸ hno)
  · simp only [hex, if_false] at h
    obtain rfl := Option.some.inj h
    rw [hcore']
    exact .delete hg fun l hl heq => hex ⟨l, hl, heq⟩

theorem threadDelete_effect :
    Core.Effect maxLocks (c.core maxLocks) t now .threadDelete
      (core maxLocks ⟨onThreadDelete t c.monitor, Function.update c.calls t []⟩) := by
  have hcore : core maxLocks ⟨onThreadDelete t c.monitor, Function.update c.calls t []⟩ =
      core maxLocks ⟨c.monitor.setThreadLocal t {}, Function.update c.calls t []⟩ := by
    simp only [onThreadDelete]
    split_ifs <;> rfl
  have hfields : core maxLocks ⟨c.monitor.setThreadLocal t {}, Function.update c.calls t []⟩ =
      { c.core maxLocks with
        held := Function.update (c.core maxLocks).held t (.new maxLocks t)
        calls := Function.update (c.core maxLocks).calls t []
        ignoreLock := Function.update (c.core maxLocks).ignoreLock t 0
        ignoreUnlock := Function.update (c.core maxLocks).ignoreUnlock t 0 } := by
    simp only [core, Core.mk.injEq, true_and, setThreadLocal]
    refine ⟨?_, ?_, ?_⟩ <;> funext u <;> grind [Function.update_apply, locksHeld]
  rw [hcore, hfields]
  exact .threadDelete

/-- A step has one of the effects of its hook. -/
theorem step_effect {c c' : Config} {e : Event} (h : step maxLocks c e = some c') :
    Core.Effect maxLocks (c.core maxLocks) e.thread e.now e.hook (c'.core maxLocks) := by
  obtain ⟨t, hook, now⟩ := e
  cases hook with
  | beforeLock mu =>
    obtain ⟨result, hresult, rfl⟩ := Option.map_eq_some_iff.mp h
    exact beforeLock_effect hresult
  | beforeTryLock mu =>
    obtain ⟨result, hresult, rfl⟩ := Option.map_eq_some_iff.mp h
    exact beforeTryLock_effect hresult
  | inLock call =>
    simp only [step] at h
    cases hcall : (c.calls t)[call]? with
    | none => simp [hcall] at h
    | some entry =>
      obtain ⟨mu, id⟩ := entry
      by_cases hid : id = invalidGraphId
      · simp [hcall, hid] at h
      · simp only [hcall, hid, if_false] at h
        obtain rfl := Option.some.inj h
        simp only [dlcDeadlockCheckInLock]
        rw [core_setLocksHeld]
        exact .inLock hcall hid
  | afterLock mu =>
    obtain ⟨m', hm', rfl⟩ := Option.map_eq_some_iff.mp h
    exact afterLock_effect hm'
  | deleteLock mu =>
    obtain ⟨m', hm', rfl⟩ := Option.map_eq_some_iff.mp h
    exact deleteLock_effect hm'
  | cndWait =>
    obtain rfl := Option.some.inj h
    obtain ⟨hheld, hcore⟩ := synchGetAllLocks_spec c.monitor c.calls maxLocks t false
    simp only [cppguardCndWait]
    rw [core_setLocksHeld, hcore, hheld]
    exact .cndWait
  | increaseIgnoreCounter i j =>
    obtain rfl := Option.some.inj h
    have hcore := core_setThreadLocal c.monitor c.calls maxLocks t
      { c.monitor.threadLocals t with
        ignoreCounterLock := ((c.monitor.threadLocals t).ignoreCounterLock + i) % 2 ^ 32
        ignoreCounterUnlock := ((c.monitor.threadLocals t).ignoreCounterUnlock + j) % 2 ^ 32 } rfl
    simp only [increaseIgnoreCounter]
    rw [hcore]
    exact .increaseIgnoreCounter
  | setOptions options =>
    obtain rfl := Option.some.inj h
    exact .setOptions
  | threadDelete =>
    obtain rfl := Option.some.inj h
    exact threadDelete_effect

end Config
end CppGuard
