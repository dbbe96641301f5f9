import CppGuard.DeadlockMonitor.Effect
import CppGuard.Library.Linearization

/-!
# The critical sections of the hooks

`m_deadlock_graph_mutex` does not cover a whole hook. `dlc_deadlock_check_before_lock` checks
the limit before it takes the mutex, and reports it without; `dlc_deadlock_delete_lock` reports
after its scope. `call` is a hook up to the next place where another thread may come in between,
`resume` is the rest. A hook whose thread is not disturbed is `step`.
-/
namespace CppGuard
open DeadlockMonitor ThreadHistory

/-- What a thread has still to do of the hook that it is in. -/
inductive Rest where
  /-- `dlc_deadlock_check_before_lock`, at the lock of the mutex. -/
  | checkOrder (mu : Addr)
  /-- The same, at `m_other_errors_found=true`. -/
  | setFound
  /-- `dlc_deadlock_check_before_try_lock`, at the lock of the mutex. -/
  | tryLock (mu : Addr)
  /-- `dlc_deadlock_check_after_lock`, at the lock of the mutex. -/
  | afterLock (mu : Addr)
  /-- `dlc_deadlock_delete_lock`, at the report of a lock that is held. -/
  | reportDelete (mu : Addr)
  deriving DecidableEq, Repr

namespace Config

/-! ## The sections -/

def beforeLockLimit (maxLocks : Nat) (t : ThreadId) (mu : Addr) (c : Config) :
    Option (Config × Option Rest) :=
  let m := c.monitor
  let tl := m.threadLocals t
  if 0 < tl.ignoreCounterLock then
    some (c.called t mu (invalidGraphId,
      m.setThreadLocal t { tl with ignoreCounterLock := tl.ignoreCounterLock - 1 }), none)
  else
    let (allLocks, m) := m.synchGetAllLocks maxLocks t true
    if maxLocks ≤ allLocks.n then do
      let m ← m.processError (.maxLocksPerThreadReached allLocks.n t mu) false
      return (c.called t mu (invalidGraphId, m), some .setFound)
    else some ({ c with monitor := m }, some (.checkOrder mu))

/-- `all_locks` refers to the history of the thread. -/
def beforeLockOrder (maxLocks now : Nat) (t : ThreadId) (mu : Addr) (c : Config) :
    Option Config := do
  let m := c.monitor
  let allLocks := m.locksHeld maxLocks t
  let (id, g) ← m.deadlockGraph.getId maxLocks t mu
  let g := g.updateStackTrace id t allLocks
  if allLocks.n = 0 then
    let m := { m with deadlockGraph := g }
    return c.called t mu (id, m.setLocksHeld t { allLocks with lockStartTimePoint := now })
  else
    let (refused, g) ← checkHeldLocks id allLocks.entries g
    let m := { m with deadlockGraph := g }
    match refused with
    | none => return c.called t mu (id, m)
    | some otherNodeId =>
      let report ← buildDeadlockCircleLogText g t mu id otherNodeId
      let m ← m.processError report true
      return c.called t mu (id, { m with potentialDeadlocksFound := true })

def countDownLock (t : ThreadId) (c : Config) : Config :=
  let m := c.monitor
  let tl := m.threadLocals t
  if 0 < tl.ignoreCounterLock then
    let m := m.setThreadLocal t { tl with ignoreCounterLock := tl.ignoreCounterLock - 1 }
    { c with monitor := m }
  else c

def beforeTryLockScope (maxLocks now : Nat) (t : ThreadId) (mu : Addr) (c : Config) :
    Option Config := do
  let m := c.monitor
  let (id, g) ← m.deadlockGraph.getId maxLocks t mu
  let (allLocks, m) := { m with deadlockGraph := g }.synchGetAllLocks maxLocks t true
  if allLocks.n = 0 then
    return c.called t mu (id, m.setLocksHeld t { allLocks with lockStartTimePoint := now })
  else return c.called t mu (id, m)

def countDownUnlock (t : ThreadId) (mu : Addr) (c : Config) : Config × Option Rest :=
  let m := c.monitor
  let tl := m.threadLocals t
  if 0 < tl.ignoreCounterUnlock then
    let m := m.setThreadLocal t { tl with ignoreCounterUnlock := tl.ignoreCounterUnlock - 1 }
    ({ c with monitor := m }, none)
  else (c, some (.afterLock mu))

def afterLockScope (maxLocks : Nat) (t : ThreadId) (mu : Addr) (c : Config) : Option Config := do
  let m := c.monitor
  let (id, g) ← m.deadlockGraph.getId maxLocks t mu
  let (heldLocks, m) := { m with deadlockGraph := g }.synchGetAllLocks maxLocks t false
  match updateLockHistoryAfterLock t mu id heldLocks with
  | .ok heldLocks => return { c with monitor := m.setLocksHeld t (disarm heldLocks) }
  | .error report =>
    let m ← m.processError report false
    let m := { m with otherErrorsFound := true }
    return { c with monitor := m.setLocksHeld t (disarm heldLocks) }

def deleteLockScope (maxLocks : Nat) (t : ThreadId) (mu : Addr) (c : Config) :
    Option (Config × Option Rest) := do
  let m := c.monitor
  let g ← m.deadlockGraph.removeNode mu
  let (allLocks, m) := { m with deadlockGraph := g }.synchGetAllLocks maxLocks t false
  if ∃ l ∈ allLocks.entries, l.mu = some mu then
    return ({ c with monitor := m }, some (.reportDelete mu))
  else return ({ c with monitor := m }, none)

/-- The first section of a hook. The hooks that are not listed consist of one section. -/
def call (maxLocks : Nat) (c : Config) (e : Event) : Option (Config × Option Rest) :=
  match e.hook with
  | .beforeLock mu => c.beforeLockLimit maxLocks e.thread mu
  | .beforeTryLock mu => some (c.countDownLock e.thread, some (.tryLock mu))
  | .afterLock mu => some (c.countDownUnlock e.thread mu)
  | .deleteLock mu => c.deleteLockScope maxLocks e.thread mu
  | _ => (c.step maxLocks e).map fun c => (c, none)

/-- The last section of a hook. -/
def resume (maxLocks now : Nat) (t : ThreadId) (c : Config) : Rest → Option Config
  | .checkOrder mu => c.beforeLockOrder maxLocks now t mu
  | .setFound => some { c with monitor := { c.monitor with otherErrorsFound := true } }
  | .tryLock mu => c.beforeTryLockScope maxLocks now t mu
  | .afterLock mu => c.afterLockScope maxLocks t mu
  | .reportDelete mu =>
    (c.monitor.processError (.deleteLockedLock t mu) false).map ({ c with monitor := · })

/-- What is left of a hook after its first section. -/
def finish (maxLocks now : Nat) (t : ThreadId) : Config × Option Rest → Option Config
  | (c, none) => some c
  | (c, some rest) => c.resume maxLocks now t rest

/-- `Synch_GetAllLocks` does not change what its thread holds. -/
theorem locksHeld_synchGetAllLocks (m : DeadlockMonitor) (maxLocks : Nat) (t : ThreadId)
    (monitorThread : Bool) :
    (m.synchGetAllLocks maxLocks t monitorThread).2.locksHeld maxLocks t =
      (m.synchGetAllLocks maxLocks t monitorThread).1 := by
  obtain ⟨hheld, hcore⟩ := synchGetAllLocks_spec m (fun _ => []) maxLocks t monitorThread
  exact (congrFun (congrArg Core.held hcore) t).trans hheld.symm

variable {maxLocks now : Nat} {c : Config} {t : ThreadId}

theorem beforeLock_sections (mu : Addr) :
    (c.beforeLockLimit maxLocks t mu).bind (finish maxLocks now t) =
      (dlcDeadlockCheckBeforeLock maxLocks now t mu c.monitor).map (c.called t mu) := by
  unfold beforeLockLimit dlcDeadlockCheckBeforeLock
  by_cases hignore : 0 < (c.monitor.threadLocals t).ignoreCounterLock
  · simp [hignore, finish]
  · have hheld := locksHeld_synchGetAllLocks c.monitor maxLocks t true
    rcases hget : c.monitor.synchGetAllLocks maxLocks t true with ⟨allLocks, m⟩
    rw [hget] at hheld
    simp only [hignore, if_false, hget]
    split_ifs with hfull hn
    · cases hreport : m.processError (.maxLocksPerThreadReached allLocks.n t mu) false with
      | none => simp
      | some m' => simp [finish, resume, called]
    · simp only [finish, resume, beforeLockOrder, hheld, hn, if_true, Option.bind_some]
      cases m.deadlockGraph.getId maxLocks t mu <;> rfl
    · simp only [finish, resume, beforeLockOrder, hheld, hn, if_false, Option.bind_some]
      rcases m.deadlockGraph.getId maxLocks t mu with _ | ⟨id, g⟩
      · rfl
      · dsimp only [Option.bind_eq_bind, Option.bind_some]
        rcases checkHeldLocks id allLocks.entries (g.updateStackTrace id t allLocks) with
          _ | ⟨_ | other, g'⟩
        · rfl
        · rfl
        · dsimp only [Option.bind_some]
          cases buildDeadlockCircleLogText g' t mu id other with
          | none => rfl
          | some report =>
            dsimp only [Option.bind_some]
            cases DeadlockMonitor.processError _ report true <;> rfl

theorem beforeTryLock_sections (mu : Addr) :
    (c.countDownLock t).beforeTryLockScope maxLocks now t mu =
      (dlcDeadlockCheckBeforeTryLock maxLocks now t mu c.monitor).map (c.called t mu) := by
  unfold beforeTryLockScope dlcDeadlockCheckBeforeTryLock countDownLock
  dsimp only
  split_ifs
  all_goals
    rcases Rep.getId maxLocks _ t mu with _ | ⟨id, g⟩
    · rfl
    · simp only [Option.bind_eq_bind, Option.bind_some]
      split_ifs <;> rfl

theorem afterLock_sections (mu : Addr) :
    finish maxLocks now t (c.countDownUnlock t mu) =
      (dlcDeadlockCheckAfterLock maxLocks t mu c.monitor).map ({ c with monitor := · }) := by
  unfold countDownUnlock dlcDeadlockCheckAfterLock
  dsimp only
  split_ifs
  · rfl
  · simp only [finish, resume, afterLockScope, Option.bind_eq_bind]
    rcases Rep.getId maxLocks _ t mu with _ | ⟨id, g⟩
    · rfl
    · dsimp only [Option.bind_some]
      cases updateLockHistoryAfterLock t mu id _ with
      | ok held => rfl
      | error report =>
        dsimp only
        cases DeadlockMonitor.processError _ report false <;> rfl

theorem deleteLock_sections (mu : Addr) :
    (c.deleteLockScope maxLocks t mu).bind (finish maxLocks now t) =
      (dlcDeadlockDeleteLock maxLocks t mu c.monitor).map ({ c with monitor := · }) := by
  unfold deleteLockScope dlcDeadlockDeleteLock
  simp only [Option.bind_eq_bind]
  cases Rep.removeNode c.monitor.deadlockGraph mu with
  | none => rfl
  | some g =>
    dsimp only [Option.bind_some]
    split_ifs <;> rfl

/-- A hook that is not disturbed is one step. -/
theorem call_finish (c : Config) (e : Event) :
    (c.call maxLocks e).bind (finish maxLocks e.now e.thread) = c.step maxLocks e := by
  obtain ⟨t, hook, now⟩ := e
  cases hook with
  | beforeLock mu => exact beforeLock_sections mu
  | beforeTryLock mu => exact beforeTryLock_sections mu
  | afterLock mu => exact afterLock_sections mu
  | deleteLock mu => exact deleteLock_sections mu
  | _ =>
    simp only [call]
    cases c.step maxLocks _ <;> rfl

end Config
/-! ## The sections on the state of interest -/

namespace Core

variable (maxLocks now : Nat) (t : ThreadId) (s : Core)

def processError (report : Report) (isDeadlock : Bool) : Option Core :=
  if s.haltOnError then none else some { s with errors := s.errors ++ [(report, isDeadlock)] }

def setHeld (held : SynchLocksHeld) : Core :=
  { s with held := Function.update s.held t held }

def setIgnoreLock (n : Nat) : Core := { s with ignoreLock := Function.update s.ignoreLock t n }

def setIgnoreUnlock (n : Nat) : Core :=
  { s with ignoreUnlock := Function.update s.ignoreUnlock t n }

def beforeLockLimit (mu : Addr) : Option (Core × Option Rest) :=
  if 0 < s.ignoreLock t then
    some ((s.setIgnoreLock t (s.ignoreLock t - 1)).called t mu invalidGraphId, none)
  else if maxLocks ≤ (s.held t).n then
    (s.processError (.maxLocksPerThreadReached (s.held t).n t mu) false).map
      fun s => (s.called t mu invalidGraphId, some .setFound)
  else some (s, some (.checkOrder mu))

def beforeLockOrder (mu : Addr) : Option Core := do
  let (id, g) ← s.graph.getId maxLocks t mu
  let (refused, g) ← checkHeldLocks id (s.held t).entries (g.updateStackTrace id t (s.held t))
  let s := ({ s with graph := g }.setHeld t (arm now (s.held t))).called t mu id
  match refused with
  | none => return s
  | some other =>
    let report ← buildDeadlockCircleLogText g t mu id other
    let s ← s.processError report true
    return { s with potentialDeadlocksFound := true }

def beforeTryLockScope (mu : Addr) : Option Core := do
  let (id, g) ← s.graph.getId maxLocks t mu
  return ({ s with graph := g }.setHeld t (arm now (s.held t))).called t mu id

def countDownUnlock (mu : Addr) : Core × Option Rest :=
  if 0 < s.ignoreUnlock t then (s.setIgnoreUnlock t (s.ignoreUnlock t - 1), none)
  else (s, some (.afterLock mu))

def afterLockScope (mu : Addr) : Option Core := do
  let (id, g) ← s.graph.getId maxLocks t mu
  let s := { s with graph := g }
  match updateLockHistoryAfterLock t mu id (s.held t) with
  | .ok held => return s.setHeld t (disarm held)
  | .error report =>
    let s' ← s.processError report false
    return { s' with otherErrorsFound := true }.setHeld t (disarm (s.held t))

def deleteLockScope (mu : Addr) : Option (Core × Option Rest) := do
  let g ← s.graph.removeNode mu
  return ({ s with graph := g },
    if ∃ l ∈ (s.held t).entries, l.mu = some mu then some (.reportDelete mu) else none)

def call (e : Event) : Option (Core × Option Rest) :=
  match e.hook with
  | .beforeLock mu => s.beforeLockLimit maxLocks e.thread mu
  | .beforeTryLock mu =>
    some (s.setIgnoreLock e.thread (s.ignoreLock e.thread - 1), some (.tryLock mu))
  | .inLock n =>
    match (s.calls e.thread)[n]? with
    | none => none
    | some (mu, id) =>
      if id = invalidGraphId then none
      else some (s.setHeld e.thread (updateLockHistoryInLock mu id (s.held e.thread)), none)
  | .afterLock mu => some (s.countDownUnlock e.thread mu)
  | .deleteLock mu => s.deleteLockScope e.thread mu
  | .cndWait =>
    some (s.setHeld e.thread { s.held e.thread with lockStartTimePoint := 2 ^ 64 - 1 }, none)
  | .increaseIgnoreCounter i j =>
    some ((s.setIgnoreLock e.thread ((s.ignoreLock e.thread + i) % 2 ^ 32)).setIgnoreUnlock
      e.thread ((s.ignoreUnlock e.thread + j) % 2 ^ 32), none)
  | .setOptions options => some ({ s with haltOnError := options.haltOnError }, none)
  | .threadDelete =>
    let s := { s with calls := Function.update s.calls e.thread [] }
    some (((s.setHeld e.thread (.new maxLocks e.thread)).setIgnoreLock e.thread 0).setIgnoreUnlock
      e.thread 0, none)

def resume : Rest → Option Core
  | .checkOrder mu => s.beforeLockOrder maxLocks now t mu
  | .setFound => some { s with otherErrorsFound := true }
  | .tryLock mu => s.beforeTryLockScope maxLocks now t mu
  | .afterLock mu => s.afterLockScope maxLocks t mu
  | .reportDelete mu => s.processError (.deleteLockedLock t mu) false

def finish : Core × Option Rest → Option Core
  | (s, none) => some s
  | (s, some rest) => s.resume maxLocks now t rest

/-- A hook that is not disturbed. -/
def step (e : Event) : Option Core :=
  (s.call maxLocks e).bind (finish maxLocks e.now e.thread)

end Core

namespace Config

variable {maxLocks now : Nat} {c : Config} {t : ThreadId} {mu : Addr}

theorem core_processError (m : DeadlockMonitor) (calls : ThreadId → List (Addr × GraphId))
    (report : Report) (isDeadlock : Bool) :
    (m.processError report isDeadlock).map (fun m => core maxLocks ⟨m, calls⟩) =
      (core maxLocks ⟨m, calls⟩).processError report isDeadlock := by
  unfold DeadlockMonitor.processError Core.processError
  cases hhalt : m.runtimeOptions.haltOnError
  · simp only [core, hhalt, Bool.false_eq_true, if_false, Option.map_some]
    rfl
  · simp [core, hhalt]

theorem core_setIgnoreLock (n : Nat) :
    core maxLocks ⟨c.monitor.setThreadLocal t
        { c.monitor.threadLocals t with ignoreCounterLock := n }, c.calls⟩ =
      (c.core maxLocks).setIgnoreLock t n := by
  have hunlock := Function.update_eq_self t fun u => (c.monitor.threadLocals u).ignoreCounterUnlock
  rw [core_setThreadLocal _ _ _ _ { c.monitor.threadLocals t with ignoreCounterLock := n } rfl]
  simp only [hunlock]
  rfl

theorem core_setIgnoreUnlock (n : Nat) :
    core maxLocks ⟨c.monitor.setThreadLocal t
        { c.monitor.threadLocals t with ignoreCounterUnlock := n }, c.calls⟩ =
      (c.core maxLocks).setIgnoreUnlock t n := by
  have hlock := Function.update_eq_self t fun u => (c.monitor.threadLocals u).ignoreCounterLock
  rw [core_setThreadLocal _ _ _ _ { c.monitor.threadLocals t with ignoreCounterUnlock := n } rfl]
  simp only [hlock]
  rfl

theorem core_beforeLockLimit :
    (c.beforeLockLimit maxLocks t mu).map (Prod.map (core maxLocks) id) =
      (c.core maxLocks).beforeLockLimit maxLocks t mu := by
  unfold beforeLockLimit Core.beforeLockLimit
  by_cases hignore : 0 < (c.monitor.threadLocals t).ignoreCounterLock
  · simp only [hignore, if_true, Option.map_some, Prod.map_apply, id_eq]
    rw [if_pos (show 0 < (c.core maxLocks).ignoreLock t from hignore),
      core_called invalidGraphId (core_setIgnoreLock _)]
    rfl
  · obtain ⟨hheld, hcore⟩ := synchGetAllLocks_spec c.monitor c.calls maxLocks t true
    rcases hget : c.monitor.synchGetAllLocks maxLocks t true with ⟨allLocks, m⟩
    rw [hget] at hheld hcore
    obtain rfl : allLocks = (c.core maxLocks).held t := hheld
    simp only [hignore, if_false, hget]
    rw [if_neg (show ¬ 0 < (c.core maxLocks).ignoreLock t from hignore)]
    split_ifs with hfull
    · have herror := @core_processError maxLocks m c.calls
        (.maxLocksPerThreadReached ((c.core maxLocks).held t).n t mu) false
      rw [hcore] at herror
      rw [← herror]
      cases m.processError (.maxLocksPerThreadReached ((c.core maxLocks).held t).n t mu) false <;>
        rfl
    · simp only [Option.map_some, Prod.map_apply, id_eq]
      rw [hcore]

theorem graph_core (maxLocks : Nat) (c : Config) :
    (c.core maxLocks).graph = c.monitor.deadlockGraph := rfl

theorem core_beforeLockOrder :
    (c.beforeLockOrder maxLocks now t mu).map (core maxLocks) =
      (c.core maxLocks).beforeLockOrder maxLocks now t mu := by
  have hheld : c.monitor.locksHeld maxLocks t = (c.core maxLocks).held t := rfl
  unfold beforeLockOrder Core.beforeLockOrder
  rw [graph_core]
  dsimp only [Option.bind_eq_bind]
  rw [hheld]
  rcases c.monitor.deadlockGraph.getId maxLocks t mu with _ | ⟨id, g⟩
  · rfl
  · dsimp only [Option.bind_some]
    split_ifs with hn
    · have hnil : ((c.core maxLocks).held t).entries = [] := by simp [SynchLocksHeld.entries, hn]
      rw [hnil, checkHeldLocks]
      exact congrArg some (core_called id (core_armed rfl _ hn))
    · have harm : arm now ((c.core maxLocks).held t) = (c.core maxLocks).held t := if_neg hn
      rcases checkHeldLocks id ((c.core maxLocks).held t).entries
        (g.updateStackTrace id t ((c.core maxLocks).held t)) with _ | ⟨_ | other, g'⟩
      · rfl
      · simp only [Option.bind_some, Core.setHeld, harm, Function.update_eq_self]
        rfl
      · dsimp only [Option.bind_some]
        cases hreport : buildDeadlockCircleLogText g' t mu id other with
        | none => rfl
        | some report =>
          have hhalt : (c.core maxLocks).haltOnError = c.monitor.runtimeOptions.haltOnError := rfl
          simp only [Option.bind_some, Core.setHeld, harm, Function.update_eq_self,
            DeadlockMonitor.processError, Core.processError, Core.called, hhalt]
          split_ifs <;> rfl

theorem core_countDownLock :
    (c.countDownLock t).core maxLocks =
      (c.core maxLocks).setIgnoreLock t ((c.core maxLocks).ignoreLock t - 1) := by
  have hcore := core_countDown maxLocks c t
  unfold countDownLock
  dsimp only
  split_ifs with hignore
  · rw [if_pos hignore] at hcore
    exact hcore
  · rw [if_neg hignore] at hcore
    exact hcore

theorem core_beforeTryLockScope :
    (c.beforeTryLockScope maxLocks now t mu).map (core maxLocks) =
      (c.core maxLocks).beforeTryLockScope maxLocks now t mu := by
  unfold beforeTryLockScope Core.beforeTryLockScope
  rw [graph_core]
  dsimp only [Option.bind_eq_bind]
  rcases c.monitor.deadlockGraph.getId maxLocks t mu with _ | ⟨id, g⟩
  · rfl
  · obtain ⟨hheld, hcore⟩ :=
      synchGetAllLocks_spec { c.monitor with deadlockGraph := g } c.calls maxLocks t true
    dsimp only [Option.bind_some]
    rcases hget : ({ c.monitor with deadlockGraph := g } : DeadlockMonitor).synchGetAllLocks
      maxLocks t true with ⟨allLocks, m⟩
    rw [hget] at hheld hcore
    obtain rfl : allLocks = (c.core maxLocks).held t := hheld
    have hcore' : core maxLocks ⟨m, c.calls⟩ = { c.core maxLocks with graph := g } := hcore
    dsimp only [Core.setHeld]
    split_ifs with hn
    · have hset := core_setLocksHeld m c.calls maxLocks t
        { (c.core maxLocks).held t with lockStartTimePoint := now }
      rw [hcore'] at hset
      rw [arm, if_pos hn]
      exact congrArg some (core_called id hset)
    · rw [arm, if_neg hn, Function.update_eq_self]
      exact congrArg some (core_called id hcore')

theorem core_countDownUnlock :
    Prod.map (core maxLocks) id (c.countDownUnlock t mu) =
      (c.core maxLocks).countDownUnlock t mu := by
  unfold countDownUnlock Core.countDownUnlock
  dsimp only
  by_cases hignore : 0 < (c.monitor.threadLocals t).ignoreCounterUnlock
  · rw [if_pos hignore, if_pos (show 0 < (c.core maxLocks).ignoreUnlock t from hignore)]
    exact Prod.ext (core_setIgnoreUnlock _) rfl
  · rw [if_neg hignore, if_neg (show ¬ 0 < (c.core maxLocks).ignoreUnlock t from hignore)]
    rfl

theorem core_afterLockScope :
    (c.afterLockScope maxLocks t mu).map (core maxLocks) =
      (c.core maxLocks).afterLockScope maxLocks t mu := by
  unfold afterLockScope Core.afterLockScope
  rw [graph_core]
  dsimp only [Option.bind_eq_bind]
  rcases c.monitor.deadlockGraph.getId maxLocks t mu with _ | ⟨id, g⟩
  · rfl
  · obtain ⟨hheld, hcore⟩ :=
      synchGetAllLocks_spec { c.monitor with deadlockGraph := g } c.calls maxLocks t false
    dsimp only [Option.bind_some]
    rcases hget : ({ c.monitor with deadlockGraph := g } : DeadlockMonitor).synchGetAllLocks
      maxLocks t false with ⟨heldLocks, m⟩
    rw [hget] at hheld hcore
    obtain rfl : heldLocks = (c.core maxLocks).held t := hheld
    have hcore' : core maxLocks ⟨m, c.calls⟩ = { c.core maxLocks with graph := g } := hcore
    cases updateLockHistoryAfterLock t mu id ((c.core maxLocks).held t) with
    | ok held =>
      have hset := core_setLocksHeld m c.calls maxLocks t (disarm held)
      rw [hcore'] at hset
      exact congrArg some hset
    | error report =>
      have herror := @core_processError maxLocks m c.calls report false
      rw [hcore'] at herror
      dsimp only
      rw [← herror]
      cases m.processError report false with
      | none => rfl
      | some m' =>
        exact congrArg some (core_setLocksHeld { m' with otherErrorsFound := true } _ _ _ _)

theorem core_deleteLockScope :
    (c.deleteLockScope maxLocks t mu).map (Prod.map (core maxLocks) id) =
      (c.core maxLocks).deleteLockScope t mu := by
  unfold deleteLockScope Core.deleteLockScope
  rw [graph_core]
  dsimp only [Option.bind_eq_bind]
  cases c.monitor.deadlockGraph.removeNode mu with
  | none => rfl
  | some g =>
    obtain ⟨hheld, hcore⟩ :=
      synchGetAllLocks_spec { c.monitor with deadlockGraph := g } c.calls maxLocks t false
    dsimp only [Option.bind_some]
    rcases hget : ({ c.monitor with deadlockGraph := g } : DeadlockMonitor).synchGetAllLocks
      maxLocks t false with ⟨allLocks, m⟩
    rw [hget] at hheld hcore
    obtain rfl : allLocks = (c.core maxLocks).held t := hheld
    have hcore' : core maxLocks ⟨m, c.calls⟩ = { c.core maxLocks with graph := g } := hcore
    dsimp only
    split_ifs
    · exact congrArg (fun s => some (s, some (Rest.reportDelete mu))) hcore'
    · exact congrArg (fun s => some (s, none)) hcore'

/-- The sections of the hooks, seen from the state of interest. -/
theorem core_call (e : Event) :
    (c.call maxLocks e).map (Prod.map (core maxLocks) id) = (c.core maxLocks).call maxLocks e := by
  obtain ⟨t, hook, now⟩ := e
  cases hook with
  | beforeLock mu => exact core_beforeLockLimit
  | beforeTryLock mu =>
    exact congrArg (fun s => some (s, some (Rest.tryLock mu))) core_countDownLock
  | inLock n =>
    have hcalls : (c.core maxLocks).calls = c.calls := rfl
    simp only [call, step, Core.call, hcalls]
    rcases (c.calls t)[n]? with _ | ⟨mu, id⟩
    · rfl
    · dsimp only
      split_ifs
      · rfl
      · exact congrArg (fun s => some (s, none)) (core_setLocksHeld _ _ _ _ _)
  | afterLock mu => exact congrArg some core_countDownUnlock
  | deleteLock mu => exact core_deleteLockScope
  | cndWait =>
    obtain ⟨hheld, hcore⟩ := synchGetAllLocks_spec c.monitor c.calls maxLocks t false
    refine congrArg (fun s => some (s, none)) ?_
    dsimp only [cppguardCndWait]
    rw [core_setLocksHeld, hcore, hheld]
    rfl
  | increaseIgnoreCounter i j =>
    exact congrArg (fun s => some (s, none)) (core_setThreadLocal c.monitor c.calls maxLocks t
      { c.monitor.threadLocals t with
        ignoreCounterLock := ((c.monitor.threadLocals t).ignoreCounterLock + i) % 2 ^ 32
        ignoreCounterUnlock := ((c.monitor.threadLocals t).ignoreCounterUnlock + j) % 2 ^ 32 } rfl)
  | setOptions options => rfl
  | threadDelete =>
    have heffect := @threadDelete_effect maxLocks now c t
    generalize hs : core maxLocks ⟨onThreadDelete t c.monitor, Function.update c.calls t []⟩ = s
      at heffect
    cases heffect
    exact congrArg (fun s => some (s, none)) hs

theorem core_resume (rest : Rest) :
    (c.resume maxLocks now t rest).map (core maxLocks) =
      (c.core maxLocks).resume maxLocks now t rest := by
  cases rest with
  | checkOrder mu => exact core_beforeLockOrder
  | setFound => rfl
  | tryLock mu => exact core_beforeTryLockScope
  | afterLock mu => exact core_afterLockScope
  | reportDelete mu =>
    have herror := @core_processError maxLocks c.monitor c.calls (.deleteLockedLock t mu) false
    exact (Option.map_map _ _ _).trans herror

/-- What a hook does to the state of interest depends on nothing else. -/
theorem core_step (c : Config) (e : Event) :
    (c.step maxLocks e).map (core maxLocks) = (c.core maxLocks).step maxLocks e := by
  rw [← call_finish, Core.step, ← core_call]
  rcases c.call maxLocks e with _ | ⟨c', _ | rest⟩
  · rfl
  · rfl
  · exact core_resume rest

end Config
end CppGuard
