import CppGuard.DeadlockMonitor.Invariant

/-!
# Hooks return

A reachable monitor can stop for two reasons only: `halt_on_error` is set and there is an
error to report, or a lock is new and the node vector is full.
-/
namespace CppGuard
open DeadlockMonitor

namespace Rep

/-- `GetId` returns for every pointer. -/
def HasRoom (g : Rep) : Prop := g.freeNodes ≠ [] ∨ g.size < vecMaxSize

theorem Clean.getId_returns {g : Rep} (hg : g.Clean) (room : g.HasRoom) (maxLocks : Nat)
    (thread : ThreadId) (p : Addr) : ∃ id g', g.getId maxLocks thread p = some (id, g') := by
  by_cases hp : ∃ id, g.Live id p
  · obtain ⟨id, hid⟩ := hp
    exact ⟨id, g, getId_live hg.toIndexed hid maxLocks thread⟩
  · obtain ⟨-, hsize, hfree⟩ | ⟨id, g', h, -⟩ :=
      getId_fresh hg.toInv (not_exists.mp hp) maxLocks thread
    · obtain hne | hlt := room
      · exact absurd hfree hne
      · omega
    · exact ⟨id, g', h⟩

theorem Clean.report_returns {g : Rep} (hg : g.Clean) {id other : GraphId} {p q : Addr}
    (hid : g.Live id p) (hother : g.Live other q) (thread : ThreadId) (mu : Addr) :
    ∃ report, buildDeadlockCircleLogText g thread mu id other = some report := by
  have room : pathSize ≤ (List.replicate pathSize 0).length := by simp
  obtain ⟨len, path, hfind, -⟩ := findPath_returns hg.toOrdered (hid.findNode hg.toIndexed)
    (hother.findNode hg.toIndexed) room
  exact ⟨_, by simp [buildDeadlockCircleLogText, hfind]; rfl⟩

end Rep

namespace Config
open CppGuard.Rep

variable (maxLocks now : Nat) {c : Config} (t : ThreadId) {mu : Addr}

/-- `dlc_deadlock_check_before_lock` returns if the errors that it finds do not halt. -/
theorem beforeLock_returns {id : GraphId} {g g' : Rep} {refused : Option GraphId}
    (hid : c.monitor.deadlockGraph.getId maxLocks t mu = some (id, g))
    (hcheck : checkHeldLocks id (c.monitor.locksHeld maxLocks t).entries
      (g.updateStackTrace id t (c.monitor.locksHeld maxLocks t)) = some (refused, g'))
    (hfull : maxLocks ≤ (c.monitor.locksHeld maxLocks t).n →
      c.monitor.runtimeOptions.haltOnError = false)
    (hrefused : ∀ other, refused = some other → c.monitor.runtimeOptions.haltOnError = false ∧
      ∃ report, buildDeadlockCircleLogText g' t mu id other = some report) :
    ∃ result, dlcDeadlockCheckBeforeLock maxLocks now t mu c.monitor = some result := by
  unfold dlcDeadlockCheckBeforeLock
  by_cases hignore : 0 < (c.monitor.threadLocals t).ignoreCounterLock
  · simp only [hignore, if_true]
    exact ⟨_, rfl⟩
  · obtain ⟨hheld, hcore⟩ := synchGetAllLocks_spec c.monitor c.calls maxLocks t true
    rcases hget : c.monitor.synchGetAllLocks maxLocks t true with ⟨allLocks, m⟩
    rw [hget] at hheld hcore
    obtain rfl : allLocks = c.monitor.locksHeld maxLocks t := hheld
    have hgraph : m.deadlockGraph = c.monitor.deadlockGraph := congrArg Core.graph hcore
    have hhalt : m.runtimeOptions.haltOnError = c.monitor.runtimeOptions.haltOnError :=
      congrArg Core.haltOnError hcore
    simp only [hignore, if_false]
    split_ifs with hroom hn
    · simp only [processError, hhalt, hfull hroom, Bool.false_eq_true, if_false]
      exact ⟨_, rfl⟩
    · simp only [hgraph, hid]
      exact ⟨_, rfl⟩
    · cases refused with
      | none =>
        simp only [hgraph, hid, hcheck, Option.bind_eq_bind, Option.bind_some]
        exact ⟨_, rfl⟩
      | some other =>
        obtain ⟨hno, report, hreport⟩ := hrefused other rfl
        simp only [hgraph, hid, hcheck, hreport, processError, hhalt, hno, Option.bind_eq_bind,
          Option.bind_some, Bool.false_eq_true, if_false]
        exact ⟨_, rfl⟩

theorem afterLock_returns {id : GraphId} {g : Rep}
    (hid : c.monitor.deadlockGraph.getId maxLocks t mu = some (id, g))
    (herror : ∀ report, ThreadHistory.updateLockHistoryAfterLock t mu id
      (c.monitor.locksHeld maxLocks t) = .error report →
      c.monitor.runtimeOptions.haltOnError = false) :
    ∃ m', dlcDeadlockCheckAfterLock maxLocks t mu c.monitor = some m' := by
  unfold dlcDeadlockCheckAfterLock
  by_cases hignore : 0 < (c.monitor.threadLocals t).ignoreCounterUnlock
  · simp only [hignore, if_true]
    exact ⟨_, rfl⟩
  · obtain ⟨hheld, hcore⟩ :=
      synchGetAllLocks_spec { c.monitor with deadlockGraph := g } c.calls maxLocks t false
    rcases hget : ({ c.monitor with deadlockGraph := g } : DeadlockMonitor).synchGetAllLocks
      maxLocks t false with ⟨heldLocks, m⟩
    rw [hget] at hheld hcore
    obtain rfl : heldLocks = c.monitor.locksHeld maxLocks t := hheld
    have hhalt : m.runtimeOptions.haltOnError = c.monitor.runtimeOptions.haltOnError :=
      congrArg Core.haltOnError hcore
    simp only [hignore, if_false, hid, Option.bind_eq_bind, Option.bind_some, hget]
    cases hafter : ThreadHistory.updateLockHistoryAfterLock t mu id
      (c.monitor.locksHeld maxLocks t) with
    | ok held => exact ⟨_, rfl⟩
    | error report =>
      simp only [processError, hhalt, herror report hafter, Bool.false_eq_true, if_false,
        Option.bind_some]
      exact ⟨_, rfl⟩

theorem beforeTryLock_returns {id : GraphId} {g : Rep}
    (hid : c.monitor.deadlockGraph.getId maxLocks t mu = some (id, g)) :
    ∃ result, dlcDeadlockCheckBeforeTryLock maxLocks now t mu c.monitor = some result := by
  unfold dlcDeadlockCheckBeforeTryLock
  have hgraph := congrArg Core.graph (core_countDown maxLocks c t)
  set m₁ := if 0 < (c.monitor.threadLocals t).ignoreCounterLock then
        c.monitor.setThreadLocal t { c.monitor.threadLocals t with
          ignoreCounterLock := (c.monitor.threadLocals t).ignoreCounterLock - 1 }
      else c.monitor with hm₁
  have hid₁ : m₁.deadlockGraph.getId maxLocks t mu = some (id, g) := by
    rw [← hid]
    exact congrArg (fun g => Rep.getId maxLocks g t mu) hgraph
  simp only [← hm₁, hid₁, Option.bind_eq_bind, Option.bind_some]
  split_ifs <;> exact ⟨_, rfl⟩

theorem deleteLock_returns {g : Rep} (hg : c.monitor.deadlockGraph.removeNode mu = some g)
    (halt : c.monitor.runtimeOptions.haltOnError = false) :
    ∃ m', dlcDeadlockDeleteLock maxLocks t mu c.monitor = some m' := by
  unfold dlcDeadlockDeleteLock
  obtain ⟨-, hcore⟩ :=
    synchGetAllLocks_spec { c.monitor with deadlockGraph := g } c.calls maxLocks t false
  rcases hget : ({ c.monitor with deadlockGraph := g } : DeadlockMonitor).synchGetAllLocks
    maxLocks t false with ⟨allLocks, m⟩
  rw [hget] at hcore
  have hhalt : m.runtimeOptions.haltOnError = c.monitor.runtimeOptions.haltOnError :=
    congrArg Core.haltOnError hcore
  simp only [hg, Option.bind_eq_bind, Option.bind_some, hget, processError, hhalt, halt,
    Bool.false_eq_true, if_false]
  split_ifs <;> exact ⟨_, rfl⟩

/-- Without `halt_on_error` and with room for a node every hook returns. -/
theorem step_returns {maxLocks : Nat} {c : Config} (hs : (c.core maxLocks).Inv maxLocks) (e : Event)
    (halt : c.monitor.runtimeOptions.haltOnError = false) (room : c.monitor.deadlockGraph.HasRoom)
    (hcall : ∀ call, e.hook = .inLock call → ∃ mu id,
      (c.calls e.thread)[call]? = some (mu, id) ∧ id ≠ invalidGraphId) :
    ∃ c', step maxLocks c e = some c' := by
  obtain ⟨t, hook, now⟩ := e
  have hgot := fun mu => hs.clean.getId_returns room maxLocks t mu
  cases hook with
  | beforeLock mu =>
    obtain ⟨id, g, hid⟩ := hgot mu
    have hgid := hs.clean.getId_arc hid
    obtain ⟨hids, -, -, -⟩ := hgid.clean.updateStackTrace_arc id t (c.monitor.locksHeld maxLocks t)
    obtain ⟨refused, g', hcheck, -⟩ := checkHeldLocks_spec hids.clean
      ((hids.live id mu).mpr hgid.self) (c.monitor.locksHeld maxLocks t).entries
      fun l hl => (hs.issued t l hl).imp fun p hp =>
        hids.keeps.issued l.id p (hgid.keeps.issued l.id p hp)
    have hentered := hs.entered hid hcheck
    have hreport : ∀ other, refused = some other → c.monitor.runtimeOptions.haltOnError = false ∧
        ∃ report, buildDeadlockCircleLogText g' t mu id other = some report := by
      intro other hother
      obtain ⟨q, hq⟩ := (hentered.cycle other hother).1.1
      exact ⟨halt, hentered.keeps.clean.report_returns hentered.self
        ((hentered.live other q).mpr (Or.inl hq)) t mu⟩
    obtain ⟨result, h⟩ := beforeLock_returns maxLocks now t hid hcheck (fun _ => halt) hreport
    exact ⟨_, by rw [step]; simp only [h, Option.map_some]; rfl⟩
  | beforeTryLock mu =>
    obtain ⟨id, g, hid⟩ := hgot mu
    obtain ⟨result, h⟩ := beforeTryLock_returns maxLocks now t hid
    exact ⟨_, by rw [step]; simp only [h, Option.map_some]; rfl⟩
  | inLock call =>
    obtain ⟨mu, id, hmem, hne⟩ := hcall call rfl
    exact ⟨_, by simp only [step, hmem, hne, if_false]; rfl⟩
  | afterLock mu =>
    obtain ⟨id, g, hid⟩ := hgot mu
    obtain ⟨m', h⟩ := afterLock_returns maxLocks t hid fun _ _ => halt
    exact ⟨_, by rw [step]; simp only [h, Option.map_some]; rfl⟩
  | deleteLock mu =>
    obtain ⟨g, hg, -⟩ := hs.clean.removeNode_arc mu
    obtain ⟨m', h⟩ := deleteLock_returns maxLocks t hg halt
    exact ⟨_, by rw [step]; simp only [h, Option.map_some]; rfl⟩
  | cndWait => exact ⟨_, rfl⟩
  | increaseIgnoreCounter i j => exact ⟨_, rfl⟩
  | setOptions options => exact ⟨_, rfl⟩
  | threadDelete => exact ⟨_, rfl⟩

end Config
end CppGuard
