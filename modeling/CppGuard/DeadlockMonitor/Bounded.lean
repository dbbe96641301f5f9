import CppGuard.DeadlockMonitor.Invariant
import CppGuard.GraphCycles.Capacity

/-!
# The hooks with the vectors of the graph

Of the hooks only `dlc_deadlock_check_before_lock` calls functions of the graph that have limits
beyond the one of `nodes_`. As long as there are few slots, it does not meet them (`step_eq`).
-/
namespace CppGuard
open DeadlockMonitor

namespace DeadlockMonitor.Bounded

def checkHeldLocks (graphId : GraphId) : List LockT → Rep → Option (Option GraphId × Rep)
  | [], g => some (none, g)
  | l :: locks, g =>
    -- ignore stale lock
    if g.ptr l.id = none then checkHeldLocks graphId locks g
    -- recursive lock
    else if l.id = graphId then some (none, g)
    else
      match Rep.Bounded.insertEdge g l.id graphId with
      | none => none
      | some (true, g) => checkHeldLocks graphId locks g
      | some (false, g) => some (some l.id, g)

def buildDeadlockCircleLogText (g : Rep) (thread : ThreadId) (mu : Addr)
    (muId otherNodeId : GraphId) : Option Report := do
  let (pathLen, path) ←
    Rep.Bounded.findPath g muId otherNodeId pathSize (List.replicate pathSize 0)
  return .deadlockCircle mu thread ((path.take (min pathLen pathSize)).filterMap (pathEntry g))

def dlcDeadlockCheckBeforeLock (maxLocks now : Nat) (thread : ThreadId) (mu : Addr)
    (m : DeadlockMonitor) : Option (GraphId × DeadlockMonitor) :=
  let tl := m.threadLocals thread
  if 0 < tl.ignoreCounterLock then
    some (invalidGraphId,
      m.setThreadLocal thread { tl with ignoreCounterLock := tl.ignoreCounterLock - 1 })
  else
    let (allLocks, m) := m.synchGetAllLocks maxLocks thread true
    if maxLocks ≤ allLocks.n then do
      let m ← m.processError (.maxLocksPerThreadReached allLocks.n thread mu) false
      return (invalidGraphId, { m with otherErrorsFound := true })
    else do
      let (id, g) ← m.deadlockGraph.getId maxLocks thread mu
      let g := g.updateStackTrace id thread allLocks
      if allLocks.n = 0 then
        let m := { m with deadlockGraph := g }
        return (id, m.setLocksHeld thread { allLocks with lockStartTimePoint := now })
      else
        let (refused, g) ← checkHeldLocks id allLocks.entries g
        let m := { m with deadlockGraph := g }
        match refused with
        | none => return (id, m)
        | some otherNodeId =>
          let report ← buildDeadlockCircleLogText g thread mu id otherNodeId
          let m ← m.processError report true
          return (id, { m with potentialDeadlocksFound := true })

end DeadlockMonitor.Bounded

/-- One call of a hook, with the limits of the vectors. -/
def Config.Bounded.step (maxLocks : Nat) (c : Config) (e : Event) : Option Config :=
  match e.hook with
  | .beforeLock mu =>
    (DeadlockMonitor.Bounded.dlcDeadlockCheckBeforeLock maxLocks e.now e.thread mu c.monitor).map
      (c.called e.thread mu)
  | _ => c.step maxLocks e

namespace DeadlockMonitor.Bounded

variable {maxLocks now : Nat} {t : ThreadId} {mu : Addr} {m : DeadlockMonitor} {g : Rep}
  {id other : GraphId}

/-! ## A hook that returns does the same without the limits -/

theorem checkHeldLocks_unbounded {locks : List LockT} {res : Option GraphId × Rep}
    (h : checkHeldLocks id locks g = some res) :
    DeadlockMonitor.checkHeldLocks id locks g = some res := by
  induction locks generalizing g with
  | nil => exact h
  | cons l locks ih =>
    rw [Bounded.checkHeldLocks] at h
    rw [DeadlockMonitor.checkHeldLocks]
    split_ifs at h ⊢
    · exact ih h
    · exact h
    · cases hinsert : Rep.Bounded.insertEdge g l.id id with
      | none => simp [hinsert] at h
      | some result =>
        obtain ⟨ok, g'⟩ := result
        rw [Rep.Bounded.insertEdge_unbounded hinsert]
        rw [hinsert] at h
        cases ok with
        | false => exact h
        | true => exact ih h

theorem report_unbounded {report : Report}
    (h : buildDeadlockCircleLogText g t mu id other = some report) :
    CppGuard.buildDeadlockCircleLogText g t mu id other = some report := by
  obtain ⟨res, hfind, h⟩ := Option.bind_eq_some_iff.mp h
  exact Option.bind_eq_some_iff.mpr ⟨res, Rep.Bounded.findPath_unbounded hfind, h⟩

theorem beforeLock_unbounded {res : GraphId × DeadlockMonitor}
    (h : dlcDeadlockCheckBeforeLock maxLocks now t mu m = some res) :
    DeadlockMonitor.dlcDeadlockCheckBeforeLock maxLocks now t mu m = some res := by
  unfold Bounded.dlcDeadlockCheckBeforeLock at h
  unfold DeadlockMonitor.dlcDeadlockCheckBeforeLock
  refine Rep.Bounded.else_mono h fun h => Rep.Bounded.else_mono h fun h => ?_
  obtain ⟨⟨id, g⟩, hid, h⟩ := Option.bind_eq_some_iff.mp h
  refine Option.bind_eq_some_iff.mpr ⟨_, hid, ?_⟩
  refine Rep.Bounded.else_mono h fun h => ?_
  obtain ⟨⟨refused, g'⟩, hcheck, h⟩ := Option.bind_eq_some_iff.mp h
  refine Option.bind_eq_some_iff.mpr ⟨_, checkHeldLocks_unbounded hcheck, ?_⟩
  cases refused with
  | none => exact h
  | some other =>
    obtain ⟨report, hreport, h⟩ := Option.bind_eq_some_iff.mp h
    exact Option.bind_eq_some_iff.mpr ⟨report, report_unbounded hreport, h⟩

/-! ## The limits are not reached -/

/-- The loop over the held locks keeps the graph within the limits. -/
theorem checkHeldLocks_eq (hg : g.Fits) (id : GraphId) (locks : List LockT) :
    checkHeldLocks id locks g = DeadlockMonitor.checkHeldLocks id locks g ∧
      ∀ refused g', DeadlockMonitor.checkHeldLocks id locks g = some (refused, g') → g'.Fits := by
  induction locks generalizing g with
  | nil =>
    refine ⟨rfl, fun refused g' h => ?_⟩
    exact (Prod.mk.inj (Option.some.inj h)).2 ▸ hg
  | cons l locks ih =>
    rw [Bounded.checkHeldLocks, DeadlockMonitor.checkHeldLocks]
    split_ifs
    · exact ih hg
    · exact ⟨rfl, fun refused g' h => (Prod.mk.inj (Option.some.inj h)).2 ▸ hg⟩
    · obtain ⟨ok, g₁, hinsert, hinv, hsame⟩ := Rep.insertEdge_inv hg.toInv l.id id
      have hg₁ : g₁.Fits :=
        ⟨hinv, hg.small.insertEdge hg.slots_le hinsert, hsame.size.trans_le hg.slots_le⟩
      rw [Rep.Bounded.insertEdge_eq hg, hinsert]
      cases ok with
      | true => exact ih hg₁
      | false => exact ⟨rfl, fun refused g' h => (Prod.mk.inj (Option.some.inj h)).2 ▸ hg₁⟩

theorem report_eq (hg : g.Fits) : buildDeadlockCircleLogText g t mu id other =
    CppGuard.buildDeadlockCircleLogText g t mu id other := by
  rw [Bounded.buildDeadlockCircleLogText, CppGuard.buildDeadlockCircleLogText,
    Rep.Bounded.findPath_eq hg]

theorem beforeLock_eq
    (hfits : ∀ id g, m.deadlockGraph.getId maxLocks t mu = some (id, g) → g.Fits) :
    dlcDeadlockCheckBeforeLock maxLocks now t mu m =
      DeadlockMonitor.dlcDeadlockCheckBeforeLock maxLocks now t mu m := by
  have hgraph : (m.synchGetAllLocks maxLocks t true).2.deadlockGraph = m.deadlockGraph :=
    congrArg Core.graph (synchGetAllLocks_spec m (fun _ => []) maxLocks t true).2
  unfold Bounded.dlcDeadlockCheckBeforeLock DeadlockMonitor.dlcDeadlockCheckBeforeLock
  dsimp only
  refine if_congr Iff.rfl rfl (if_congr Iff.rfl rfl ?_)
  rw [hgraph]
  cases hid : m.deadlockGraph.getId maxLocks t mu with
  | none => rfl
  | some result =>
    obtain ⟨id, g⟩ := result
    have hg := (hfits id g hid).updateStackTrace id t (m.synchGetAllLocks maxLocks t true).1
    obtain ⟨heq, hkeeps⟩ :=
      checkHeldLocks_eq hg id (m.synchGetAllLocks maxLocks t true).1.entries
    refine if_congr Iff.rfl rfl ?_
    rw [heq]
    cases hcheck : DeadlockMonitor.checkHeldLocks id (m.synchGetAllLocks maxLocks t true).1.entries
        (g.updateStackTrace id t (m.synchGetAllLocks maxLocks t true).1) with
    | none => rfl
    | some result =>
      obtain ⟨refused, g'⟩ := result
      cases refused with
      | none => rfl
      | some other =>
        have hreport := @report_eq t mu g' id other (hkeeps _ _ hcheck)
        simp only [Option.bind_eq_bind, Option.bind_some, hreport]

end DeadlockMonitor.Bounded

namespace Config.Bounded

variable {maxLocks : Nat} {c c' : Config} {e : Event}

theorem step_unbounded (h : step maxLocks c e = some c') : c.step maxLocks e = some c' := by
  obtain ⟨t, hook, now⟩ := e
  cases hook with
  | beforeLock mu =>
    obtain ⟨res, hres, rfl⟩ := Option.map_eq_some_iff.mp h
    exact Option.map_eq_some_iff.mpr ⟨res, DeadlockMonitor.Bounded.beforeLock_unbounded hres, rfl⟩
  | _ => exact h

/-- A hook that names a lock does not meet the limits if there is room for the lock. -/
theorem step_eq (hfits : ∀ mu id g, e.hook = .beforeLock mu →
      c.monitor.deadlockGraph.getId maxLocks e.thread mu = some (id, g) → g.Fits) :
    step maxLocks c e = c.step maxLocks e := by
  obtain ⟨t, hook, now⟩ := e
  cases hook with
  | beforeLock mu =>
    exact congrArg (Option.map (c.called t mu)) (DeadlockMonitor.Bounded.beforeLock_eq
      fun id g => hfits mu id g rfl)
  | _ => rfl

end Config.Bounded
end CppGuard
