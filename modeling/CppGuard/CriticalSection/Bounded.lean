import CppGuard.CriticalSection.Basic
import CppGuard.DeadlockMonitor.Capacity
import CppGuard.Library.Linearization

/-!
# The wrappers with the vectors of the graph

A run of threads is a run of the hooks that they call. As long as these name few locks, the run is
the same with the limits of the vectors and without them (`exec_bounded`).
-/
namespace CppGuard
open Transition DeadlockMonitor

/-! ## The hooks of a run -/

/-- The hook that a step of a thread calls. -/
def Act.event (a : Act) : Option Event :=
  match a.action with
  | .enter mu => some ⟨a.thread, .beforeLock mu, a.now⟩
  | .tryEnter mu => some ⟨a.thread, .beforeTryLock mu, a.now⟩
  | .leave mu => some ⟨a.thread, .afterLock mu, a.now⟩
  | .delete mu => some ⟨a.thread, .deleteLock mu, a.now⟩
  | .inLock => some ⟨a.thread, .inLock 0, a.now⟩
  | .enterReturns | .tryEnterReturns _ | .leaveReturns => none

theorem Act.keepsRunning {a : Act} {e : Event} (h : a.event = some e) : Config.KeepsRunning e := by
  intro options hoptions
  obtain ⟨t, action, now⟩ := a
  cases action <;> cases h <;> cases hoptions

namespace World

/-- A run of threads is a run of the hooks that they call. -/
theorem exec_config {maxLocks : Nat} {w w' : World} {as : List Act}
    (h : exec (step maxLocks) w as = some w') :
    exec (Config.step maxLocks) w.config (as.filterMap Act.event) = some w'.config := by
  induction as generalizing w with
  | nil =>
    obtain rfl := Option.some.inj h
    rfl
  | cons a as ih =>
    obtain ⟨v, hv, has⟩ := exec_cons.mp h
    have hrest := ih has
    have hmove := step_moves hv
    obtain ⟨t, action, now⟩ := a
    cases hmove with
    | enter _ hc | tryEnter _ hc | leave _ hc | delete _ hc | inLock _ hc =>
      exact exec_cons.mpr ⟨_, hc, hrest⟩
    | enterReturns | tryEnterReturns | tryEnterFails | leaveReturns => exact hrest

/-- The calls of `GetId` and `RemoveNode` that the hooks of the threads can make. -/
def graphCalls (as : List Act) : List Rep.Op := CppGuard.graphCalls (as.filterMap Act.event)

theorem graphCalls_append (as as' : List Act) :
    graphCalls (as ++ as') = graphCalls as ++ graphCalls as' := by
  rw [graphCalls, List.filterMap_append, CppGuard.graphCalls_append]
  rfl

theorem graphCalls_concat (as : List Act) (a : Act) :
    graphCalls (as ++ [a]) = graphCalls as ++ (a.event.bind Event.graphCall).toList := by
  rw [graphCalls_append]
  congr 1
  cases ha : a.event with
  | none => simp [graphCalls, CppGuard.graphCalls, ha]
  | some e => cases he : e.graphCall <;> simp [graphCalls, CppGuard.graphCalls, ha, he]

/-! ## The limits of the vectors -/

/-- A step, with the limits of the vectors. -/
def Bounded.step (maxLocks : Nat) (w : World) (a : Act) : Option World :=
  match a.action, w.position a.thread with
  | .enter mu, .idle =>
    (Config.Bounded.step maxLocks w.config ⟨a.thread, .beforeLock mu, a.now⟩).map fun c =>
      w.hooked a.thread (.entering mu (c.lastId a.thread)) c
  | _, _ => w.step maxLocks a

variable {maxLocks : Nat} {options : RuntimeOptions} {w w' : World} {as : List Act} {a : Act}

theorem step_unbounded (h : Bounded.step maxLocks w a = some w') : step maxLocks w a = some w' := by
  unfold Bounded.step at h
  split at h
  · rename_i mu haction hidle
    obtain ⟨c, hc, rfl⟩ := Option.map_eq_some_iff.mp h
    simp only [step, haction, hidle]
    exact Option.map_eq_some_iff.mpr ⟨c, Config.Bounded.step_unbounded hc, rfl⟩
  · exact h

theorem exec_unbounded (h : exec (Bounded.step maxLocks) w as = some w') :
    exec (step maxLocks) w as = some w' := exec_mono (fun _ _ _ => step_unbounded) h

/-- A step does not meet the limits as long as few locks are named. -/
theorem step_bounded (hrun : exec (step maxLocks) (start options) as = some w)
    (hslots : Rep.slots (graphCalls (as ++ [a])) ≤ slotLimit) :
    Bounded.step maxLocks w a = step maxLocks w a := by
  unfold Bounded.step
  split
  · rename_i mu haction hidle
    have hevent : a.event = some ⟨a.thread, .beforeLock mu, a.now⟩ := by simp [Act.event, haction]
    have heq := Config.step_bounded (exec_config hrun) (e := ⟨a.thread, .beforeLock mu, a.now⟩)
      (by simpa [graphCalls, hevent] using hslots)
    simp only [step, haction, hidle, heq]
  · rfl

/-- A run of few locks does not meet the limits. -/
theorem exec_bounded (hrun : exec (step maxLocks) (start options) as = some w)
    (hslots : Rep.slots (graphCalls as) ≤ slotLimit) :
    exec (Bounded.step maxLocks) (start options) as = some w := by
  induction as using List.reverseRecOn generalizing w with
  | nil => exact hrun
  | append_singleton as a ih =>
    obtain ⟨v, hv, hstep⟩ := exec_concat.mp hrun
    have hbefore : Rep.slots (graphCalls as) ≤ slotLimit := by
      rw [graphCalls_append] at hslots
      exact (Rep.slots_append_le ..).trans hslots
    exact exec_concat.mpr ⟨v, ih hv hbefore, (step_bounded hv hslots).trans hstep⟩

/-- A hook returns as long as few locks are named. -/
theorem hook_returns (hhalt : options.haltOnError = false)
    (hrun : exec (step maxLocks) (start options) as = some w)
    (hslots : Rep.slots (graphCalls as) ≤ slotLimit) (t : ThreadId)
    (hook : Hook) (hcall : ∀ n, hook = .inLock n →
      ∃ mu id, (w.config.calls t)[n]? = some (mu, id) ∧ id ≠ invalidGraphId) :
    ∃ c, w.config.step maxLocks ⟨t, hook, 1⟩ = some c := by
  have hconfig := exec_config hrun
  obtain ⟨hinv, hcovered⟩ := Config.exec_covered hconfig
  refine Config.step_returns hinv ⟨t, hook, 1⟩ ?_ (hcovered.hasRoom hslots) hcall
  refine Config.exec_running (c := (start options).config) hhalt (fun e he => ?_) hconfig
  obtain ⟨a, -, ha⟩ := List.mem_filterMap.mp he
  exact Act.keepsRunning ha

end World
end CppGuard
