import CppGuard.CriticalSection.Programs
import CppGuard.Library.Linearization

/-!
# The wrappers are transparent

A program without CppGuard calls the operating system only. The wrappers make the same calls in
the same order (`exec_bare`), and whatever the bare program can do, the program with the wrappers
can do as well: each call is made with its hooks around it, and no hook gets stuck (`exists_call`).
-/
namespace CppGuard
open Transition DeadlockMonitor

/-- A call of the operating system; `ok` is what `TryEnterCriticalSection` returns. -/
inductive BareCall where
  | enter (mu : Addr)
  | tryEnter (mu : Addr) (ok : Bool)
  | leave (mu : Addr)
  | delete (mu : Addr)
  deriving DecidableEq, Repr

/-- The locks of the operating system. -/
abbrev BareLocks := Addr → RecursiveMutex ThreadId

namespace BareLocks

/-- A call of a thread returns. -/
def step (locks : BareLocks) (e : ThreadId × BareCall) : Option BareLocks :=
  match e.2 with
  | .enter mu | .tryEnter mu true => ((locks mu).acquire e.1).map (Function.update locks mu)
  | .tryEnter _ false => some locks
  | .leave mu => ((locks mu).release e.1).map (Function.update locks mu)
  | .delete _ => some locks

end BareLocks

/-- The call of `GetId` or `RemoveNode` that the hooks around a call make. -/
def BareCall.graphCall (t : ThreadId) : BareCall → Rep.Op
  | .enter mu | .tryEnter mu _ | .leave mu => .getId t mu
  | .delete mu => .removeNode mu

namespace World

/-- The call of the operating system that returns in a step of a wrapper. -/
def returned (w : World) (a : Act) : List (ThreadId × BareCall) :=
  match a.action, w.position a.thread with
  | .enterReturns, .entering mu _ => [(a.thread, .enter mu)]
  | .tryEnterReturns ok, .trying mu _ => [(a.thread, .tryEnter mu ok)]
  | .leaveReturns, .leaving mu => [(a.thread, .leave mu)]
  | .delete mu, .idle => [(a.thread, .delete mu)]
  | _, _ => []

variable {maxLocks : Nat} {options : RuntimeOptions} {w w' : World} {as : List Act} {a : Act}
  {t : ThreadId}

/-- The hooks do not touch the locks. -/
theorem step_bare (h : step maxLocks w a = some w') :
    exec BareLocks.step w.mutex (returned w a) = some w'.mutex := by
  have hmove := step_moves h
  obtain ⟨t, action, now⟩ := a
  cases hmove with
  | enter | tryEnter | leave | inLock => simp [returned, hooked, exec]
  | delete hp => simp [returned, hp, hooked, exec, BareLocks.step]
  | enterReturns hp hm | tryEnterReturns hp hm | leaveReturns hp hm =>
    simp [returned, hp, hm, locked, exec, BareLocks.step]
  | tryEnterFails hp => simp [returned, hp, locked, exec, BareLocks.step]

/-- The calls that return in a run of the wrappers are a run of the bare program. -/
theorem exec_bare (h : exec (step maxLocks) w as = some w') :
    exec BareLocks.step w.mutex (linearization (step maxLocks) returned w as) = some w'.mutex := by
  obtain ⟨m, hm, rfl⟩ := exec_linearization (I := fun w m => w.mutex = m) (P := fun _ _ => True)
    (fun w m a w' hI _ hstep => ⟨_, hI ▸ step_bare hstep, rfl⟩) rfl h
    (along_of_mem fun _ _ _ => trivial)
  exact hm

/-! ## Every call of the bare program can be made -/

/-- The run `as` of the threads makes the calls `cs`, and its hooks the calls `ops`. -/
structure Reaches (maxLocks : Nat) (options : RuntimeOptions) (cs : List (ThreadId × BareCall))
    (ops : List Rep.Op) (as : List Act) (w : World) : Prop where
  run : exec (step maxLocks) (start options) as = some w
  calls : linearization (step maxLocks) returned (start options) as = cs
  graph : graphCalls as = ops

namespace Reaches

variable {cs : List (ThreadId × BareCall)} {ops : List Rep.Op} {mu : Addr}
  {m : RecursiveMutex ThreadId}

theorem concat (h : Reaches maxLocks options cs ops as w) (hstep : step maxLocks w a = some w') :
    Reaches maxLocks options (cs ++ returned w a) (ops ++ (a.event.bind Event.graphCall).toList)
      (as ++ [a]) w' where
  run := exec_concat.mpr ⟨w, h.run, hstep⟩
  calls := by
    rw [linearization_append h.run, h.calls]
    simp [linearization, hstep]
  graph := by rw [graphCalls_concat, h.graph]

/-- A before-hook adds the call that the wrapper goes on with. -/
theorem calls_of_before {c : Config} {hook : Hook}
    (h : w.config.step maxLocks ⟨t, hook, 1⟩ = some c)
    (hhook : hook = .beforeLock mu ∨ hook = .beforeTryLock mu) :
    ∃ calls, c.calls t = (mu, c.lastId t) :: calls := by
  have heffect := Config.step_effect h
  have hcalled : ∃ id, (c.core maxLocks).calls =
      ((w.config.core maxLocks).called t mu id).calls := by
    generalize c.core maxLocks = s' at heffect ⊢
    obtain rfl | rfl := hhook <;> cases heffect <;> exact ⟨_, rfl⟩
  obtain ⟨id, hid⟩ := hcalled
  have hself : c.calls t = (mu, id) :: w.config.calls t :=
    (congrFun hid t).trans (Function.update_self ..)
  exact ⟨_, by rw [Config.lastId_of_called hid, hself]⟩

variable (hhalt : options.haltOnError = false)
include hhalt

/-- A thread that owns the lock records it, and returns. -/
theorem finish {id : GraphId} {calls : List (Addr × GraphId)}
    (h : Reaches maxLocks options cs ops as w) (hslots : Rep.slots ops ≤ slotLimit)
    (hothers : ∀ u, u ≠ t → w.position u = .idle) (hposition : w.position t = acquired mu id)
    (hcalls : w.config.calls t = (mu, id) :: calls) :
    ∃ as' w', Reaches maxLocks options cs ops as' w' ∧ ∀ u, w'.position u = .idle := by
  by_cases hid : id = invalidGraphId
  · refine ⟨as, w, h, fun u => ?_⟩
    by_cases hu : u = t
    · rw [hu, hposition, acquired, if_pos hid]
    · exact hothers u hu
  · rw [acquired, if_neg hid] at hposition
    obtain ⟨c, hc⟩ := hook_returns hhalt h.run (h.graph ▸ hslots) t (.inLock 0) fun n hn => by
      obtain rfl := Hook.inLock.inj hn
      exact ⟨mu, id, by rw [hcalls]; rfl, hid⟩
    have hstep : step maxLocks w ⟨t, .inLock, 1⟩ = some (w.hooked t .idle c) := by
      simp [step, hposition, hc]
    have hrecorded := h.concat hstep
    simp only [returned, Act.event, Event.graphCall, Option.bind_some, Option.toList_none,
      List.append_nil] at hrecorded
    refine ⟨as ++ [⟨t, .inLock, 1⟩], w.hooked t .idle c, hrecorded, fun u => ?_⟩
    grind [position_hooked]

section

variable (h : Reaches maxLocks options cs ops as w) (hidle : ∀ u, w.position u = .idle)
  (hslots : Rep.slots (ops ++ [.getId t mu]) ≤ slotLimit)
include h hidle hslots

/-- The hook and the call of the operating system, for a thread that gets the lock. -/
theorem acquired_returns (ask returns : Action) (hook : Hook) (p : GraphId → Position)
    (call : BareCall) (m : RecursiveMutex ThreadId)
    (hhook : hook = .beforeLock mu ∨ hook = .beforeTryLock mu)
    (hask : ∀ c, w.config.step maxLocks ⟨t, hook, 1⟩ = some c →
      step maxLocks w ⟨t, ask, 1⟩ = some (w.hooked t (p (c.lastId t)) c))
    (hreturns : ∀ c id, step maxLocks (w.hooked t (p id) c) ⟨t, returns, 1⟩ =
      some ((w.hooked t (p id) c).locked t mu (acquired mu id) m))
    (hasked : returned w ⟨t, ask, 1⟩ = [])
    (hreturned : ∀ c id, returned (w.hooked t (p id) c) ⟨t, returns, 1⟩ = [(t, call)])
    (hgraph : (Act.event ⟨t, ask, 1⟩).bind Event.graphCall = some (.getId t mu))
    (hnone : (Act.event ⟨t, returns, 1⟩).bind Event.graphCall = none) : ∃ as' w',
    Reaches maxLocks options (cs ++ [(t, call)]) (ops ++ [.getId t mu]) as' w' ∧
      ∀ u, w'.position u = .idle := by
  have hslots' := h.graph ▸ (Rep.slots_append_le ..).trans hslots
  obtain ⟨c, hc⟩ := hook_returns hhalt h.run hslots' t hook
    (by obtain rfl | rfl := hhook <;> nofun)
  obtain ⟨calls, hcalls⟩ := calls_of_before hc hhook
  have hreached := (h.concat (hask c hc)).concat (hreturns c (c.lastId t))
  simp only [hasked, hreturned, hgraph, hnone, Option.toList_some, Option.toList_none,
    List.append_nil] at hreached
  refine hreached.finish hhalt hslots (fun u hu => ?_) (Function.update_self ..) hcalls
  rw [position_locked, position_hooked, if_neg hu, if_neg hu]
  exact hidle u

theorem enter (hm : (w.mutex mu).acquire t = some m) : ∃ as' w',
    Reaches maxLocks options (cs ++ [(t, .enter mu)]) (ops ++ [.getId t mu]) as' w' ∧
      ∀ u, w'.position u = .idle := by
  refine h.acquired_returns hhalt hidle hslots (.enter mu) .enterReturns (.beforeLock mu)
    (.entering mu) (.enter mu) m (Or.inl rfl) ?_ ?_ rfl ?_ rfl rfl
  · intro c hc
    simp [step, hidle, hc]
  · intro c id
    simp [step, hooked, hm]
  · intro c id
    simp [returned, hooked]

theorem tryEnter (hm : (w.mutex mu).acquire t = some m) : ∃ as' w',
    Reaches maxLocks options (cs ++ [(t, .tryEnter mu true)]) (ops ++ [.getId t mu]) as' w' ∧
      ∀ u, w'.position u = .idle := by
  refine h.acquired_returns hhalt hidle hslots (.tryEnter mu) (.tryEnterReturns true)
    (.beforeTryLock mu) (.trying mu) (.tryEnter mu true) m (Or.inr rfl) ?_ ?_ rfl ?_ rfl rfl
  · intro c hc
    simp [step, hidle, hc]
  · intro c id
    simp [step, hooked, hm]
  · intro c id
    simp [returned, hooked]

theorem tryEnterFails : ∃ as' w',
    Reaches maxLocks options (cs ++ [(t, .tryEnter mu false)]) (ops ++ [.getId t mu]) as' w' ∧
      ∀ u, w'.position u = .idle := by
  have hslots' := h.graph ▸ (Rep.slots_append_le ..).trans hslots
  obtain ⟨c, hc⟩ := hook_returns hhalt h.run hslots' t (.beforeTryLock mu) nofun
  have hask : step maxLocks w ⟨t, .tryEnter mu, 1⟩ =
      some (w.hooked t (.trying mu (c.lastId t)) c) := by simp [step, hidle, hc]
  have hfails : step maxLocks (w.hooked t (.trying mu (c.lastId t)) c)
      ⟨t, .tryEnterReturns false, 1⟩ =
        some ((w.hooked t (.trying mu (c.lastId t)) c).locked t mu .idle (w.mutex mu)) := by
    simp [step, hooked]
  have hreached := (h.concat hask).concat hfails
  refine ⟨_, _, by simpa [returned, hooked, Act.event, Event.graphCall] using hreached, fun u => ?_⟩
  grind [position_hooked, position_locked]

theorem leave (hm : (w.mutex mu).release t = some m) : ∃ as' w',
    Reaches maxLocks options (cs ++ [(t, .leave mu)]) (ops ++ [.getId t mu]) as' w' ∧
      ∀ u, w'.position u = .idle := by
  have hslots' := h.graph ▸ (Rep.slots_append_le ..).trans hslots
  obtain ⟨c, hc⟩ := hook_returns hhalt h.run hslots' t (.afterLock mu) nofun
  have hask : step maxLocks w ⟨t, .leave mu, 1⟩ = some (w.hooked t (.leaving mu) c) := by
    simp [step, hidle, hc]
  have hrelease : step maxLocks (w.hooked t (.leaving mu) c) ⟨t, .leaveReturns, 1⟩ =
      some ((w.hooked t (.leaving mu) c).locked t mu .idle m) := by simp [step, hooked, hm]
  have hreached := (h.concat hask).concat hrelease
  refine ⟨_, _, by simpa [returned, hooked, Act.event, Event.graphCall] using hreached, fun u => ?_⟩
  grind [position_hooked, position_locked]

end

theorem delete (h : Reaches maxLocks options cs ops as w) (hidle : ∀ u, w.position u = .idle)
    (hslots : Rep.slots ops ≤ slotLimit) : ∃ as' w',
    Reaches maxLocks options (cs ++ [(t, .delete mu)]) (ops ++ [.removeNode mu]) as' w' ∧
      ∀ u, w'.position u = .idle := by
  obtain ⟨c, hc⟩ := hook_returns hhalt h.run (h.graph ▸ hslots) t (.deleteLock mu) nofun
  have hdelete : step maxLocks w ⟨t, .delete mu, 1⟩ = some (w.hooked t .idle c) := by
    simp [step, hidle, hc]
  have hreached := h.concat hdelete
  refine ⟨_, _, by simpa [returned, hidle, Act.event, Event.graphCall] using hreached, fun u => ?_⟩
  grind [position_hooked]

end Reaches

/-- A thread makes a call of the bare program with the hooks around it. -/
theorem exists_call {cs : List (ThreadId × BareCall)} {ops : List Rep.Op} {c : ThreadId × BareCall}
    {locks : BareLocks} (hhalt : options.haltOnError = false)
    (h : Reaches maxLocks options cs ops as w) (hidle : ∀ u, w.position u = .idle)
    (hslots : Rep.slots (ops ++ [c.2.graphCall c.1]) ≤ slotLimit)
    (hstep : BareLocks.step w.mutex c = some locks) : ∃ as' w',
    Reaches maxLocks options (cs ++ [c]) (ops ++ [c.2.graphCall c.1]) as' w' ∧
      ∀ u, w'.position u = .idle := by
  obtain ⟨t, call⟩ := c
  cases call with
  | enter mu =>
    obtain ⟨m, hm, -⟩ := Option.map_eq_some_iff.mp hstep
    exact h.enter hhalt hidle hslots hm
  | tryEnter mu ok =>
    cases ok with
    | true =>
      obtain ⟨m, hm, -⟩ := Option.map_eq_some_iff.mp hstep
      exact h.tryEnter hhalt hidle hslots hm
    | false => exact h.tryEnterFails hhalt hidle hslots
  | leave mu =>
    obtain ⟨m, hm, -⟩ := Option.map_eq_some_iff.mp hstep
    exact h.leave hhalt hidle hslots hm
  | delete mu => exact h.delete hhalt hidle ((Rep.slots_append_le ..).trans hslots)

/-- The threads make all calls of a run of the bare program, one after the other. -/
theorem exists_run {cs : List (ThreadId × BareCall)} {locks : BareLocks}
    (hhalt : options.haltOnError = false)
    (hbare : exec BareLocks.step (fun _ => .free) cs = some locks)
    (hslots : Rep.slots (cs.map fun c => c.2.graphCall c.1) ≤ slotLimit) :
    ∃ as w, Reaches maxLocks options cs (cs.map fun c => c.2.graphCall c.1) as w ∧
      ∀ t, w.position t = .idle := by
  induction cs using List.reverseRecOn generalizing locks with
  | nil => exact ⟨[], _, ⟨rfl, rfl, rfl⟩, fun _ => rfl⟩
  | append_singleton cs c ih =>
    obtain ⟨locks₁, hbare₁, hstep⟩ := exec_concat.mp hbare
    rw [List.map_append] at hslots ⊢
    obtain ⟨as, w, h, hidle⟩ := ih hbare₁ ((Rep.slots_append_le ..).trans hslots)
    have hmutex := exec_bare h.run
    rw [h.calls] at hmutex
    obtain rfl := Option.some.inj (hmutex.symm.trans hbare₁)
    exact exists_call hhalt h hidle hslots hstep

/-- The calls of the operating system that return in a run of the wrappers, and what they leave
the locks in, are those of a run of the bare program; and every run of the bare program is one of
the wrappers, as long as it names few locks. -/
theorem transparent (maxLocks : Nat) {options : RuntimeOptions}
    (hhalt : options.haltOnError = false) :
    (∀ as w, exec (Bounded.step maxLocks) (start options) as = some w →
      exec BareLocks.step (fun _ => .free)
        (linearization (Bounded.step maxLocks) returned (start options) as) = some w.mutex) ∧
    ∀ cs locks, exec BareLocks.step (fun _ => .free) cs = some locks →
      Rep.slots (cs.map fun c => c.2.graphCall c.1) ≤ slotLimit →
        ∃ as w, exec (Bounded.step maxLocks) (start options) as = some w ∧
          linearization (Bounded.step maxLocks) returned (start options) as = cs ∧
            w.mutex = locks ∧ ∀ t, w.position t = .idle := by
  have hunbounded : ∀ w a w', Bounded.step maxLocks w a = some w' → step maxLocks w a = some w' :=
    fun _ _ _ => step_unbounded
  refine ⟨fun as w hrun => ?_, fun cs locks hbare hslots => ?_⟩
  · rw [linearization_mono hunbounded hrun]
    exact exec_bare (exec_unbounded hrun)
  · obtain ⟨as, w, h, hidle⟩ := @exists_run maxLocks options cs locks hhalt hbare hslots
    have hrun := exec_bounded h.run (h.graph ▸ hslots)
    have hmutex := exec_bare h.run
    rw [h.calls] at hmutex
    refine ⟨as, w, hrun, ?_, Option.some.inj (hmutex.symm.trans hbare), hidle⟩
    rw [linearization_mono hunbounded hrun, h.calls]

/-- The second thread gets the lock that the first one has left, and deletes another one. -/
def handsOver : List (ThreadId × BareCall) :=
  [(1, .enter 16), (1, .enter 16), (2, .tryEnter 16 false), (1, .leave 16), (1, .leave 16),
    (2, .tryEnter 16 true), (2, .delete 32)]

theorem transparent_sample : ∃ as w, exec (Bounded.step 20) (start {}) as = some w ∧
    linearization (Bounded.step 20) returned (start {}) as = handsOver ∧
    w.mutex 16 = .owned 2 0 := by
  obtain ⟨locks, hbare, howned⟩ : ∃ locks, exec BareLocks.step (fun _ => .free) handsOver =
      some locks ∧ locks 16 = .owned 2 0 := exists_exec (by decide +kernel)
  obtain ⟨as, w, hrun, hcalls, rfl, -⟩ :=
    (@transparent 20 {} rfl).2 handsOver locks hbare (by decide +kernel)
  exact ⟨as, w, hrun, hcalls, howned⟩

end World
end CppGuard
