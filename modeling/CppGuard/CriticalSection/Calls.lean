import CppGuard.CriticalSection.Basic
import CppGuard.DeadlockMonitor.Errors
import CppGuard.DeadlockMonitor.Progress
import CppGuard.ThreadHistory.Recorded

/-!
# Calls of the wrappers

A wrapper of `critical_section_monitor.cpp` as one step, for a thread that no other thread
interrupts. With room for a lock, entering and leaving a lock that the thread owns already
changes nothing; with a full history the acquisition is not recorded, but the release is.
-/
namespace CppGuard
open Relation Transition ThreadHistory DeadlockMonitor

namespace Config

/-- `EnterCriticalSection` itself, in the middle, does not change the monitor. -/
def cppguardEnterCriticalSection (maxLocks now : Nat) (t : ThreadId) (mu : Addr) (c : Config) :
    Option Config := do
  let c ← step maxLocks c ⟨t, .beforeLock mu, now⟩
  if c.lastId t = invalidGraphId then return c
  else step maxLocks c ⟨t, .inLock 0, now⟩

/-- `ok` is the result of `TryEnterCriticalSection`. -/
def cppguardTryenterCriticalSection (maxLocks now : Nat) (t : ThreadId) (mu : Addr) (ok : Bool)
    (c : Config) : Option Config := do
  let c ← step maxLocks c ⟨t, .beforeTryLock mu, now⟩
  if c.lastId t = invalidGraphId then return c
  else if ok then step maxLocks c ⟨t, .inLock 0, now⟩
  else return c

def cppguardLeaveCriticalSection (maxLocks now : Nat) (t : ThreadId) (mu : Addr) (c : Config) :
    Option Config :=
  step maxLocks c ⟨t, .afterLock mu, now⟩

/-- The history of the thread has no entry for the lock, and no room for one. -/
def NoRoomFor (maxLocks : Nat) (t : ThreadId) (mu : Addr) (c : Config) : Prop :=
  (c.monitor.locksHeld maxLocks t).n = maxLocks ∧
    ∀ l ∈ (c.monitor.locksHeld maxLocks t).entries, ¬ c.monitor.deadlockGraph.Live l.id mu

variable {maxLocks now : Nat} {c c' : Config} {t : ThreadId} {mu : Addr} {id : GraphId} {g : Rep}

/-- The id of a lock has an entry if and only if the lock had one before. -/
theorem entry_iff_live (hs : (c.core maxLocks).Inv maxLocks)
    (hgot : Rep.GotId mu id (c.core maxLocks).graph g) {l : LockT}
    (hl : l ∈ ((c.core maxLocks).held t).entries) :
    l.id = id ↔ (c.core maxLocks).graph.Live l.id mu := by
  constructor
  · rintro rfl
    obtain ⟨p, -, hlive | hretired⟩ := hs.held t l hl
    · obtain rfl := ((hgot.live l.id p).mpr (Or.inl hlive)).addr_inj hgot.clean.toIndexed hgot.self
      exact hlive
    · have := (hgot.retired l.id hretired).not_live hgot.clean.toIndexed hgot.self
      exact this.elim
  · intro hlive
    exact ((hgot.live l.id mu).mpr (Or.inl hlive)).id_inj hgot.clean.toIndexed hgot.self

theorem noRoomFor_iff (hs : (c.core maxLocks).Inv maxLocks)
    (hgot : Rep.GotId mu id (c.core maxLocks).graph g) :
    NoRoomFor maxLocks t mu c ↔ ¬ ((c.core maxLocks).held t).Accepts maxLocks id := by
  have hle := (hs.valid t).le
  rw [← (hs.valid t).n_eq] at hle
  unfold NoRoomFor SynchLocksHeld.Accepts
  rw [not_or]
  refine and_congr ⟨fun h => ?_, fun h => ?_⟩ ⟨fun h => ?_, fun h l hl => ?_⟩
  · exact Nat.not_lt.mpr h.ge
  · exact le_antisymm hle (Nat.not_lt.mp h)
  · rintro ⟨l, hl, hlid⟩
    exact h l hl ((entry_iff_live hs hgot hl).mp hlid)
  · exact fun hlive => h ⟨l, hl, (entry_iff_live hs hgot hl).mpr hlive⟩

/-- The in-hook after a before-hook that returned an id. -/
theorem inLock_core {s : Core} (now : Nat)
    (hcalls : (c.core maxLocks).calls = (s.called t mu id).calls) (hid : id ≠ invalidGraphId) :
    ∃ c', step maxLocks c ⟨t, .inLock 0, now⟩ = some c' ∧
      c'.core maxLocks = { c.core maxLocks with
        held := Function.update (c.core maxLocks).held t
          (updateLockHistoryInLock mu id ((c.core maxLocks).held t)) } := by
  have hcall : (c.calls t)[0]? = some (mu, id) := by
    have := (congrFun hcalls t).trans (Function.update_self ..)
    change c.calls t = _ at this
    rw [this]
    rfl
  have hstep : step maxLocks c ⟨t, .inLock 0, now⟩ =
      some { c with monitor := dlcDeadlockCheckInLock maxLocks t mu id c.monitor } := by
    simp only [step, hcall, hid, if_false]
  refine ⟨_, hstep, ?_⟩
  rw [dlcDeadlockCheckInLock, core_setLocksHeld]
  rfl

theorem enter_inv (hs : (c.core maxLocks).Inv maxLocks)
    (h : cppguardEnterCriticalSection maxLocks now t mu c = some c') :
    (c'.core maxLocks).Inv maxLocks := by
  obtain ⟨c₁, hbefore, h⟩ := Option.bind_eq_some_iff.mp h
  have hs₁ := (step_effect hbefore).inv hs
  split_ifs at h with hid
  · exact Option.some.inj h ▸ hs₁
  · exact (step_effect h).inv hs₁

/-- A call that is ignored changes the counter. -/
theorem enter_ignored (now : Nat) (mu : Addr)
    (hignore : 0 < (c.core maxLocks).ignoreLock t) :
    ∃ c', cppguardEnterCriticalSection maxLocks now t mu c = some c' ∧
      c'.core maxLocks = { (c.core maxLocks).called t mu invalidGraphId with
        ignoreLock := Function.update (c.core maxLocks).ignoreLock t
          ((c.core maxLocks).ignoreLock t - 1) } := by
  have hmonitor : 0 < (c.monitor.threadLocals t).ignoreCounterLock := hignore
  obtain ⟨c', hstep⟩ : ∃ c', step maxLocks c ⟨t, .beforeLock mu, now⟩ = some c' := by
    simp only [step, dlcDeadlockCheckBeforeLock, hmonitor, if_true]
    exact ⟨_, rfl⟩
  have hcore : c'.core maxLocks = { (c.core maxLocks).called t mu invalidGraphId with
      ignoreLock := Function.update (c.core maxLocks).ignoreLock t
        ((c.core maxLocks).ignoreLock t - 1) } := by
    have heffect := step_effect hstep
    generalize c'.core maxLocks = s' at heffect
    cases heffect with
    | lockIgnored => rfl
    | lockFull hzero | lock hzero | lockRefused hzero =>
      exact absurd hzero (Nat.pos_iff_ne_zero.mp hignore)
  have hcalls : (c'.core maxLocks).calls =
      ((c.core maxLocks).called t mu invalidGraphId).calls := by
    rw [hcore]
  exact ⟨c', by simp [cppguardEnterCriticalSection, hstep, lastId_of_called hcalls], hcore⟩

/-- A call that is not ignored, by a thread with room. -/
theorem enter_recorded (hs : (c.core maxLocks).Inv maxLocks)
    (hignore : (c.core maxLocks).ignoreLock t = 0)
    (hroom : ((c.core maxLocks).held t).n < maxLocks)
    (h : cppguardEnterCriticalSection maxLocks now t mu c = some c') :
    ∃ id refused s, Core.Asked now (c.core maxLocks) t mu id refused s ∧
      c'.core maxLocks = { s with
        held := Function.update s.held t (updateLockHistoryInLock mu id (s.held t)) } := by
  obtain ⟨c₁, hbefore, h⟩ := Option.bind_eq_some_iff.mp h
  obtain ⟨id, refused, hasked⟩ := (step_effect hbefore).asked hs hignore hroom
  have hne := hasked.entered.self.ne_invalid hasked.entered.keeps.clean.toIndexed
  rw [lastId_of_called hasked.calls, if_neg hne] at h
  obtain ⟨c₂, hin, hcore⟩ := inLock_core now hasked.calls hne
  obtain rfl := Option.some.inj (hin.symm.trans h)
  exact ⟨id, refused, _, hasked, hcore⟩

/-- A call by a thread without room. -/
theorem enter_full (hignore : (c.core maxLocks).ignoreLock t = 0)
    (hfull : maxLocks ≤ ((c.core maxLocks).held t).n)
    (h : cppguardEnterCriticalSection maxLocks now t mu c = some c') :
    ∃ report, (c'.core maxLocks).errors = (c.core maxLocks).errors ++ [(report, false)] := by
  obtain ⟨c₁, hbefore, h⟩ := Option.bind_eq_some_iff.mp h
  obtain ⟨report, hcore⟩ := (step_effect hbefore).full hignore hfull
  have hcalls : (c₁.core maxLocks).calls =
      ((c.core maxLocks).called t mu invalidGraphId).calls := by rw [hcore]
  rw [lastId_of_called hcalls, if_pos rfl] at h
  obtain rfl := Option.some.inj h
  exact ⟨report, by rw [hcore]⟩

/-- A call that succeeds is recorded, whether it is ignored or not. -/
theorem tryenter_core (hs : (c.core maxLocks).Inv maxLocks)
    (h : cppguardTryenterCriticalSection maxLocks now t mu true c = some c') :
    ∃ id g, Rep.GotId mu id (c.core maxLocks).graph g ∧
      c'.core maxLocks = { (c.core maxLocks).called t mu id with
        graph := g
        held := Function.update (c.core maxLocks).held t
          (updateLockHistoryInLock mu id (arm now ((c.core maxLocks).held t)))
        ignoreLock := Function.update (c.core maxLocks).ignoreLock t
          ((c.core maxLocks).ignoreLock t - 1) } := by
  obtain ⟨c₁, hbefore, h⟩ := Option.bind_eq_some_iff.mp h
  have heffect := step_effect hbefore
  generalize hs₁ : c₁.core maxLocks = s₁ at heffect
  cases heffect with
  | @tryLock _ id g hid =>
    have hgot := hs.clean.getId_arc hid
    have hne := hgot.self.ne_invalid hgot.clean.toIndexed
    have hcalls : (c₁.core maxLocks).calls = ((c.core maxLocks).called t mu id).calls := by
      rw [hs₁]
    rw [lastId_of_called hcalls, if_neg hne, if_pos rfl] at h
    obtain ⟨c₂, hin, hcore⟩ := inLock_core now hcalls hne
    obtain rfl := Option.some.inj (hin.symm.trans h)
    refine ⟨id, g, hgot, ?_⟩
    rw [hcore, hs₁]
    simp only [Function.update_self, Function.update_idem]

theorem tryenter_inv {ok : Bool} (hs : (c.core maxLocks).Inv maxLocks)
    (h : cppguardTryenterCriticalSection maxLocks now t mu ok c = some c') :
    (c'.core maxLocks).Inv maxLocks := by
  obtain ⟨c₁, hbefore, h⟩ := Option.bind_eq_some_iff.mp h
  have hs₁ := (step_effect hbefore).inv hs
  split_ifs at h with hid
  · exact Option.some.inj h ▸ hs₁
  · exact (step_effect h).inv hs₁
  · exact Option.some.inj h ▸ hs₁

/-- The release of a lock that has an entry under its present id. -/
theorem leave_recorded (hs : (c.core maxLocks).Inv maxLocks)
    (hignore : (c.core maxLocks).ignoreUnlock t = 0) (hid : (c.core maxLocks).graph.Live id mu)
    (hmem : ∃ l ∈ ((c.core maxLocks).held t).entries, l.id = id)
    (h : cppguardLeaveCriticalSection maxLocks now t mu c = some c') :
    ∃ held, updateLockHistoryAfterLock t mu id ((c.core maxLocks).held t) = .ok held ∧
      c'.core maxLocks = { c.core maxLocks with
        held := Function.update (c.core maxLocks).held t (disarm held) } := by
  have hget := Rep.getId_live hs.clean.toIndexed hid maxLocks t
  obtain ⟨held, hok⟩ := SynchLocksHeld.afterLock_ok (hs.valid t) hmem
  have heffect := step_effect h
  generalize c'.core maxLocks = s' at heffect ⊢
  cases heffect with
  | unlockIgnored hpos => exact absurd hignore (Nat.pos_iff_ne_zero.mp hpos)
  | unlock _ hid' hafter =>
    cases hid'.symm.trans hget
    exact ⟨_, hafter, rfl⟩
  | unlockError _ hid' herror =>
    cases hid'.symm.trans hget
    cases herror.symm.trans hok

theorem leave_ignored (now : Nat) (mu : Addr)
    (hignore : 0 < (c.core maxLocks).ignoreUnlock t) :
    ∃ c', cppguardLeaveCriticalSection maxLocks now t mu c = some c' ∧
      c'.core maxLocks = { c.core maxLocks with
        ignoreUnlock := Function.update (c.core maxLocks).ignoreUnlock t
          ((c.core maxLocks).ignoreUnlock t - 1) } := by
  have hmonitor : 0 < (c.monitor.threadLocals t).ignoreCounterUnlock := hignore
  obtain ⟨c', hstep⟩ : ∃ c', step maxLocks c ⟨t, .afterLock mu, now⟩ = some c' := by
    simp only [step, dlcDeadlockCheckAfterLock, hmonitor, if_true]
    exact ⟨_, rfl⟩
  refine ⟨c', hstep, ?_⟩
  have heffect := step_effect hstep
  generalize c'.core maxLocks = s' at heffect
  cases heffect with
  | unlockIgnored => rfl
  | unlock hzero | unlockError hzero => exact absurd hzero (Nat.pos_iff_ne_zero.mp hignore)

end Config
end CppGuard
