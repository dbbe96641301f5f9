import CppGuard.CriticalSection.Basic

/-!
# What the monitor has recorded

`World.record` follows the steps of the threads and keeps for each of them the locks that
the monitor has recorded. The history of a thread is this list as long as no lock is
deleted that a thread has recorded or asked for (`Tracking.step`).
-/
namespace CppGuard
open CountedList ThreadHistory DeadlockMonitor

namespace World

abbrev core (maxLocks : Nat) (w : World) : Core := w.config.core maxLocks

/-- The locks that are recorded after a step. -/
def record (maxLocks : Nat) (w : World) (t : ThreadId) (action : Action)
    (held : ThreadId → List (Addr × Nat)) : ThreadId → List (Addr × Nat) :=
  match action, w.position t with
  | .inLock, .entered mu _ => Function.update held t (acquire maxLocks mu (held t))
  | .leave mu, _ => Function.update held t (release mu (held t))
  | _, _ => held

@[simp] theorem record_leave (maxLocks : Nat) (w : World) (t : ThreadId) (mu : Addr)
    (held : ThreadId → List (Addr × Nat)) :
    w.record maxLocks t (.leave mu) held = Function.update held t (release mu (held t)) := rfl

theorem record_inLock {w : World} {t : ThreadId} {mu : Addr} {id : GraphId}
    (h : w.position t = .entered mu id) (maxLocks : Nat) (held : ThreadId → List (Addr × Nat)) :
    w.record maxLocks t .inLock held = Function.update held t (acquire maxLocks mu (held t)) := by
  unfold record
  rw [h]

/-- No thread has recorded the lock or asked for it. -/
def Unused (w : World) (held : ThreadId → List (Addr × Nat)) (mu : Addr) : Prop :=
  ∀ t, mu ∉ keys (held t) ∧ ∀ id, (w.position t).pending ≠ some (mu, id)

/-- The monitor has recorded the locks `held`. -/
structure Tracking (maxLocks : Nat) (w : World) (held : ThreadId → List (Addr × Nat)) : Prop where
  inv : (w.core maxLocks).Inv maxLocks
  ignoreLock : ∀ t, (w.core maxLocks).ignoreLock t = 0
  ignoreUnlock : ∀ t, (w.core maxLocks).ignoreUnlock t = 0
  holds : ∀ t, (w.core maxLocks).Holds t (held t)
  pending : ∀ t mu id, (w.position t).pending = some (mu, id) →
    (∃ calls, (w.core maxLocks).calls t = (mu, id) :: calls) ∧ (w.core maxLocks).graph.Live id mu

namespace Tracking

variable {maxLocks now : Nat} {w w' : World} {held : ThreadId → List (Addr × Nat)} {t : ThreadId}
  {hook : Hook} {action : Action} {c : Config} {p : Position} {es : List (Addr × Nat)} {mu : Addr}

theorem start (maxLocks : Nat) (options : RuntimeOptions) :
    Tracking maxLocks (World.start options) fun _ => [] := by
  have hinv := Core.inv_initial maxLocks
  refine ⟨⟨hinv.clean, hinv.valid, hinv.held, hinv.calls⟩, fun _ => rfl, fun _ => rfl, fun t => ?_,
    fun t mu id h => ?_⟩
  · simp [Core.Holds, Records, World.start, Config.core, locksHeld, SynchLocksHeld.new,
      SynchLocksHeld.entries]
  · cases h

theorem length_eq (h : Tracking maxLocks w held) (t : ThreadId) :
    ((w.core maxLocks).held t).n = (held t).length :=
  (h.inv.valid t).n_eq.trans (h.holds t).length_eq

/-- A thread calls a hook. For the other threads nothing changes but the graph. -/
theorem hooked (h : Tracking maxLocks w held)
    (hstep : w.config.step maxLocks ⟨t, hook, now⟩ = some c)
    (hunused : ∀ q, hook = .deleteLock q → w.Unused held q)
    (ignoreLock : (c.core maxLocks).ignoreLock t = 0)
    (ignoreUnlock : (c.core maxLocks).ignoreUnlock t = 0) (holds : (c.core maxLocks).Holds t es)
    (pending : ∀ mu id, p.pending = some (mu, id) →
      (∃ calls, (c.core maxLocks).calls t = (mu, id) :: calls) ∧
        (c.core maxLocks).graph.Live id mu) :
    Tracking maxLocks (w.hooked t p c) (Function.update held t es) := by
  have heffect := Config.step_effect hstep
  have hev := heffect.evolves h.inv
  refine ⟨heffect.inv h.inv, fun u => ?_, fun u => ?_, fun u => ?_, fun u mu id hu => ?_⟩
  · by_cases hut : u = t
    · exact hut ▸ ignoreLock
    · exact (heffect.frame hut).2.2.1.trans (h.ignoreLock u)
  · by_cases hut : u = t
    · exact hut ▸ ignoreUnlock
    · exact (heffect.frame hut).2.2.2.trans (h.ignoreUnlock u)
  · by_cases hut : u = t
    · rw [hut, Function.update_self]
      exact holds
    · rw [Function.update_of_ne hut]
      have hentries := congrArg SynchLocksHeld.entries (heffect.frame hut).1
      exact (h.holds u).evolves hev hentries fun q hq heq => (hunused q heq u).1 hq
  · by_cases hut : u = t
    · subst hut
      exact pending mu id (by simpa [World.hooked] using hu)
    · have hu' : (w.position u).pending = some (mu, id) := by simpa [World.hooked, hut] using hu
      obtain ⟨hcalls, hlive⟩ := h.pending u mu id hu'
      exact ⟨(heffect.frame hut).2.1 ▸ hcalls,
        hev.live id mu hlive fun heq => (hunused mu heq u).2 id hu'⟩

/-- A thread goes on without a hook. -/
theorem locked {m : RecursiveMutex ThreadId} (h : Tracking maxLocks w held)
    (pending : ∀ call, p.pending = some call → (w.position t).pending = some call) :
    Tracking maxLocks (w.locked t mu p m) held := by
  refine ⟨h.inv, h.ignoreLock, h.ignoreUnlock, h.holds, fun u q id hu => ?_⟩
  by_cases hut : u = t
  · subst hut
    exact h.pending u q id (pending _ (by simpa [World.locked] using hu))
  · exact h.pending u q id (by simpa [World.locked, hut] using hu)

/-- A wrapper goes on with the call that its before-hook has added. -/
theorem pending_called {id : GraphId} {q : Addr} {x : GraphId}
    (hcalls : (c.core maxLocks).calls = ((w.core maxLocks).called t mu id).calls)
    (hlive : (c.core maxLocks).graph.Live id mu)
    (h : (if c.lastId t = invalidGraphId then none else some (mu, c.lastId t)) = some (q, x)) :
    (∃ calls, (c.core maxLocks).calls t = (q, x) :: calls) ∧
      (c.core maxLocks).graph.Live x q := by
  have hcall : (c.core maxLocks).calls t = (mu, id) :: (w.core maxLocks).calls t :=
    (congrFun hcalls t).trans (Function.update_self ..)
  rw [Config.lastId_of_called hcalls] at h
  split_ifs at h with hid
  obtain ⟨rfl, rfl⟩ := Prod.mk.inj (Option.some.inj h)
  exact ⟨⟨_, hcall⟩, hlive⟩

theorem enter (h : Tracking maxLocks w held)
    (hstep : w.config.step maxLocks ⟨t, .beforeLock mu, now⟩ = some c) :
    Tracking maxLocks (w.hooked t (.entering mu (c.lastId t)) c) held := by
  have heffect := Config.step_effect hstep
  have hev := heffect.evolves h.inv
  rw [← Function.update_eq_self t held]
  obtain hroom | hfull := lt_or_ge ((w.core maxLocks).held t).n maxLocks
  · obtain ⟨id, refused, hlocked⟩ := heffect.locked h.inv (h.ignoreLock t) hroom
    refine h.hooked hstep (by simp) ?_ ?_ ?_ fun q x hpending => ?_
    · rw [hlocked.ignoreLock, h.ignoreLock t]
    · rw [hlocked.ignoreUnlock, h.ignoreUnlock t]
    · exact (h.holds t).evolves hev (hlocked.entries t) (by simp)
    · exact pending_called hlocked.calls hlocked.entered.self hpending
  · obtain ⟨report, hcore⟩ := heffect.full (h.ignoreLock t) hfull
    have hcalls : (c.core maxLocks).calls =
        ((w.core maxLocks).called t mu invalidGraphId).calls := by rw [hcore]
    refine h.hooked hstep (by simp) ?_ ?_ ?_ ?_
    · rw [hcore]
      exact h.ignoreLock t
    · rw [hcore]
      exact h.ignoreUnlock t
    · exact (h.holds t).evolves hev (by rw [hcore]; rfl) (by simp)
    · intro q x hpending
      simp [Config.lastId_of_called hcalls, Position.pending] at hpending

theorem tryEnter (h : Tracking maxLocks w held)
    (hstep : w.config.step maxLocks ⟨t, .beforeTryLock mu, now⟩ = some c) :
    Tracking maxLocks (w.hooked t (.trying mu (c.lastId t)) c) held := by
  have heffect := Config.step_effect hstep
  have hev := heffect.evolves h.inv
  obtain ⟨id, htried⟩ := heffect.tried h.inv
  rw [← Function.update_eq_self t held]
  refine h.hooked hstep (by simp) ?_ ?_ ?_ fun q x hpending => ?_
  · rw [htried.ignoreLock (h.ignoreLock t), h.ignoreLock t]
  · rw [htried.ignoreUnlock, h.ignoreUnlock t]
  · exact (h.holds t).evolves hev (htried.entries t) (by simp)
  · exact pending_called htried.calls htried.live hpending

theorem leave (h : Tracking maxLocks w held)
    (hstep : w.config.step maxLocks ⟨t, .afterLock mu, now⟩ = some c) :
    Tracking maxLocks (w.hooked t (.leaving mu) c)
      (Function.update held t (release mu (held t))) := by
  have hleft := (Config.step_effect hstep).left h.inv (h.ignoreUnlock t) (h.holds t)
  refine h.hooked hstep (by simp) ?_ ?_ hleft.holds fun q x hpending => by cases hpending
  · rw [hleft.ignoreLock, h.ignoreLock t]
  · rw [hleft.ignoreUnlock, h.ignoreUnlock t]

theorem delete (h : Tracking maxLocks w held)
    (hstep : w.config.step maxLocks ⟨t, .deleteLock mu, now⟩ = some c)
    (hunused : w.Unused held mu) : Tracking maxLocks (w.hooked t .idle c) held := by
  have heffect := Config.step_effect hstep
  have hdeleted := heffect.deleted
  have hhook : ∀ q, Hook.deleteLock mu = .deleteLock q → w.Unused held q :=
    fun q hq => Hook.deleteLock.inj hq ▸ hunused
  rw [← Function.update_eq_self t held]
  refine h.hooked hstep hhook ?_ ?_ ?_ fun q x hpending => by cases hpending
  · rw [hdeleted.ignoreLock, h.ignoreLock t]
  · rw [hdeleted.ignoreUnlock, h.ignoreUnlock t]
  · have hentries := congrArg SynchLocksHeld.entries (congrFun hdeleted.held t)
    refine (h.holds t).evolves (heffect.evolves h.inv) hentries fun q hq heq => ?_
    exact (hhook q heq t).1 hq

/-- `dlc_deadlock_check_in_lock` is called with the lock of the before-hook. -/
theorem inLock_effect {id : GraphId} (h : Tracking maxLocks w held)
    (hentered : w.position t = .entered mu id)
    (hstep : w.config.step maxLocks ⟨t, .inLock 0, now⟩ = some c) :
    c.core maxLocks = { w.core maxLocks with
      held := Function.update (w.core maxLocks).held t
        (updateLockHistoryInLock mu id ((w.core maxLocks).held t)) } := by
  obtain ⟨⟨calls, hcalls⟩, -⟩ := h.pending t mu id (by rw [hentered, Position.pending])
  have heffect := Config.step_effect hstep
  generalize c.core maxLocks = s' at heffect ⊢
  cases heffect with
  | inLock hcall =>
    rw [hcalls, List.getElem?_cons_zero, Option.some.injEq, Prod.mk.injEq] at hcall
    obtain ⟨rfl, rfl⟩ := hcall
    rfl

theorem inLock {id : GraphId} (h : Tracking maxLocks w held)
    (hentered : w.position t = .entered mu id)
    (hstep : w.config.step maxLocks ⟨t, .inLock 0, now⟩ = some c) :
    Tracking maxLocks (w.hooked t .idle c)
      (Function.update held t (acquire maxLocks mu (held t))) := by
  obtain ⟨-, hlive⟩ := h.pending t mu id (by rw [hentered, Position.pending])
  have hcore := h.inLock_effect hentered hstep
  refine h.hooked hstep (by simp) ?_ ?_ ?_ fun q x hpending => by cases hpending
  · rw [hcore]
    exact h.ignoreLock t
  · rw [hcore]
    exact h.ignoreUnlock t
  · rw [hcore]
    unfold Core.Holds
    simp only [Function.update_self]
    exact (h.holds t).inLock h.inv hlive

theorem pending_acquired {id : GraphId} {call : Addr × GraphId}
    (h : (acquired mu id).pending = some call) : id ≠ invalidGraphId ∧ call = (mu, id) := by
  unfold acquired at h
  split_ifs at h with hid
  · cases h
  · exact ⟨hid, (Option.some.inj h).symm⟩

/-- Every step of a thread. -/
theorem step (h : Tracking maxLocks w held) (hmove : Moves maxLocks w t now action w')
    (hunused : ∀ mu, action = .delete mu → w.Unused held mu) :
    Tracking maxLocks w' (w.record maxLocks t action held) := by
  cases hmove with
  | enter _ hstep => exact h.enter hstep
  | tryEnter _ hstep => exact h.tryEnter hstep
  | leave _ hstep => exact h.leave hstep
  | delete _ hstep => exact h.delete hstep (hunused _ rfl)
  | enterReturns hentering =>
    refine h.locked fun call hcall => ?_
    obtain ⟨hid, rfl⟩ := pending_acquired hcall
    rw [hentering, Position.pending, if_neg hid]
  | tryEnterReturns htrying =>
    refine h.locked fun call hcall => ?_
    obtain ⟨hid, rfl⟩ := pending_acquired hcall
    rw [htrying, Position.pending, if_neg hid]
  | tryEnterFails => exact h.locked fun call hcall => by cases hcall
  | inLock hentered hstep =>
    rw [record_inLock hentered]
    exact h.inLock hentered hstep
  | leaveReturns => exact h.locked fun call hcall => by cases hcall

end Tracking
end World
end CppGuard
