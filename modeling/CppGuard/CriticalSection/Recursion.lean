import CppGuard.CriticalSection.Calls
import CppGuard.DeadlockMonitor.Reentry

/-!
# Entering and leaving an owned lock

A thread that enters a lock which it owns, and leaves it, has the history that it had before,
unless the history is full: `dlc_deadlock_check_before_lock` tests for a free slot although
none is needed. Then the acquisition is not recorded, and the release is that of the first
acquisition.
-/
namespace CppGuard
open Relation Transition ThreadHistory DeadlockMonitor

namespace DeadlockMonitor
open CppGuard.Rep

/-- No edge from a lock that stands before the lock of `id` closes a cycle. -/
def PrecedingUnreachable (g : Rep) (id : GraphId) (locks : List LockT) : Prop :=
  ∀ a, Attempted g id locks a → ¬ ReflTransGen g.Arc id a

end DeadlockMonitor

namespace Core
open CppGuard.Rep

variable {g g' : Rep} {mu : Addr} {id : GraphId} {locks : List LockT} {refused : Option GraphId}

/-- The new arcs lead to `id`, so that a path from `id` does not use them. -/
theorem Entered.path_old (h : Entered g mu id locks refused g') {x : GraphId}
    (hpath : ReflTransGen g'.Arc id x) : ReflTransGen g.Arc id x := by
  induction hpath with
  | refl => exact .refl
  | tail hab hbc ih =>
    obtain hold | ⟨-, rfl⟩ := h.arc_new _ _ hbc
    · exact ih.tail hold
    · exact absurd (TransGen.tail' hab hbc) (h.keeps.clean.acyclic _)

/-- An edge is refused if and only if one of those that are tried closes a cycle. -/
theorem Entered.refused_iff (h : Entered g mu id locks refused g') :
    refused = none ↔ PrecedingUnreachable g id locks := by
  constructor
  · intro hnone a ha hpath
    have hpath' : ReflTransGen g'.Arc id a := ReflTransGen.mono h.arc_mono _ _ hpath
    exact h.keeps.clean.acyclic _ (TransGen.tail' hpath' (h.accepted hnone a ha))
  · intro hno
    by_contra hsome
    obtain ⟨other, hother⟩ := Option.ne_none_iff_exists'.mp hsome
    obtain ⟨ha, hpath⟩ := h.cycle other hother
    exact hno other ha (h.path_old hpath)

end Core

namespace Config

/-- The held list of the thread is the same, and no error was found but potential deadlocks. -/
structure Unaltered (maxLocks : Nat) (t : ThreadId) (c c' : Config) : Prop where
  n : (c'.monitor.locksHeld maxLocks t).n = (c.monitor.locksHeld maxLocks t).n
  entries : (c'.monitor.locksHeld maxLocks t).entries = (c.monitor.locksHeld maxLocks t).entries
  errors : ∃ new, c'.monitor.processedErrors = c.monitor.processedErrors ++ new ∧
    ∀ e ∈ new, e.2 = true
  otherErrorsFound : c'.monitor.otherErrorsFound = c.monitor.otherErrorsFound

/-- `cppguard_enter_critical_section` and then `cppguard_leave_critical_section`. -/
def enterLeave (maxLocks now now' : Nat) (t : ThreadId) (mu : Addr) (c : Config) :
    Option Config := do
  let c ← cppguardEnterCriticalSection maxLocks now t mu c
  cppguardLeaveCriticalSection maxLocks now' t mu c

variable {maxLocks now now' : Nat} {c c' c'' : Config} {t : ThreadId} {mu : Addr} {id : GraphId}

/-- A call by a thread with room returns, unless the process is halted for a deadlock. -/
theorem enter_returns (now : Nat) (hs : (c.core maxLocks).Inv maxLocks)
    (hid : (c.core maxLocks).graph.Live id mu)
    (hroom : ((c.core maxLocks).held t).n < maxLocks)
    (hhalt : (c.core maxLocks).haltOnError = true →
      PrecedingUnreachable (c.core maxLocks).graph id ((c.core maxLocks).held t).entries) :
    ∃ c', cppguardEnterCriticalSection maxLocks now t mu c = some c' := by
  obtain hzero | hpos := Nat.eq_zero_or_pos ((c.core maxLocks).ignoreLock t)
  · have hget := Rep.getId_live hs.clean.toIndexed hid maxLocks t
    obtain ⟨hids, -, -, -⟩ := hs.clean.updateStackTrace_arc id t ((c.core maxLocks).held t)
    obtain ⟨refused, g', hcheck, -⟩ := checkHeldLocks_spec hids.clean ((hids.live id mu).mpr hid)
      ((c.core maxLocks).held t).entries
      fun l hl => (hs.issued t l hl).imp fun p hp => hids.keeps.issued l.id p hp
    have hentered := hs.entered hget hcheck
    obtain ⟨result, hresult⟩ := beforeLock_returns maxLocks now t hget hcheck
      (fun hfull => absurd hroom (Nat.not_lt.mpr hfull)) fun other hother => by
        obtain ⟨q, hq⟩ := (hentered.cycle other hother).1.1
        refine ⟨?_, hentered.keeps.clean.report_returns hentered.self
          ((hentered.live other q).mpr (Or.inl hq)) t mu⟩
        by_contra hon
        have hnone := hentered.refused_iff.mpr (hhalt (by simpa [core] using hon))
        cases hnone.symm.trans hother
    have hstep : step maxLocks c ⟨t, .beforeLock mu, now⟩ = some (c.called t mu result) := by
      simp only [step, hresult, Option.map_some]
    obtain ⟨id', refused', hasked⟩ := (step_effect hstep).asked hs hzero hroom
    have hne := hasked.entered.self.ne_invalid hasked.entered.keeps.clean.toIndexed
    obtain ⟨c', hin, -⟩ := inLock_core now hasked.calls hne
    refine ⟨c', ?_⟩
    rw [cppguardEnterCriticalSection, hstep]
    simp only [Option.bind_eq_bind, Option.bind_some, lastId_of_called hasked.calls, hne, if_false,
      hin]
  · obtain ⟨c', h, -⟩ := enter_ignored now mu hpos
    exact ⟨c', h⟩

/-- With room the pair returns the history that was there before. -/
theorem enterLeave_unaltered (hs : (c.core maxLocks).Inv maxLocks)
    (hlock : (c.core maxLocks).ignoreLock t = 0) (hunlock : (c.core maxLocks).ignoreUnlock t = 0)
    (hid : (c.core maxLocks).graph.Live id mu)
    (hmem : ∃ l ∈ ((c.core maxLocks).held t).entries, l.id = id)
    (hroom : ((c.core maxLocks).held t).n < maxLocks)
    (hhalt : (c.core maxLocks).haltOnError = true →
      PrecedingUnreachable (c.core maxLocks).graph id ((c.core maxLocks).held t).entries) :
    ∃ c', enterLeave maxLocks now now' t mu c = some c' ∧ Unaltered maxLocks t c c' := by
  obtain ⟨c₁, henter⟩ := enter_returns now hs hid hroom hhalt
  obtain ⟨id', refused, s, hasked, hcore⟩ := enter_recorded hs hlock hroom henter
  have hself : (c₁.core maxLocks).graph.Live id' mu := by
    rw [hcore]
    exact hasked.entered.self
  have hclean := hasked.entered.keeps.clean
  obtain rfl : id' = id := hasked.entered.self.id_inj hclean.toIndexed
    ((hasked.entered.live id mu).mpr (Or.inl hid))
  have hn : ((c.core maxLocks).held t).n ≠ 0 := by
    obtain ⟨l, hl, -⟩ := hmem
    rw [(hs.valid t).n_eq]
    exact (List.length_pos_of_mem hl).ne'
  have hheld : s.held t = (c.core maxLocks).held t := by
    rw [hasked.held, Function.update_self, arm, if_neg hn]
  have hafter : updateLockHistoryAfterLock t mu id' ((c₁.core maxLocks).held t) =
      .ok ((c.core maxLocks).held t) := by
    rw [hcore]
    simp only [Function.update_self, hheld]
    exact SynchLocksHeld.afterLock_inLock (hs.valid t) hmem
  have hmem₁ : ∃ l ∈ ((c₁.core maxLocks).held t).entries, l.id = id' := by
    rw [hcore]
    simp only [Function.update_self, hheld]
    exact inLock_recorded (hs.valid t) mu id' hroom
  have hget := Rep.getId_live (hcore ▸ hclean.toIndexed) hself maxLocks t
  obtain ⟨m', hleave⟩ := afterLock_returns maxLocks t hget fun report herror => by
    cases herror.symm.trans hafter
  have hstep : cppguardLeaveCriticalSection maxLocks now' t mu c₁ =
      some { c₁ with monitor := m' } := by
    simp only [cppguardLeaveCriticalSection, step, hleave, Option.map_some]
  refine ⟨_, by rw [enterLeave, henter]; exact hstep, ?_⟩
  obtain ⟨held, hok, hleft⟩ := leave_recorded (enter_inv hs henter)
    (by rw [hcore]; exact hasked.ignoreUnlock ▸ hunlock) hself hmem₁ hstep
  obtain rfl := Except.ok.inj (hok.symm.trans hafter)
  have hback : m'.locksHeld maxLocks t = (c.core maxLocks).held t := by
    have := congrFun (congrArg Core.held hleft) t
    simp only [Function.update_self, disarm, hn, if_false] at this
    exact this
  have herrors : m'.processedErrors = s.errors :=
    (congrArg Core.errors hleft).trans (by rw [hcore])
  have hother : m'.otherErrorsFound = s.otherErrorsFound :=
    (congrArg Core.otherErrorsFound hleft).trans (by rw [hcore])
  obtain ⟨new, hnew, hall⟩ := hasked.errors
  exact ⟨congrArg SynchLocksHeld.n hback, congrArg SynchLocksHeld.entries hback,
    ⟨new, herrors.trans hnew, hall⟩, hother.trans hasked.otherErrorsFound⟩

/-- A pair that is ignored as a whole. -/
theorem enterLeave_ignored (hlock : 0 < (c.core maxLocks).ignoreLock t)
    (hunlock : 0 < (c.core maxLocks).ignoreUnlock t) :
    ∃ c', enterLeave maxLocks now now' t mu c = some c' ∧ Unaltered maxLocks t c c' := by
  obtain ⟨c₁, henter, hcore₁⟩ := enter_ignored now mu hlock
  have hunlock₁ : 0 < (c₁.core maxLocks).ignoreUnlock t := by
    rw [hcore₁]
    exact hunlock
  obtain ⟨c₂, hleave, hcore₂⟩ := leave_ignored now' mu hunlock₁
  rw [hcore₁] at hcore₂
  have hheld : c₂.monitor.locksHeld maxLocks t = c.monitor.locksHeld maxLocks t :=
    congrFun (congrArg Core.held hcore₂) t
  have herrors : c₂.monitor.processedErrors = c.monitor.processedErrors :=
    congrArg Core.errors hcore₂
  refine ⟨c₂, by rw [enterLeave, henter]; exact hleave, congrArg _ hheld, congrArg _ hheld,
    ⟨[], by simp [herrors], by simp⟩, congrArg Core.otherErrorsFound hcore₂⟩

/-- Only the release is recorded. -/
theorem Unaltered.not_of_leave (hs : (c.core maxLocks).Inv maxLocks)
    (hid : (c.core maxLocks).graph.Live id mu)
    (hmem : ∃ l ∈ ((c.core maxLocks).held t).entries, l.id = id)
    (hlock : 0 < (c.core maxLocks).ignoreLock t) (hunlock : (c.core maxLocks).ignoreUnlock t = 0)
    (h : enterLeave maxLocks now now' t mu c = some c') : ¬ Unaltered maxLocks t c c' := by
  intro hsame
  obtain ⟨c₁, henter, hleave⟩ := Option.bind_eq_some_iff.mp h
  obtain ⟨c₂, henter', hcore⟩ := enter_ignored now mu hlock
  obtain rfl := Option.some.inj (henter'.symm.trans henter)
  have hheld : (c₂.core maxLocks).held t = (c.core maxLocks).held t := by
    rw [hcore]
    rfl
  obtain ⟨held, hok, hleft⟩ := leave_recorded (enter_inv hs henter)
    (by rw [hcore]; exact hunlock) (by rw [hcore]; exact hid) (by rw [hheld]; exact hmem) hleave
  rw [hheld] at hok
  have hentries : held.entries = ((c.core maxLocks).held t).entries := by
    have := congrFun (congrArg Core.held hleft) t
    simp only [Function.update_self] at this
    rw [← entries_disarm held, ← this]
    exact hsame.entries
  have hcount := SynchLocksHeld.recorded_afterLock (hs.valid t) hok id
  rw [SynchLocksHeld.recorded_congr hentries, if_pos rfl] at hcount
  omega

/-- Only the acquisition is recorded. -/
theorem Unaltered.not_of_enter (hs : (c.core maxLocks).Inv maxLocks)
    (hlock : (c.core maxLocks).ignoreLock t = 0) (hunlock : 0 < (c.core maxLocks).ignoreUnlock t)
    (hroom : ((c.core maxLocks).held t).n < maxLocks)
    (h : enterLeave maxLocks now now' t mu c = some c') : ¬ Unaltered maxLocks t c c' := by
  intro hsame
  obtain ⟨c₁, henter, hleave⟩ := Option.bind_eq_some_iff.mp h
  obtain ⟨id', refused, s, hasked, hcore⟩ := enter_recorded hs hlock hroom henter
  have hunlock₁ : 0 < (c₁.core maxLocks).ignoreUnlock t := by
    rw [hcore]
    exact hasked.ignoreUnlock ▸ hunlock
  obtain ⟨c₂, hleave', hcore₂⟩ := leave_ignored now' mu hunlock₁
  obtain rfl := Option.some.inj (hleave'.symm.trans hleave)
  have hheld : s.held t = arm now ((c.core maxLocks).held t) := by
    rw [hasked.held, Function.update_self]
  have hvalid : (s.held t).Valid maxLocks := hheld ▸ (hs.valid t).arm now
  have hentries : (updateLockHistoryInLock mu id' (s.held t)).entries = (s.held t).entries := by
    have hback : (c₂.core maxLocks).held t = updateLockHistoryInLock mu id' (s.held t) := by
      rw [hcore₂, hcore]
      simp only [Function.update_self]
    rw [← hback, hheld, entries_arm]
    exact hsame.entries
  have haccepts : (s.held t).Accepts maxLocks id' := by
    refine Or.inl ?_
    rw [hheld, arm]
    split_ifs <;> exact hroom
  have hcount := SynchLocksHeld.recorded_inLock hvalid mu haccepts id'
  rw [SynchLocksHeld.recorded_congr hentries, if_pos rfl] at hcount
  omega

/-- Without room the acquisition is reported as an error. -/
theorem Unaltered.not_of_full (hlock : (c.core maxLocks).ignoreLock t = 0)
    (hfull : maxLocks ≤ ((c.core maxLocks).held t).n)
    (h : enterLeave maxLocks now now' t mu c = some c') : ¬ Unaltered maxLocks t c c' := by
  intro hsame
  obtain ⟨c₁, henter, hleave⟩ := Option.bind_eq_some_iff.mp h
  obtain ⟨report, herrors⟩ := enter_full hlock hfull henter
  obtain ⟨more, hmore⟩ := (step_effect hleave).errors_kept
  obtain ⟨new, hnew, hall⟩ := hsame.errors
  have heq : (c.core maxLocks).errors ++ ([(report, false)] ++ more) =
      (c.core maxLocks).errors ++ new := by
    rw [← List.append_assoc, ← herrors, hmore]
    exact hnew
  have := hall (report, false) (List.append_cancel_left heq ▸ by simp)
  cases this

/-- The pair changes nothing if and only if both calls are ignored, or none of them and the
thread has room for another lock; with `halt_on_error` the call must not find a deadlock. -/
theorem enterLeave_unaltered_iff {es : List Event} (hrun : exec (step maxLocks) {} es = some c)
    (hid : c.monitor.deadlockGraph.Live id mu)
    (hmem : ∃ l ∈ (c.monitor.locksHeld maxLocks t).entries, l.id = id) :
    (∃ c', enterLeave maxLocks now now' t mu c = some c' ∧ Unaltered maxLocks t c c') ↔
      (0 < (c.monitor.threadLocals t).ignoreCounterLock ∧
        0 < (c.monitor.threadLocals t).ignoreCounterUnlock) ∨
      ((c.monitor.threadLocals t).ignoreCounterLock = 0 ∧
        (c.monitor.threadLocals t).ignoreCounterUnlock = 0 ∧
        (c.monitor.locksHeld maxLocks t).n < maxLocks ∧
        (c.monitor.runtimeOptions.haltOnError = true →
          PrecedingUnreachable c.monitor.deadlockGraph id
            (c.monitor.locksHeld maxLocks t).entries)) := by
  have hs := exec_inv hrun
  constructor
  · rintro ⟨c', h, hsame⟩
    obtain hlock | hlock := Nat.eq_zero_or_pos (c.monitor.threadLocals t).ignoreCounterLock <;>
      obtain hunlock | hunlock := Nat.eq_zero_or_pos (c.monitor.threadLocals t).ignoreCounterUnlock
    · obtain hroom | hfull := lt_or_ge (c.monitor.locksHeld maxLocks t).n maxLocks
      · refine Or.inr ⟨hlock, hunlock, hroom, fun hhalt => ?_⟩
        obtain ⟨c₁, henter, -⟩ := Option.bind_eq_some_iff.mp h
        obtain ⟨id', refused, s, hasked, -⟩ := enter_recorded hs hlock hroom henter
        obtain rfl : id' = id := hasked.entered.self.id_inj hasked.entered.keeps.clean.toIndexed
          ((hasked.entered.live id mu).mpr (Or.inl hid))
        refine hasked.entered.refused_iff.mp ?_
        by_contra hsome
        have hoff : c.monitor.runtimeOptions.haltOnError = false := hasked.halt hsome
        cases hoff.symm.trans hhalt
      · exact absurd hsame (Unaltered.not_of_full hlock hfull h)
    · obtain hroom | hfull := lt_or_ge (c.monitor.locksHeld maxLocks t).n maxLocks
      · exact absurd hsame (Unaltered.not_of_enter hs hlock hunlock hroom h)
      · exact absurd hsame (Unaltered.not_of_full hlock hfull h)
    · exact absurd hsame (Unaltered.not_of_leave hs hid hmem hlock hunlock h)
    · exact Or.inl ⟨hlock, hunlock⟩
  · rintro (⟨hlock, hunlock⟩ | ⟨hlock, hunlock, hroom, hhalt⟩)
    · exact enterLeave_ignored hlock hunlock
    · exact enterLeave_unaltered hs hlock hunlock hid hmem hroom hhalt

/-- A thread owns the only lock that it has room for. -/
def onlyLock : List Event := [⟨1, .beforeLock 16, 1⟩, ⟨1, .inLock 0, 1⟩]

theorem exec_onlyLock : ∃ c, exec (step 1) {} onlyLock = some c ∧
    c.monitor.deadlockGraph.Live (makeId 0 1) 16 ∧
    (∃ l ∈ (c.monitor.locksHeld 1 1).entries, l.id = makeId 0 1) ∧
    (c.monitor.locksHeld 1 1).n = 1 ∧
    (enterLeave 1 1 1 1 16 c).map (fun c => (c.monitor.locksHeld 1 1).n) = some 0 := by
  have hcomputed : ∃ c, exec (step 1) {} onlyLock = some c ∧
      (c.monitor.deadlockGraph.node 0).maskedPtr = some 16 ∧
      makeId 0 1 = c.monitor.deadlockGraph.idOf 0 ∧
      (∃ l ∈ (c.monitor.locksHeld 1 1).entries, l.id = makeId 0 1) ∧
      (c.monitor.locksHeld 1 1).n = 1 ∧
      (enterLeave 1 1 1 1 16 c).map (fun c => (c.monitor.locksHeld 1 1).n) = some 0 :=
    exists_exec (by decide +kernel)
  obtain ⟨c, hrun, hptr, hid, hmem, hn, hleft⟩ := hcomputed
  exact ⟨c, hrun, ⟨0, hptr, hid⟩, hmem, hn, hleft⟩

theorem enterLeave_not_unaltered : ¬ ∀ maxLocks now now' es c t mu id,
    exec (step maxLocks) {} es = some c → c.monitor.deadlockGraph.Live id mu →
    (∃ l ∈ (c.monitor.locksHeld maxLocks t).entries, l.id = id) →
    ∃ c', enterLeave maxLocks now now' t mu c = some c' ∧ Unaltered maxLocks t c c' := by
  intro h
  obtain ⟨c, hrun, hid, hmem, hn, hleft⟩ := exec_onlyLock
  obtain ⟨c', hpair, hsame⟩ := h 1 1 1 onlyLock c 1 16 _ hrun hid hmem
  rw [hpair, Option.map_some, hsame.n, hn] at hleft
  cases hleft

theorem enterLeave_unaltered_iff_sample : ∃ c, exec (step 1) {} onlyLock = some c ∧
    ((∃ c', enterLeave 1 1 1 1 16 c = some c' ∧ Unaltered 1 1 c c') ↔
      (0 < (c.monitor.threadLocals 1).ignoreCounterLock ∧
        0 < (c.monitor.threadLocals 1).ignoreCounterUnlock) ∨
      ((c.monitor.threadLocals 1).ignoreCounterLock = 0 ∧
        (c.monitor.threadLocals 1).ignoreCounterUnlock = 0 ∧
        (c.monitor.locksHeld 1 1).n < 1 ∧
        (c.monitor.runtimeOptions.haltOnError = true →
          PrecedingUnreachable c.monitor.deadlockGraph (makeId 0 1)
            (c.monitor.locksHeld 1 1).entries))) := by
  obtain ⟨c, hrun, hid, hmem, -⟩ := exec_onlyLock
  exact ⟨c, hrun, enterLeave_unaltered_iff hrun hid hmem⟩

end Config
end CppGuard
