import CppGuard.CriticalSection.Wrappers

/-!
# When the watchdog is armed

A before-hook stores the time in the history of a thread without recorded locks, and the
release of the last one clears it. A call of `TryEnter` that fails clears nothing: after it
the thread has no lock, and is watched all the same.
-/
namespace CppGuard
open Transition ThreadHistory DeadlockMonitor

namespace ThreadHistory

variable {maxLocks : Nat} {held held' : SynchLocksHeld} {thread : ThreadId} {mu : Addr}
  {id : GraphId}

theorem inLock_n_le (mu : Addr) (id : GraphId) (held : SynchLocksHeld) :
    held.n ≤ (updateLockHistoryInLock mu id held).n := by
  unfold updateLockHistoryInLock
  split
  · split_ifs
    · exact le_rfl
    · exact Nat.le_succ _
  · exact le_rfl

/-- After an acquisition the history is not empty. -/
theorem inLock_n_pos (h : held.Valid maxLocks) (hmax : 0 < maxLocks) (mu : Addr) (id : GraphId) :
    0 < (updateLockHistoryInLock mu id held).n := by
  obtain hn | hpos := Nat.eq_zero_or_pos held.n
  · obtain ⟨l, hl, -⟩ := inLock_recorded h mu id (by omega)
    rw [(valid_inLock h mu id).n_eq]
    exact List.length_pos_of_mem hl
  · exact hpos.trans_le (inLock_n_le mu id held)

/-- Only a history that is not empty has something to release. -/
theorem afterLock_n_pos (h : held.Valid maxLocks)
    (hok : updateLockHistoryAfterLock thread mu id held = .ok held') : 0 < held.n := by
  obtain absent | ⟨a, e, b, hes, -⟩ := entry_cases held.entries id
  · rw [afterLock_absent absent] at hok
    cases hok
  · rw [h.n_eq, hes]
    simp

end ThreadHistory

namespace Wrappers

/-- Between two calls of a thread its start time is set if and only if it has a lock. -/
def Armed (maxLocks : Nat) (t : ThreadId) (w : Wrappers) : Prop :=
  w.position t = .idle → ((w.config.monitor.locksHeld maxLocks t).lockStartTimePoint ≠ 0 ↔
    0 < (w.config.monitor.locksHeld maxLocks t).n)

/-- The assertions on the start time hold in the hook that a thread calls. -/
def StartAsserted (maxLocks : Nat) (t : ThreadId) (w : Wrappers) (s : Step) : Prop :=
  let held := w.config.monitor.locksHeld maxLocks t
  s.thread = t →
    match s.label with
    | .wrapper (.enter _) => held.n < maxLocks → held.n = 0 → held.lockStartTimePoint = 0
    | .wrapper (.tryEnter _) => held.n = 0 → held.lockStartTimePoint = 0
    | .wrapper (.leave mu) => ∀ id g held',
      w.config.monitor.deadlockGraph.getId maxLocks t mu = some (id, g) →
      updateLockHistoryAfterLock t mu id held = .ok held' → held'.n = 0 →
      held'.lockStartTimePoint ≠ 0
    | _ => True

/-- Every call of `TryEnter` by the thread that fails finds it with a lock. -/
def FailsHolding (maxLocks : Nat) (t : ThreadId) (w : Wrappers) (s : Step) : Prop :=
  s.thread = t → s.label = .wrapper (.tryEnterReturns false) →
    0 < (w.config.monitor.locksHeld maxLocks t).n

/-- The thread does not ask to be ignored or wait for a condition variable. -/
def Step.Counts (t : ThreadId) (s : Step) : Prop :=
  s.thread = t → s.label ≠ .other .cndWait ∧
    ∀ i j, s.label ≠ .other (.increaseIgnoreCounter i j)

/-! ## The invariant -/

/-- A before-hook that was not refused has armed the watchdog. -/
def ArmedAt : Position → SynchLocksHeld → Prop
  | .idle, held | .leaving _, held => held.lockStartTimePoint ≠ 0 ↔ 0 < held.n
  | .entering _ id, held =>
    if id = invalidGraphId then held.lockStartTimePoint ≠ 0 ↔ 0 < held.n
    else held.lockStartTimePoint ≠ 0
  | .trying _ id, held | .entered _ id, held => id ≠ invalidGraphId ∧ held.lockStartTimePoint ≠ 0

structure Arming (maxLocks : Nat) (t : ThreadId) (w : Wrappers) : Prop where
  inv : (w.core maxLocks).Inv maxLocks
  ignoreLock : (w.core maxLocks).ignoreLock t = 0
  ignoreUnlock : (w.core maxLocks).ignoreUnlock t = 0
  armed : ArmedAt (w.position t) ((w.core maxLocks).held t)

variable {maxLocks now : Nat} {w w' : Wrappers} {s : Step} {t u : ThreadId} {label : Label}
  {mu : Addr} {held held' : SynchLocksHeld} {c : Config}

theorem armedAt_arm (hnow : 0 < now) (h : held.lockStartTimePoint ≠ 0 ↔ 0 < held.n) :
    (arm now held).lockStartTimePoint ≠ 0 := by
  unfold arm
  split_ifs with hn
  · exact hnow.ne'
  · exact h.mpr (Nat.pos_of_ne_zero hn)

theorem armedAt_disarm (h : 0 < held.n → held.lockStartTimePoint ≠ 0) :
    (disarm held).lockStartTimePoint ≠ 0 ↔ 0 < (disarm held).n := by
  unfold disarm
  split_ifs with hn
  · simp [hn]
  · have hpos := Nat.pos_of_ne_zero hn
    exact ⟨fun _ => hpos, fun _ => h hpos⟩

theorem Arming.start (maxLocks : Nat) (t : ThreadId) (options : RuntimeOptions) :
    Arming maxLocks t (start options) :=
  ⟨inv_start maxLocks options, rfl, rfl, by
    simp [ArmedAt, Wrappers.start, Config.core, locksHeld, SynchLocksHeld.new]⟩

theorem Arming.toArmed (h : Arming maxLocks t w) : Armed maxLocks t w := by
  intro hidle
  have harmed := h.armed
  rw [hidle] at harmed
  exact harmed

theorem Arming.startAsserted (h : Arming maxLocks t w) (hstep : step maxLocks w s = some w') :
    StartAsserted maxLocks t w s := by
  rintro rfl
  have harmed := h.armed
  have hdoes := step_does hstep
  obtain ⟨t, label, now⟩ := s
  change Does maxLocks w t now label w' at hdoes
  cases hdoes with
  | enter hidle | tryEnter hidle =>
    simp only [hidle, ArmedAt] at harmed
    have hzero : (w.config.monitor.locksHeld maxLocks t).n = 0 →
        (w.config.monitor.locksHeld maxLocks t).lockStartTimePoint = 0 := by
      intro hn
      by_contra hne
      exact (harmed.mp hne).ne' hn
    first
      | exact fun _ => hzero
      | exact hzero
  | leave hidle =>
    simp only [hidle, ArmedAt] at harmed
    intro id g held' _ hok _
    rw [afterLock_start hok]
    exact harmed.mpr (afterLock_n_pos (h.inv.valid t) hok)
  | _ => trivial

/-- A step of another thread. -/
theorem Arming.other (h : Arming maxLocks t w) (hdoes : Does maxLocks w u now label w')
    (hu : t ≠ u) : Arming maxLocks t w' := by
  obtain ⟨hposition, hheld, -, hlock, hunlock⟩ := hdoes.frame hu
  refine ⟨hdoes.inv h.inv, hlock.trans h.ignoreLock, hunlock.trans h.ignoreUnlock, ?_⟩
  rw [hposition, hheld]
  exact h.armed

theorem Arming.hooked {p : Position} {hook : Hook} (h : Arming maxLocks t w)
    (hstep : w.config.step maxLocks ⟨t, hook, now⟩ = some c)
    (hlock : (c.core maxLocks).ignoreLock t = 0) (hunlock : (c.core maxLocks).ignoreUnlock t = 0)
    (armed : ArmedAt p ((c.core maxLocks).held t)) : Arming maxLocks t (w.hooked t p c) := by
  refine ⟨(Config.step_effect hstep).inv h.inv, hlock, hunlock, ?_⟩
  have hp : (w.hooked t p c).position t = p := Function.update_self ..
  rw [hp]
  exact armed

theorem Arming.returned {p : Position} (h : Arming maxLocks t w)
    (armed : ArmedAt p ((w.core maxLocks).held t)) : Arming maxLocks t (w.returned t p) := by
  refine ⟨h.inv, h.ignoreLock, h.ignoreUnlock, ?_⟩
  have hp : (w.returned t p).position t = p := Function.update_self ..
  rw [hp]
  exact armed

theorem Arming.enter (h : Arming maxLocks t w) (hnow : 0 < now) (hidle : w.position t = .idle)
    (hstep : w.config.step maxLocks ⟨t, .beforeLock mu, now⟩ = some c) :
    Arming maxLocks t (w.hooked t (.entering mu (c.lastId t)) c) := by
  have heffect := Config.step_effect hstep
  have harmed := h.armed
  rw [hidle, ArmedAt] at harmed
  obtain hroom | hfull := lt_or_ge ((w.core maxLocks).held t).n maxLocks
  · obtain ⟨id, refused, hasked⟩ := heffect.asked h.inv h.ignoreLock hroom
    have hne := hasked.entered.self.ne_invalid hasked.entered.keeps.clean.toIndexed
    apply h.hooked hstep
    · rw [hasked.ignoreLock]
      exact h.ignoreLock
    · rw [hasked.ignoreUnlock]
      exact h.ignoreUnlock
    · rw [Config.lastId_of_called hasked.calls, ArmedAt, if_neg hne, hasked.held,
        Function.update_self]
      exact armedAt_arm hnow harmed
  · obtain ⟨report, hcore⟩ := heffect.full h.ignoreLock hfull
    have hcalls : (c.core maxLocks).calls =
        ((w.core maxLocks).called t mu invalidGraphId).calls := by rw [hcore]
    apply h.hooked hstep
    · rw [hcore]
      exact h.ignoreLock
    · rw [hcore]
      exact h.ignoreUnlock
    · rw [Config.lastId_of_called hcalls, ArmedAt, if_pos rfl, hcore]
      exact harmed

theorem Arming.tryEnter (h : Arming maxLocks t w) (hnow : 0 < now) (hidle : w.position t = .idle)
    (hstep : w.config.step maxLocks ⟨t, .beforeTryLock mu, now⟩ = some c) :
    Arming maxLocks t (w.hooked t (.trying mu (c.lastId t)) c) := by
  have heffect := Config.step_effect hstep
  have harmed := h.armed
  rw [hidle, ArmedAt] at harmed
  obtain ⟨id, htried⟩ := heffect.tried h.inv
  have hne := htried.live.ne_invalid (heffect.inv h.inv).clean.toIndexed
  apply h.hooked hstep
  · rw [htried.ignoreLock h.ignoreLock]
    exact h.ignoreLock
  · rw [htried.ignoreUnlock]
    exact h.ignoreUnlock
  · rw [Config.lastId_of_called htried.calls]
    refine ⟨hne, ?_⟩
    generalize c.core maxLocks = s' at heffect
    cases heffect with
    | tryLock =>
      simp only [Function.update_self]
      exact armedAt_arm hnow harmed

theorem Arming.leave (h : Arming maxLocks t w) (hidle : w.position t = .idle)
    (hstep : w.config.step maxLocks ⟨t, .afterLock mu, now⟩ = some c) :
    Arming maxLocks t (w.hooked t (.leaving mu) c) := by
  have heffect := Config.step_effect hstep
  have hlock := h.ignoreLock
  have hunlock := h.ignoreUnlock
  have harmed := h.armed
  rw [hidle, ArmedAt] at harmed
  apply h.hooked hstep <;> generalize c.core maxLocks = s' at heffect
  · cases heffect <;> exact hlock
  · cases heffect with
    | unlockIgnored hpos => exact absurd hunlock hpos.ne'
    | unlock | unlockError => exact hunlock
  · cases heffect with
    | unlockIgnored hpos => exact absurd hunlock hpos.ne'
    | unlock _ _ hok =>
      simp only [ArmedAt, Function.update_self]
      refine armedAt_disarm fun _ => ?_
      rw [afterLock_start hok]
      exact harmed.mpr (afterLock_n_pos (h.inv.valid t) hok)
    | unlockError =>
      simp only [ArmedAt, Function.update_self]
      exact armedAt_disarm harmed.mpr

theorem Arming.inLock {id : GraphId} (h : Arming maxLocks t w) (hmax : 0 < maxLocks)
    (hentered : w.position t = .entered mu id)
    (hstep : w.config.step maxLocks ⟨t, .inLock 0, now⟩ = some c) :
    Arming maxLocks t (w.hooked t .idle c) := by
  have heffect := Config.step_effect hstep
  have hlock := h.ignoreLock
  have hunlock := h.ignoreUnlock
  have harmed := h.armed
  rw [hentered, ArmedAt] at harmed
  apply h.hooked hstep <;> generalize c.core maxLocks = s' at heffect
  · cases heffect
    exact hlock
  · cases heffect
    exact hunlock
  · cases heffect with
    | @inLock _ mu id =>
      simp only [ArmedAt, Function.update_self]
      have hpos := inLock_n_pos (h.inv.valid t) hmax mu id
      have hstart := inLock_start mu id ((w.core maxLocks).held t)
      exact ⟨fun _ => hpos, fun _ => hstart.symm ▸ harmed.2⟩

/-- The steps that fit the invariant. A call of `TryEnter` that fails is treated below. -/
theorem Arming.step (h : Arming maxLocks t w) (hmax : 0 < maxLocks) (hnow : 0 < now)
    (hcounts : Step.Counts t ⟨t, label, now⟩) (hdoes : Does maxLocks w t now label w')
    (hfails : label = .wrapper (.tryEnterReturns false) → 0 < ((w.core maxLocks).held t).n) :
    Arming maxLocks t w' := by
  have harmed := h.armed
  cases hdoes with
  | enter hidle hstep => exact h.enter hnow hidle hstep
  | tryEnter hidle hstep => exact h.tryEnter hnow hidle hstep
  | leave hidle hstep => exact h.leave hidle hstep
  | inLock hentered hstep => exact h.inLock hmax hentered hstep
  | delete hidle hstep =>
    have hdeleted := (Config.step_effect hstep).deleted
    rw [hidle] at harmed
    apply h.hooked hstep
    · rw [hdeleted.ignoreLock]
      exact h.ignoreLock
    · rw [hdeleted.ignoreUnlock]
      exact h.ignoreUnlock
    · rw [hdeleted.held]
      exact harmed
  | @enterReturns mu id hentering =>
    rw [hentering, ArmedAt] at harmed
    apply h.returned
    unfold World.acquired
    split_ifs at harmed ⊢ with hid
    · exact harmed
    · exact ⟨hid, harmed⟩
  | @tryEnterReturns mu id htrying =>
    rw [htrying] at harmed
    apply h.returned
    rw [World.acquired, if_neg harmed.1]
    exact harmed
  | tryEnterFails htrying =>
    rw [htrying] at harmed
    apply h.returned
    exact ⟨fun _ => hfails rfl, fun _ => harmed.2⟩
  | leaveReturns hleaving =>
    rw [hleaving] at harmed
    exact h.returned harmed
  | @other hook c hidle hwrapped hstep =>
    rw [hidle] at harmed
    have hlock := h.ignoreLock
    have hunlock := h.ignoreUnlock
    obtain ⟨hwait, hincrease⟩ := hcounts rfl
    have heffect := Config.step_effect hstep
    apply h.hooked hstep <;> generalize c.core maxLocks = s' at heffect
    · cases heffect with
      | increaseIgnoreCounter => exact absurd rfl (hincrease _ _)
      | threadDelete => exact Function.update_self ..
      | cndWait | setOptions => exact hlock
      | _ => cases hwrapped
    · cases heffect with
      | increaseIgnoreCounter => exact absurd rfl (hincrease _ _)
      | threadDelete => exact Function.update_self ..
      | cndWait | setOptions => exact hunlock
      | _ => cases hwrapped
    · cases heffect with
      | cndWait => exact absurd rfl hwait
      | threadDelete => simp [ArmedAt, SynchLocksHeld.new]
      | increaseIgnoreCounter | setOptions => exact harmed
      | _ => cases hwrapped

/-- A thread without a lock stays armed if `TryEnter` fails. -/
theorem Arming.not_armed (h : Arming maxLocks t w) (hno : ((w.core maxLocks).held t).n = 0)
    (hdoes : Does maxLocks w t now (.wrapper (.tryEnterReturns false)) w') :
    ¬ Armed maxLocks t w' := by
  have harmed := h.armed
  cases hdoes with
  | tryEnterFails htrying =>
    rw [htrying] at harmed
    intro hafter
    have hpos := (hafter (Function.update_self ..)).mp harmed.2
    exact hpos.ne' hno

/-! ## Runs -/

/-- The start time of a thread tells all the time whether it has a lock, and the assertions
hold, if and only if every call of `TryEnter` that fails finds the thread with a lock. -/
theorem armed_iff {options : RuntimeOptions} {ss : List Step} (hmax : 0 < maxLocks)
    (hclock : ∀ s ∈ ss, 0 < s.now) (hcounts : ∀ s ∈ ss, s.Counts t)
    (hrun : exec (step maxLocks) (start options) ss = some w) :
    (Always (Armed maxLocks t) (step maxLocks) (start options) ss ∧
        Along (StartAsserted maxLocks t) (step maxLocks) (start options) ss) ↔
      Along (FailsHolding maxLocks t) (step maxLocks) (start options) ss := by
  have hkeeps : ∀ w, ∀ s ∈ ss, ∀ w', Arming maxLocks t w → FailsHolding maxLocks t w s →
      step maxLocks w s = some w' → Arming maxLocks t w' := by
    intro w s hs w' h hfails hstep
    have hdoes := step_does hstep
    by_cases hu : t = s.thread
    · subst hu
      exact h.step hmax (hclock s hs) (hcounts s hs) hdoes (hfails rfl)
    · exact h.other hdoes hu
  refine always_along_iff (fun w => Arming.toArmed)
    (fun w s hs w' h hfails hstep => ⟨hkeeps w s hs w' h hfails hstep, h.startAsserted hstep⟩)
    (fun w s hs w' h hnot hstep _ => ?_) (Arming.start maxLocks t options) hrun
  obtain ⟨u, label, now⟩ := s
  unfold FailsHolding at hnot
  push Not at hnot
  obtain ⟨rfl, rfl, hno⟩ := hnot
  exact h.not_armed (Nat.le_zero.mp hno) (step_does hstep)

/-- A thread without a lock does not get one. -/
def failedTryEnter : List Step :=
  [⟨1, .wrapper (.tryEnter 16), 1⟩, ⟨1, .wrapper (.tryEnterReturns false), 1⟩]

theorem exec_failedTryEnter : ∃ w, exec (step 20) (start {}) failedTryEnter = some w ∧
    w.position 1 = .idle ∧ (w.config.monitor.locksHeld 20 1).n = 0 ∧
    (w.config.monitor.locksHeld 20 1).lockStartTimePoint = 1 :=
  exists_exec (by decide +kernel)

theorem counts_failedTryEnter : ∀ s ∈ failedTryEnter, s.Counts 1 := by
  simp [failedTryEnter, Step.Counts]

theorem failedTryEnter_not_armed : ¬ ∀ maxLocks t options ss w, 0 < maxLocks →
    (∀ s ∈ ss, 0 < s.now) → (∀ s ∈ ss, s.Counts t) →
    exec (step maxLocks) (start options) ss = some w →
    Always (Armed maxLocks t) (step maxLocks) (start options) ss ∧
      Along (StartAsserted maxLocks t) (step maxLocks) (start options) ss := by
  intro h
  obtain ⟨w, hrun, hidle, hn, hstart⟩ := exec_failedTryEnter
  obtain ⟨halways, -⟩ := h 20 1 {} failedTryEnter w (by decide) (by decide)
    counts_failedTryEnter hrun
  have harmed := halways.last hrun hidle
  rw [hn, hstart] at harmed
  exact absurd (harmed.mp Nat.one_ne_zero) (Nat.lt_irrefl 0)

theorem armed_iff_sample : ∃ w, exec (step 20) (start {}) failedTryEnter = some w ∧
    ((Always (Armed 20 1) (step 20) (start {}) failedTryEnter ∧
        Along (StartAsserted 20 1) (step 20) (start {}) failedTryEnter) ↔
      Along (FailsHolding 20 1) (step 20) (start {}) failedTryEnter) := by
  obtain ⟨w, hrun, -⟩ := exec_failedTryEnter
  exact ⟨w, hrun, armed_iff (by decide) (by decide) counts_failedTryEnter hrun⟩

end Wrappers
end CppGuard
