import CppGuard.DeadlockMonitor.Invariant

/-!
# What the hooks report

Every report sets the flag for its kind, except that of a lock that is deleted by a thread
that holds it.
-/
namespace CppGuard
open ThreadHistory DeadlockMonitor

/-- The report of `dlc_deadlock_delete_lock`. -/
def Report.isDeletion : Report → Bool
  | .deleteLockedLock _ _ => true
  | _ => false

namespace Core

variable {maxLocks now : Nat} {s s' : Core} {t : ThreadId} {hook : Hook} {mu : Addr}

/-- The reports `new` were added, and the flags were set for them. -/
structure Reported (s : Core) (t : ThreadId) (hook : Hook) (s' : Core)
    (new : List (Report × Bool)) : Prop where
  errors : s'.errors = s.errors ++ new
  potentialDeadlocksFound : s'.potentialDeadlocksFound = true ↔
    s.potentialDeadlocksFound = true ∨ ∃ e ∈ new, e.2 = true
  otherErrorsFound : s'.otherErrorsFound = true ↔
    s.otherErrorsFound = true ∨ ∃ e ∈ new, e.2 = false ∧ e.1.isDeletion = false
  deletion : ∀ e ∈ new, e.1.isDeletion = true →
    ∃ mu, hook = .deleteLock mu ∧ ∃ l ∈ (s.held t).entries, l.mu = some mu

theorem Reported.nothing (herrors : s'.errors = s.errors)
    (hfound : s'.potentialDeadlocksFound = s.potentialDeadlocksFound)
    (hother : s'.otherErrorsFound = s.otherErrorsFound) : Reported s t hook s' [] :=
  ⟨by simp [herrors], by simp [hfound], by simp [hother], by simp⟩

/-- What a hook reports. -/
theorem Effect.reported (h : Effect maxLocks s t now hook s') :
    ∃ new, Reported s t hook s' new := by
  cases h with
  | lockFull =>
    exact ⟨[_], rfl, by simp [called], by simp [Report.isDeletion], by simp [Report.isDeletion]⟩
  | @lockRefused _ _ _ _ _ report _ _ _ _ hreport =>
    obtain ⟨_, -, hpath⟩ := Option.bind_eq_some_iff.mp hreport
    obtain rfl := Option.some.inj hpath
    exact ⟨[_], rfl, by simp, by simp [called], by simp [Report.isDeletion]⟩
  | @unlockError _ id _ report _ _ herror =>
    have hreport : report.isDeletion = false := by
      unfold updateLockHistoryAfterLock at herror
      split at herror
      · split at herror <;> obtain rfl := Except.error.inj herror <;> rfl
      · split_ifs at herror
    exact ⟨[_], rfl, by simp, by simp [hreport], by simp [hreport]⟩
  | @deleteHeld mu _ _ hheld =>
    exact ⟨[_], rfl, by simp, by simp [Report.isDeletion], fun _ _ _ => ⟨mu, rfl, hheld⟩⟩
  | _ => exact ⟨[], .nothing rfl rfl rfl⟩

/-- Only a blocking call reports that the history of its thread is full. -/
theorem Effect.limit (h : Effect maxLocks s t now hook s') : ∃ new, s'.errors = s.errors ++ new ∧
    ∀ n u q b, (Report.maxLocksPerThreadReached n u q, b) ∈ new →
      u = t ∧ hook = .beforeLock q := by
  cases h with
  | lockFull =>
    refine ⟨[_], rfl, fun n u q b hmem => ?_⟩
    obtain ⟨-, rfl, rfl⟩ := Report.maxLocksPerThreadReached.inj
      (Prod.mk.inj (List.mem_singleton.mp hmem)).1
    exact ⟨rfl, rfl⟩
  | @lockRefused _ _ _ _ _ report _ _ _ _ hreport =>
    obtain ⟨_, -, hpath⟩ := Option.bind_eq_some_iff.mp hreport
    obtain rfl := Option.some.inj hpath
    exact ⟨[_], rfl, by simp⟩
  | @unlockError _ id _ report _ _ herror =>
    refine ⟨[_], rfl, fun n u q b hmem => ?_⟩
    obtain rfl := (Prod.mk.inj (List.mem_singleton.mp hmem)).1
    unfold updateLockHistoryAfterLock at herror
    split at herror
    · split at herror <;> cases herror
    · split_ifs at herror
  | deleteHeld => exact ⟨[_], rfl, by simp⟩
  | _ => exact ⟨[], (List.append_nil _).symm, by simp⟩

theorem Effect.otherErrorsFound_mono (h : Effect maxLocks s t now hook s')
    (hflag : s.otherErrorsFound = true) : s'.otherErrorsFound = true := by
  obtain ⟨new, hnew⟩ := h.reported
  exact hnew.otherErrorsFound.mpr (Or.inl hflag)

/-- Reports are never taken back. -/
theorem Effect.errors_kept (h : Effect maxLocks s t now hook s') : s.errors <+: s'.errors := by
  obtain ⟨new, hnew⟩ := h.reported
  exact ⟨new, hnew.errors.symm⟩

/-- What a call of `dlc_deadlock_check_before_lock` does that is not ignored, by a thread with
room. -/
structure Asked (now : Nat) (s : Core) (t : ThreadId) (mu : Addr) (id : GraphId)
    (refused : Option GraphId) (s' : Core) : Prop where
  entered : Entered s.graph mu id (s.held t).entries refused s'.graph
  held : s'.held = Function.update s.held t (arm now (s.held t))
  calls : s'.calls = (s.called t mu id).calls
  ignoreLock : s'.ignoreLock = s.ignoreLock
  ignoreUnlock : s'.ignoreUnlock = s.ignoreUnlock
  errors : ∃ new, s'.errors = s.errors ++ new ∧ ∀ e ∈ new, e.2 = true
  otherErrorsFound : s'.otherErrorsFound = s.otherErrorsFound
  halt : refused ≠ none → s.haltOnError = false

theorem Effect.asked (h : Effect maxLocks s t now (.beforeLock mu) s') (hs : s.Inv maxLocks)
    (hignore : s.ignoreLock t = 0) (hroom : (s.held t).n < maxLocks) :
    ∃ id refused, Asked now s t mu id refused s' := by
  cases h with
  | lockIgnored hpos => exact absurd hignore (Nat.pos_iff_ne_zero.mp hpos)
  | lockFull _ hfull => exact absurd hroom (Nat.not_lt.mpr hfull)
  | @lock _ id _ _ _ _ hid hcheck =>
    exact ⟨id, none, hs.entered hid hcheck, rfl, rfl, rfl, rfl, ⟨[], by simp [called], by simp⟩,
      rfl, fun hne => absurd rfl hne⟩
  | @lockRefused _ id _ _ other report _ _ hid hcheck _ hhalt =>
    have hn : (s.held t).n ≠ 0 := by
      intro hn
      rw [SynchLocksHeld.entries, hn, List.take_zero] at hcheck
      cases hcheck
    refine ⟨id, some other, hs.entered hid hcheck, ?_, rfl, rfl, rfl, ⟨[_], rfl, by simp⟩, rfl,
      fun _ => hhalt⟩
    rw [arm, if_neg hn, Function.update_eq_self]
    rfl

end Core
end CppGuard
