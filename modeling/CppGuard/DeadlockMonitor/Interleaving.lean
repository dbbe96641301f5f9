import CppGuard.DeadlockMonitor.CriticalSections

/-!
# Hooks of different threads interleave

Between two sections of a hook other threads may run sections of theirs. What comes out is what
the hooks do one at a time, in the order in which they take effect: a hook of a thread takes
effect in one of its sections, and the others are its own business. Only errors come in another
order, since a deletion is reported after its scope.
-/
namespace CppGuard
open Transition DeadlockMonitor

/-- The monitor, and what its threads have still to do. -/
structure Interleaved where
  config : Config := {}
  rest : ThreadId → Option Rest := fun _ => none

/-- A thread calls a hook, or goes on with the one that it is in. -/
structure Turn where
  thread : ThreadId
  hook : Option Hook
  now : Nat := 1
  deriving DecidableEq, Repr

/-- The hook, if nothing of it has taken effect yet. -/
def Rest.waiting : Rest → Option Hook
  | .checkOrder mu => some (.beforeLock mu)
  | .tryLock mu => some (.beforeTryLock mu)
  | .afterLock mu => some (.afterLock mu)
  | .setFound | .reportDelete _ => none

/-- What the hook has taken from `g_ignore_counter_lock`. -/
def Rest.countedDown : Rest → Nat
  | .tryLock _ => 1
  | _ => 0

namespace Interleaved

def step (maxLocks : Nat) (s : Interleaved) (e : Turn) : Option Interleaved :=
  match s.rest e.thread, e.hook with
  | none, some hook => (s.config.call maxLocks ⟨e.thread, hook, e.now⟩).map fun result =>
      ⟨result.1, Function.update s.rest e.thread result.2⟩
  | some rest, none => (s.config.resume maxLocks e.now e.thread rest).map fun c =>
      ⟨c, Function.update s.rest e.thread none⟩
  | _, _ => none

def waiting (s : Interleaved) (t : ThreadId) : Option Hook := (s.rest t).bind Rest.waiting

/-- A hook takes effect in the section after which it does not wait any more. -/
def point (maxLocks : Nat) (s : Interleaved) (e : Turn) : List Event :=
  match e.hook.or (s.waiting e.thread), step maxLocks s e with
  | some hook, some s' => if s'.waiting e.thread = none then [⟨e.thread, hook, e.now⟩] else []
  | _, _ => []

/-- The hooks that a thread has begun. -/
def begun (t : ThreadId) (e : Turn) : List Hook := if e.thread = t then e.hook.toList else []

/-- The hooks of a thread. -/
def hookOf (t : ThreadId) (e : Event) : List Hook := if e.thread = t then [e.hook] else []

end Interleaved

namespace Core

/-- `a` is what the hooks that took effect do one at a time. Errors may come late, and so may
`m_other_errors_found`. -/
structure Merged (s : Core) (rest : ThreadId → Option Rest) (a : Core) : Prop where
  graph : a.graph = s.graph
  held : a.held = s.held
  calls : a.calls = s.calls
  potentialDeadlocksFound : a.potentialDeadlocksFound = s.potentialDeadlocksFound
  haltOnError : a.haltOnError = s.haltOnError
  ignoreUnlock : a.ignoreUnlock = s.ignoreUnlock
  ignoreLock : ∀ t, s.ignoreLock t = a.ignoreLock t - (rest t).elim 0 Rest.countedDown
  otherErrorsFound : a.otherErrorsFound = true ↔
    s.otherErrorsFound = true ∨ ∃ t, rest t = some .setFound
  errors : ∃ late : List (ThreadId × Addr), late.Nodup ∧
    (∀ t mu, (t, mu) ∈ late ↔ rest t = some (.reportDelete mu)) ∧
    a.errors.Perm (s.errors ++ late.map fun l => (.deleteLockedLock l.1 l.2, false))

/-- While no thread is in a hook, the hooks one at a time leave the same state, up to the order of
the errors. -/
theorem Merged.idle {s a : Core} (h : Merged s (fun _ => none) a) :
    a.errors.Perm s.errors ∧ a = { s with errors := a.errors } := by
  obtain ⟨hgraph, hheld, hcalls, hpotential, hhalt, hunlock, hlock, hfound, late, -, hmem, hperm⟩ :=
    h
  have hlate : late = [] := List.eq_nil_iff_forall_not_mem.mpr fun l hl => by
    simpa using (hmem l.1 l.2).mp hl
  have hignore : a.ignoreLock = s.ignoreLock := funext fun t => (hlock t).symm
  have hother : a.otherErrorsFound = s.otherErrorsFound :=
    Bool.eq_iff_iff.mpr (by simpa using hfound)
  refine ⟨by simpa [hlate] using hperm, ?_⟩
  rw [← hgraph, ← hheld, ← hcalls, ← hpotential, ← hhalt, ← hunlock, ← hignore, ← hother]

/-- What the first section of a hook has checked still holds. -/
structure Ready (maxLocks : Nat) (s : Core) (rest : ThreadId → Option Rest) : Prop where
  running : s.haltOnError = false
  limit : ∀ t mu, rest t = some (.checkOrder mu) → s.ignoreLock t = 0 ∧ (s.held t).n < maxLocks
  unlock : ∀ t mu, rest t = some (.afterLock mu) → s.ignoreUnlock t = 0

variable {maxLocks now : Nat} {t : ThreadId} {s s' a : Core} {rest : ThreadId → Option Rest}

/-- The state of the hooks that took effect differs from `s` in three fields. -/
abbrev late (s : Core) (errors : List (Report × Bool)) (found : Bool) (ignore : ThreadId → Nat) :
    Core :=
  { s with errors, otherErrorsFound := found, ignoreLock := ignore }

theorem Merged.eq_late (h : Merged s rest a) :
    ∃ errors found ignore, a = s.late errors found ignore := by
  obtain ⟨hgraph, hheld, hcalls, hpotential, hhalt, hunlock, -, -, -⟩ := h
  refine ⟨a.errors, a.otherErrorsFound, a.ignoreLock, ?_⟩
  rw [late, ← hgraph, ← hheld, ← hcalls, ← hpotential, ← hhalt, ← hunlock]

/-- No hook of the thread is past its point, neither before nor after the section. -/
theorem update_eq_some {r' : Option Rest} (hr : ∀ r ∈ rest t, r.waiting ≠ none)
    (hr' : ∀ r ∈ r', r.waiting ≠ none) {x : Rest} (hx : x.waiting = none) (u : ThreadId) :
    Function.update rest t r' u = some x ↔ rest u = some x := by
  obtain rfl | hne := eq_or_ne u t
  · rw [Function.update_self]
    exact iff_of_false (fun h => hr' x h hx) fun h => hr x h hx
  · rw [Function.update_of_ne hne]

/-- A section before the point of its hook, or a section that ends with it. -/
theorem Merged.advance {errors : List (Report × Bool)} (new : List (Report × Bool)) {found : Bool}
    (flag : Bool) {ignore ignore' : ThreadId → Nat} {r' : Option Rest}
    (h : Merged s rest (s.late errors found ignore))
    (hr : ∀ r ∈ rest t, r.waiting ≠ none) (hr' : ∀ r ∈ r', r.waiting ≠ none)
    (herrors : s'.errors = s.errors ++ new)
    (hfound : s'.otherErrorsFound = (s.otherErrorsFound || flag))
    (hlock : ∀ u, s'.ignoreLock u =
      ignore' u - (Function.update rest t r' u).elim 0 Rest.countedDown) :
    Merged s' (Function.update rest t r') (s'.late (errors ++ new) (found || flag) ignore') where
  graph := rfl
  held := rfl
  calls := rfl
  potentialDeadlocksFound := rfl
  haltOnError := rfl
  ignoreUnlock := rfl
  ignoreLock := hlock
  otherErrorsFound := by
    have := h.otherErrorsFound
    have hsame := update_eq_some hr hr' (show Rest.setFound.waiting = none from rfl)
    simp only [Bool.or_eq_true, hfound, hsame] at this ⊢
    tauto
  errors := by
    obtain ⟨late, hnodup, hmem, hperm⟩ := h.errors
    refine ⟨late, hnodup, fun u mu => ?_, ?_⟩
    · rw [hmem, update_eq_some hr hr' (show (Rest.reportDelete mu).waiting = none from rfl)]
    · rw [herrors, List.append_assoc]
      refine (List.Perm.append_right new hperm).trans ?_
      rw [List.append_assoc]
      exact List.Perm.append_left _ List.perm_append_comm

/-- A section changes what belongs to its thread. -/
structure Own (t : ThreadId) (s s' : Core) : Prop where
  held : ∀ u ≠ t, s'.held u = s.held u
  ignoreLock : ∀ u ≠ t, s'.ignoreLock u = s.ignoreLock u
  ignoreUnlock : ∀ u ≠ t, s'.ignoreUnlock u = s.ignoreUnlock u

section Own

variable {s₁ s₂ s₃ : Core}

/-- Nothing of what belongs to a thread is changed. -/
theorem Own.of_eq (hheld : s₂.held = s₁.held) (hlock : s₂.ignoreLock = s₁.ignoreLock)
    (hunlock : s₂.ignoreUnlock = s₁.ignoreUnlock) : Own t s₁ s₂ where
  held u _ := congrFun hheld u
  ignoreLock u _ := congrFun hlock u
  ignoreUnlock u _ := congrFun hunlock u

theorem Own.refl (t : ThreadId) (s : Core) : Own t s s := .of_eq rfl rfl rfl

theorem Own.trans (h : Own t s₁ s₂) (h' : Own t s₂ s₃) : Own t s₁ s₃ where
  held u hu := (h'.held u hu).trans (h.held u hu)
  ignoreLock u hu := (h'.ignoreLock u hu).trans (h.ignoreLock u hu)
  ignoreUnlock u hu := (h'.ignoreUnlock u hu).trans (h.ignoreUnlock u hu)

theorem Own.graph (h : Own t s₁ s₂) (g : Rep) : Own t s₁ { s₂ with graph := g } :=
  h.trans (.of_eq rfl rfl rfl)

theorem Own.called (h : Own t s₁ s₂) (mu : Addr) (id : GraphId) :
    Own t s₁ (s₂.called t mu id) :=
  h.trans (.of_eq rfl rfl rfl)

theorem Own.setHeld (h : Own t s₁ s₂) (held : SynchLocksHeld) : Own t s₁ (s₂.setHeld t held) :=
  h.trans ⟨fun _ hu => Function.update_of_ne hu .., fun _ _ => rfl, fun _ _ => rfl⟩

theorem Own.setIgnoreLock (h : Own t s₁ s₂) (n : Nat) : Own t s₁ (s₂.setIgnoreLock t n) :=
  h.trans ⟨fun _ _ => rfl, fun _ hu => Function.update_of_ne hu .., fun _ _ => rfl⟩

theorem Own.setIgnoreUnlock (h : Own t s₁ s₂) (n : Nat) : Own t s₁ (s₂.setIgnoreUnlock t n) :=
  h.trans ⟨fun _ _ => rfl, fun _ _ => rfl, fun _ hu => Function.update_of_ne hu ..⟩

end Own

theorem Ready.advance {r' : Option Rest} (h : Ready maxLocks s rest)
    (hrunning : s'.haltOnError = false) (hown : Own t s s')
    (hlimit : ∀ mu, r' = some (.checkOrder mu) → s'.ignoreLock t = 0 ∧ (s'.held t).n < maxLocks)
    (hunlock : ∀ mu, r' = some (.afterLock mu) → s'.ignoreUnlock t = 0) :
    Ready maxLocks s' (Function.update rest t r') where
  running := hrunning
  limit u mu := by
    obtain rfl | hne := eq_or_ne u t
    · rw [Function.update_self]
      exact hlimit mu
    · rw [Function.update_of_ne hne, hown.ignoreLock u hne, hown.held u hne]
      exact h.limit u mu
  unlock u mu := by
    obtain rfl | hne := eq_or_ne u t
    · rw [Function.update_self]
      exact hunlock mu
    · rw [Function.update_of_ne hne, hown.ignoreUnlock u hne]
      exact h.unlock u mu

/-- What a section adds to the errors and to the flag does not depend on them. -/
def Adds (f : Core → Option Core) (s s' : Core) (ignore : ThreadId → Nat) : Prop :=
  ∃ new flag, s'.errors = s.errors ++ new ∧
    s'.otherErrorsFound = (s.otherErrorsFound || flag) ∧
    ∀ errors found, f (s.late errors found ignore) =
      some (s'.late (errors ++ new) (found || flag) ignore)

theorem processError_eq_some {report : Report} {isDeadlock : Bool} :
    s.processError report isDeadlock = some s' ↔ s.haltOnError = false ∧
      s' = { s with errors := s.errors ++ [(report, isDeadlock)] } := by
  unfold processError
  cases hhalt : s.haltOnError <;> simp [eq_comm]

/-- The last section of a hook that waits does not look at the errors and the flag. -/
structure Late (f : Core → Option Core) (t : ThreadId) (s s' : Core) : Prop where
  ignoreLock : s'.ignoreLock = s.ignoreLock
  haltOnError : s'.haltOnError = s.haltOnError
  own : Own t s s'
  adds : ∀ ignore, Adds f s s' ignore

/-- A section that reports nothing. -/
theorem Adds.quiet {f : Core → Option Core} {ignore : ThreadId → Nat}
    (herrors : s'.errors = s.errors) (hfound : s'.otherErrorsFound = s.otherErrorsFound)
    (hcall : ∀ errors found, f (s.late errors found ignore) = some (s'.late errors found ignore)) :
    Adds f s s' ignore := by
  refine ⟨[], false, by rw [herrors, List.append_nil], by rw [hfound, Bool.or_false], ?_⟩
  intro errors found
  rw [hcall, List.append_nil, Bool.or_false]

section LastSection

variable {mu : Addr}

theorem beforeLockOrder_late (hstep : s.beforeLockOrder maxLocks now t mu = some s') :
    Late (beforeLockOrder maxLocks now t · mu) t s s' := by
  simp only [beforeLockOrder, Option.bind_eq_bind, Option.bind_eq_some_iff, Prod.exists] at hstep
  obtain ⟨id, g, hid, refused, g', hcheck, hstep⟩ := hstep
  cases refused with
  | none =>
    obtain rfl := Option.some.inj hstep
    refine ⟨rfl, rfl, (((Own.refl t s).graph g').setHeld _).called mu id, fun ignore => ?_⟩
    refine .quiet rfl rfl fun errors found => ?_
    simp only [beforeLockOrder, hid, hcheck, Option.bind_eq_bind, Option.bind_some]
    rfl
  | some other =>
    simp only [Option.bind_eq_some_iff, processError_eq_some] at hstep
    obtain ⟨report, hreport, s₁, ⟨hhalt, rfl⟩, hstep⟩ := hstep
    obtain rfl := Option.some.inj hstep
    have hown := (((Own.refl t s).graph g').setHeld (arm now (s.held t))).called mu id
    refine ⟨rfl, rfl, hown.trans (.of_eq rfl rfl rfl), fun ignore => ?_⟩
    refine ⟨[(report, true)], false, rfl, by simp [called, setHeld], fun errors found => ?_⟩
    rw [Bool.or_false]
    dsimp only [called, setHeld] at hhalt
    simp only [beforeLockOrder, hid, hcheck, hreport, processError, called, setHeld, hhalt,
      Option.bind_eq_bind, Option.bind_some, Bool.false_eq_true, if_false]
    rfl

theorem beforeTryLockScope_late (hstep : s.beforeTryLockScope maxLocks now t mu = some s') :
    Late (beforeTryLockScope maxLocks now t · mu) t s s' := by
  simp only [beforeTryLockScope, Option.bind_eq_bind, Option.bind_eq_some_iff, Prod.exists] at hstep
  obtain ⟨id, g, hid, hstep⟩ := hstep
  obtain rfl := Option.some.inj hstep
  refine ⟨rfl, rfl, (((Own.refl t s).graph g).setHeld _).called mu id, fun ignore => ?_⟩
  refine .quiet rfl rfl fun errors found => ?_
  simp only [beforeTryLockScope, hid, Option.bind_eq_bind, Option.bind_some]
  rfl

theorem afterLockScope_late (hstep : s.afterLockScope maxLocks t mu = some s') :
    Late (afterLockScope maxLocks t · mu) t s s' := by
  simp only [afterLockScope, Option.bind_eq_bind, Option.bind_eq_some_iff, Prod.exists] at hstep
  obtain ⟨id, g, hid, hstep⟩ := hstep
  cases hafter : ThreadHistory.updateLockHistoryAfterLock t mu id (s.held t) with
  | ok held =>
    simp only [hafter] at hstep
    obtain rfl := Option.some.inj hstep
    refine ⟨rfl, rfl, ((Own.refl t s).graph g).setHeld _, fun ignore => ?_⟩
    refine .quiet rfl rfl fun errors found => ?_
    simp only [afterLockScope, hid, hafter, Option.bind_eq_bind, Option.bind_some]
    rfl
  | error report =>
    simp only [hafter, Option.bind_eq_some_iff, processError_eq_some] at hstep
    obtain ⟨s₁, ⟨hhalt, rfl⟩, hstep⟩ := hstep
    obtain rfl := Option.some.inj hstep
    have hown := ((Own.refl t s).graph g).setHeld (disarm (s.held t))
    refine ⟨rfl, rfl, hown.trans (.of_eq rfl rfl rfl), fun ignore => ?_⟩
    refine ⟨[(report, false)], true, rfl, by simp [setHeld], fun errors found => ?_⟩
    simp only [afterLockScope, hid, hafter, processError, hhalt, Option.bind_eq_bind,
      Option.bind_some, Bool.false_eq_true, if_false, Bool.or_true]
    rfl

end LastSection

theorem resume_late {r : Rest} (hr : r.waiting ≠ none)
    (hstep : s.resume maxLocks now t r = some s') : Late (resume maxLocks now t · r) t s s' := by
  cases r with
  | checkOrder mu => exact beforeLockOrder_late hstep
  | tryLock mu => exact beforeTryLockScope_late hstep
  | afterLock mu => exact afterLockScope_late hstep
  | setFound => exact absurd rfl hr
  | reportDelete mu => exact absurd rfl hr

@[simp] theorem setIgnoreLock_self (s : Core) (t : ThreadId) :
    s.setIgnoreLock t (s.ignoreLock t) = s := by
  rw [setIgnoreLock, Function.update_eq_self]

/-- A hook that waits has only been counted down. -/
theorem call_waiting {e : Event} {r : Rest} {hook : Hook} (hr : r.waiting = some hook)
    (hstep : s.call maxLocks e = some (s', some r)) :
    hook = e.hook ∧ s' = s.setIgnoreLock e.thread (s.ignoreLock e.thread - r.countedDown) ∧
      (∀ mu, r = .checkOrder mu → s.ignoreLock e.thread = 0 ∧ (s.held e.thread).n < maxLocks) ∧
      (∀ mu, r = .afterLock mu → s.ignoreUnlock e.thread = 0) := by
  obtain ⟨t, h, now⟩ := e
  cases h with
  | beforeLock mu =>
    simp only [call, beforeLockLimit] at hstep
    split_ifs at hstep with hignore hfull
    · simp at hstep
    · simp only [Option.map_eq_some_iff, processError_eq_some, Prod.mk.injEq,
        Option.some.injEq] at hstep
      obtain ⟨-, -, -, rfl⟩ := hstep
      cases hr
    · simp only [Option.some.injEq, Prod.mk.injEq] at hstep
      obtain ⟨rfl, rfl⟩ := hstep
      refine ⟨(Option.some.inj hr).symm, (setIgnoreLock_self s t).symm, ?_, ?_⟩
      · exact fun _ _ => ⟨Nat.eq_zero_of_not_pos hignore, Nat.lt_of_not_le hfull⟩
      · exact fun _ h => Rest.noConfusion h
  | beforeTryLock mu =>
    simp only [call, Option.some.injEq, Prod.mk.injEq] at hstep
    obtain ⟨rfl, rfl⟩ := hstep
    exact ⟨(Option.some.inj hr).symm, rfl, fun _ h => Rest.noConfusion h,
      fun _ h => Rest.noConfusion h⟩
  | inLock n =>
    simp only [call] at hstep
    split at hstep
    · cases hstep
    · split_ifs at hstep
      simp at hstep
  | afterLock mu =>
    simp only [call, countDownUnlock] at hstep
    split_ifs at hstep with hignore
    · simp at hstep
    · simp only [Option.some.injEq, Prod.mk.injEq] at hstep
      obtain ⟨rfl, rfl⟩ := hstep
      refine ⟨(Option.some.inj hr).symm, (setIgnoreLock_self s t).symm,
        fun _ h => Rest.noConfusion h, fun _ _ => Nat.eq_zero_of_not_pos hignore⟩
  | deleteLock mu =>
    simp only [call, deleteLockScope, Option.bind_eq_bind, Option.bind_eq_some_iff] at hstep
    obtain ⟨g, -, hstep⟩ := hstep
    obtain ⟨-, hrest⟩ := Prod.ext_iff.mp (Option.some.inj hstep)
    dsimp only at hrest
    split_ifs at hrest
    obtain rfl := Option.some.inj hrest
    cases hr
  | _ => simp [call] at hstep

/-- A hook that waits would be called in the same way now. -/
theorem Ready.call {r : Rest} {hook : Hook} (h : Ready maxLocks s rest) (hrest : rest t = some r)
    (hr : r.waiting = some hook) {errors : List (Report × Bool)} {found : Bool}
    {ignore : ThreadId → Nat} (hlock : s.ignoreLock t = ignore t - r.countedDown) :
    (s.late errors found ignore).call maxLocks ⟨t, hook, now⟩ =
      some (s.late errors found (Function.update ignore t (s.ignoreLock t)), some r) := by
  cases r with
  | checkOrder mu =>
    obtain rfl := Option.some.inj hr
    obtain ⟨hzero, hn⟩ := h.limit t mu hrest
    have hignore : ignore t = s.ignoreLock t := hlock.symm
    rw [← hignore, Function.update_eq_self]
    simp only [Core.call, beforeLockLimit, hignore, hzero, lt_irrefl, if_false, not_le.mpr hn]
  | tryLock mu =>
    obtain rfl := Option.some.inj hr
    rw [hlock]
    rfl
  | afterLock mu =>
    obtain rfl := Option.some.inj hr
    have hignore : ignore t = s.ignoreLock t := hlock.symm
    rw [← hignore, Function.update_eq_self]
    simp only [Core.call, countDownUnlock, h.unlock t mu hrest, lt_irrefl, if_false]
  | setFound => cases hr
  | reportDelete mu => cases hr

/-- What the first section of a hook adds to the errors does not depend on them, nor on the flag,
and of the counters it looks at those of its thread only. -/
def CallAdds (f : Core → Option (Core × Option Rest)) (t : ThreadId) (s s' : Core)
    (r : Option Rest) (ignore : ThreadId → Nat) : Prop :=
  ∃ new, s'.errors = s.errors ++ new ∧ s'.otherErrorsFound = s.otherErrorsFound ∧
    ∀ errors found, f (s.late errors found ignore) =
      some (s'.late (errors ++ new) found (Function.update ignore t (s'.ignoreLock t)), r)

/-- A section that reports nothing. -/
theorem CallAdds.quiet {f : Core → Option (Core × Option Rest)} {r : Option Rest}
    {ignore : ThreadId → Nat} (herrors : s'.errors = s.errors)
    (hfound : s'.otherErrorsFound = s.otherErrorsFound)
    (hcall : ∀ errors found, f (s.late errors found ignore) =
      some (s'.late errors found (Function.update ignore t (s'.ignoreLock t)), r)) :
    CallAdds f t s s' r ignore := by
  refine ⟨[], by rw [herrors, List.append_nil], hfound, fun errors found => ?_⟩
  rw [hcall, List.append_nil]

section FirstSection

variable {mu : Addr} {r : Option Rest} {ignore : ThreadId → Nat}

/-- The section does not touch the counter. -/
theorem update_ignore (hlock : ignore t = s.ignoreLock t) :
    Function.update ignore t (s.ignoreLock t) = ignore := by
  rw [← hlock, Function.update_eq_self]

theorem beforeLockLimit_late (hstep : s.beforeLockLimit maxLocks t mu = some (s', r))
    (hlock : ignore t = s.ignoreLock t) :
    Own t s s' ∧ CallAdds (beforeLockLimit maxLocks t · mu) t s s' r ignore := by
  unfold beforeLockLimit at hstep
  split_ifs at hstep with hignore hfull
  · simp only [Option.some.injEq, Prod.mk.injEq] at hstep
    obtain ⟨rfl, rfl⟩ := hstep
    refine ⟨((Own.refl t s).setIgnoreLock _).called mu invalidGraphId,
      .quiet rfl rfl fun errors found => ?_⟩
    simp only [beforeLockLimit, hlock, hignore, if_true, called, setIgnoreLock,
      Function.update_self]
  · simp only [Option.map_eq_some_iff, processError_eq_some, Prod.mk.injEq] at hstep
    obtain ⟨_, ⟨hhalt, rfl⟩, rfl, rfl⟩ := hstep
    refine ⟨Own.of_eq rfl rfl rfl, _, rfl, rfl, fun errors found => ?_⟩
    simp only [beforeLockLimit, hlock, hignore, hfull, if_true, if_false, called,
      update_ignore hlock, processError, hhalt, Bool.false_eq_true, Option.map_some]
  · simp only [Option.some.injEq, Prod.mk.injEq] at hstep
    obtain ⟨rfl, rfl⟩ := hstep
    refine ⟨Own.of_eq rfl rfl rfl, .quiet rfl rfl fun errors found => ?_⟩
    simp only [beforeLockLimit, hlock, hignore, hfull, if_false, update_ignore hlock]

theorem inLock_late {n : Nat} (hstep : s.call maxLocks ⟨t, .inLock n, now⟩ = some (s', r))
    (hlock : ignore t = s.ignoreLock t) :
    Own t s s' ∧ CallAdds (call maxLocks · ⟨t, .inLock n, now⟩) t s s' r ignore := by
  simp only [call] at hstep
  split at hstep
  · cases hstep
  · rename_i mu id hcall
    split_ifs at hstep with hid
    simp only [Option.some.injEq, Prod.mk.injEq] at hstep
    obtain ⟨rfl, rfl⟩ := hstep
    refine ⟨(Own.refl t s).setHeld _, .quiet rfl rfl fun errors found => ?_⟩
    simp only [call, hcall, hid, if_false, setHeld, update_ignore hlock]

theorem countDownUnlock_late (hstep : s.countDownUnlock t mu = (s', r))
    (hlock : ignore t = s.ignoreLock t) :
    Own t s s' ∧ CallAdds (fun s => some (countDownUnlock t s mu)) t s s' r ignore := by
  unfold countDownUnlock at hstep
  split_ifs at hstep with hignore
  · obtain ⟨rfl, rfl⟩ := Prod.mk.inj hstep
    refine ⟨(Own.refl t s).setIgnoreUnlock _, .quiet rfl rfl fun errors found => ?_⟩
    simp only [countDownUnlock, hignore, if_true, setIgnoreUnlock, update_ignore hlock]
  · obtain ⟨rfl, rfl⟩ := Prod.mk.inj hstep
    refine ⟨Own.of_eq rfl rfl rfl, .quiet rfl rfl fun errors found => ?_⟩
    simp only [countDownUnlock, hignore, if_false, update_ignore hlock]

theorem deleteLockScope_late (hstep : s.deleteLockScope t mu = some (s', r))
    (hlock : ignore t = s.ignoreLock t) :
    Own t s s' ∧ CallAdds (deleteLockScope t · mu) t s s' r ignore := by
  simp only [deleteLockScope, Option.bind_eq_bind, Option.bind_eq_some_iff] at hstep
  obtain ⟨g, hg, hstep⟩ := hstep
  obtain ⟨rfl, rfl⟩ := Prod.mk.inj (Option.some.inj hstep)
  refine ⟨Own.of_eq rfl rfl rfl, .quiet rfl rfl fun errors found => ?_⟩
  simp only [deleteLockScope, hg, Option.bind_eq_bind, Option.bind_some, update_ignore hlock]
  rfl

end FirstSection

/-- The first section of a hook does not look at the errors and the flag, either. -/
theorem call_late {e : Event} {r : Option Rest} (hstep : s.call maxLocks e = some (s', r))
    {ignore : ThreadId → Nat} (hlock : ignore e.thread = s.ignoreLock e.thread) :
    Own e.thread s s' ∧ CallAdds (call maxLocks · e) e.thread s s' r ignore := by
  obtain ⟨t, hook, now⟩ := e
  dsimp only at hlock
  cases hook with
  | beforeLock mu => exact beforeLockLimit_late hstep hlock
  | inLock n => exact inLock_late hstep hlock
  | afterLock mu => exact countDownUnlock_late (Option.some.inj hstep) hlock
  | deleteLock mu => exact deleteLockScope_late hstep hlock
  | beforeTryLock mu =>
    obtain ⟨rfl, rfl⟩ := Prod.mk.inj (Option.some.inj hstep)
    refine ⟨(Own.refl t s).setIgnoreLock _, .quiet rfl rfl fun errors found => ?_⟩
    simp only [call, hlock, setIgnoreLock, Function.update_self]
  | cndWait =>
    obtain ⟨rfl, rfl⟩ := Prod.mk.inj (Option.some.inj hstep)
    refine ⟨(Own.refl t s).setHeld _, .quiet rfl rfl fun errors found => ?_⟩
    simp only [call, setHeld, update_ignore hlock]
  | increaseIgnoreCounter i j =>
    obtain ⟨rfl, rfl⟩ := Prod.mk.inj (Option.some.inj hstep)
    refine ⟨((Own.refl t s).setIgnoreLock _).setIgnoreUnlock _,
      .quiet rfl rfl fun errors found => ?_⟩
    simp only [call, hlock, setIgnoreLock, setIgnoreUnlock, Function.update_self]
  | setOptions options =>
    obtain ⟨rfl, rfl⟩ := Prod.mk.inj (Option.some.inj hstep)
    refine ⟨Own.of_eq rfl rfl rfl, .quiet rfl rfl fun errors found => ?_⟩
    simp only [call, update_ignore hlock]
  | threadDelete =>
    obtain ⟨rfl, rfl⟩ := Prod.mk.inj (Option.some.inj hstep)
    have hcalls : Own t s { s with calls := Function.update s.calls t [] } := .of_eq rfl rfl rfl
    refine ⟨((hcalls.setHeld _).setIgnoreLock 0).setIgnoreUnlock 0,
      .quiet rfl rfl fun errors found => ?_⟩
    simp only [call, setHeld, setIgnoreLock, setIgnoreUnlock, Function.update_self]

/-! ## Past the point of a hook -/

/-- A section that is only about the errors and the flag. -/
theorem Merged.past {r' : Option Rest} {errors errors' : List (Report × Bool)}
    {found found' : Bool} (h : Merged s rest a)
    (hcount : (rest t).elim 0 Rest.countedDown = r'.elim 0 Rest.countedDown)
    (hfound : found' = true ↔ found = true ∨ ∃ u, Function.update rest t r' u = some .setFound)
    (herrors : ∃ late : List (ThreadId × Addr), late.Nodup ∧
      (∀ u mu, (u, mu) ∈ late ↔ Function.update rest t r' u = some (.reportDelete mu)) ∧
      errors'.Perm (errors ++ late.map fun l => (.deleteLockedLock l.1 l.2, false))) :
    Merged { s with errors, otherErrorsFound := found } (Function.update rest t r')
      { a with errors := errors', otherErrorsFound := found' } where
  graph := h.graph
  held := h.held
  calls := h.calls
  potentialDeadlocksFound := h.potentialDeadlocksFound
  haltOnError := h.haltOnError
  ignoreUnlock := h.ignoreUnlock
  ignoreLock u := by
    have hlock := h.ignoreLock u
    obtain rfl | hne := eq_or_ne u t
    · rw [Function.update_self, ← hcount]
      exact hlock
    · rw [Function.update_of_ne hne]
      exact hlock
  otherErrorsFound := hfound
  errors := herrors

/-- A thread that is or was past the point of its hook has no effect on what is said of other
values of `rest`. -/
theorem update_iff {r' x : Option Rest} (hr : rest t ≠ x) (hr' : r' ≠ x) (u : ThreadId) :
    Function.update rest t r' u = x ↔ rest u = x := by
  obtain rfl | hne := eq_or_ne u t
  · rw [Function.update_self]
    exact iff_of_false hr' hr
  · rw [Function.update_of_ne hne]

/-- The limit is reported, and the flag is not set yet. -/
theorem Merged.foundLater (h : Merged s rest a) (hrest : rest t = none) :
    Merged s (Function.update rest t (some .setFound)) { a with otherErrorsFound := true } := by
  refine h.past (by rw [hrest]; rfl) ?_ ?_
  · exact iff_of_true rfl (Or.inr ⟨t, Function.update_self ..⟩)
  · obtain ⟨late, hnodup, hmem, hperm⟩ := h.errors
    refine ⟨late, hnodup, fun u mu => ?_, hperm⟩
    rw [hmem, update_iff (by simp [hrest]) (by simp)]

theorem Merged.setFound (h : Merged s rest a) (hrest : rest t = some .setFound) :
    Merged { s with otherErrorsFound := true } (Function.update rest t none) a := by
  refine h.past (by rw [hrest]; rfl) ?_ ?_
  · exact iff_of_true (h.otherErrorsFound.mpr (Or.inr ⟨t, hrest⟩)) (Or.inl rfl)
  · obtain ⟨late, hnodup, hmem, hperm⟩ := h.errors
    refine ⟨late, hnodup, fun u mu => ?_, hperm⟩
    rw [hmem, update_iff (by simp [hrest]) (by simp)]

/-- The lock is deleted, and the report comes later. -/
theorem Merged.reportLater (h : Merged s rest a) (hrest : rest t = none) (mu : Addr) :
    Merged s (Function.update rest t (some (.reportDelete mu)))
      { a with errors := a.errors ++ [(.deleteLockedLock t mu, false)] } := by
  refine h.past (by rw [hrest]; rfl) ?_ ?_
  · simp only [update_iff (show rest t ≠ some .setFound by simp [hrest])
      (show some (Rest.reportDelete mu) ≠ some .setFound by simp)]
    exact h.otherErrorsFound
  · obtain ⟨late, hnodup, hmem, hperm⟩ := h.errors
    have hnot : (t, mu) ∉ late := fun hin => by simpa [hrest] using (hmem t mu).mp hin
    refine ⟨(t, mu) :: late, List.nodup_cons.mpr ⟨hnot, hnodup⟩, fun u nu => ?_, ?_⟩
    · rw [List.mem_cons, hmem]
      obtain rfl | hne := eq_or_ne u t
      · simp [hrest, eq_comm]
      · simp [hne]
    · refine (hperm.append_right _).trans ?_
      rw [List.append_assoc]
      exact List.perm_append_comm.append_left _

theorem Merged.reportDelete {mu : Addr} (h : Merged s rest a)
    (hrest : rest t = some (.reportDelete mu)) :
    Merged { s with errors := s.errors ++ [(.deleteLockedLock t mu, false)] }
      (Function.update rest t none) a := by
  refine h.past (by rw [hrest]; rfl) ?_ ?_
  · simp only [update_iff (show rest t ≠ some .setFound by simp [hrest])
      (show (none : Option Rest) ≠ some .setFound by simp)]
    exact h.otherErrorsFound
  · obtain ⟨late, hnodup, hmem, hperm⟩ := h.errors
    have hin : (t, mu) ∈ late := (hmem t mu).mpr hrest
    refine ⟨late.erase (t, mu), hnodup.erase _, fun u nu => ?_, ?_⟩
    · rw [hnodup.mem_erase_iff, hmem]
      obtain rfl | hne := eq_or_ne u t
      · simp [hrest, eq_comm]
      · simp [hne]
    · rw [List.append_assoc]
      refine hperm.trans (List.Perm.append_left _ ?_)
      exact (List.perm_cons_erase hin).map _

/-! ## One section -/

variable {e : Event} {r : Option Rest}

theorem exec_single {c d : Core} (h : c.step maxLocks e = some d) :
    exec (step maxLocks) c [e] = some d :=
  exec_cons.mpr ⟨d, h, rfl⟩

theorem Merged.call (h : Merged s rest a) (hready : Ready maxLocks s rest)
    (hrest : rest e.thread = none) (hoff : s'.haltOnError = false)
    (hstep : s.call maxLocks e = some (s', r)) :
    ∃ b, exec (step maxLocks) a (if r.bind Rest.waiting = none then [e] else []) = some b ∧
      Merged s' (Function.update rest e.thread r) b ∧
      Ready maxLocks s' (Function.update rest e.thread r) := by
  obtain ⟨errors, found, ignore, rfl⟩ := h.eq_late
  have hlock : ignore e.thread = s.ignoreLock e.thread := by
    have := h.ignoreLock e.thread
    rw [hrest] at this
    exact this.symm
  obtain ⟨hown, new, herrors, hfound, hlate⟩ := call_late hstep hlock
  have hcall : call maxLocks (s.late errors found ignore) e = _ := hlate errors found
  have hothers : ∀ u ≠ e.thread, s'.ignoreLock u =
      ignore u - (rest u).elim 0 Rest.countedDown := fun u hu =>
    (hown.ignoreLock u hu).trans (h.ignoreLock u)
  have hmerged : Merged s' (Function.update rest e.thread none) (s'.late (errors ++ new) found
      (Function.update ignore e.thread (s'.ignoreLock e.thread))) := by
    rw [← Bool.or_false found]
    refine h.advance new false (by simp [hrest]) (by simp) herrors (by simp [hfound]) fun u => ?_
    obtain rfl | hne := eq_or_ne u e.thread
    · simp
    · rw [Function.update_of_ne hne, Function.update_of_ne hne, hothers u hne]
  cases r with
  | none =>
    refine ⟨_, exec_single (by rw [step, hcall]; rfl), hmerged, ?_⟩
    exact hready.advance hoff hown (by simp) (by simp)
  | some x =>
    cases hx : x.waiting with
    | some hook =>
      obtain ⟨-, rfl, hlimit, hunlock⟩ := call_waiting hx hstep
      refine ⟨_, by simp [hx]; rfl, ?_, ?_⟩
      · have hsame : s.late errors found ignore =
            (s.setIgnoreLock e.thread (s.ignoreLock e.thread - x.countedDown)).late
              (errors ++ []) (found || false) ignore := by
          rw [List.append_nil, Bool.or_false]
          rfl
        rw [hsame]
        refine h.advance [] false (by simp [hrest]) (by simp [hx]) (List.append_nil _).symm
          (Bool.or_false _).symm fun u => ?_
        obtain rfl | hne := eq_or_ne u e.thread
        · simp [setIgnoreLock, hlock]
        · rw [Function.update_of_ne hne, hothers u hne]
      · refine hready.advance hoff hown ?_ ?_
        · rintro mu ⟨⟩
          exact ⟨by simp [setIgnoreLock, (hlimit mu rfl).1], (hlimit mu rfl).2⟩
        · rintro mu ⟨⟩
          exact hunlock mu rfl
    | none =>
      cases x with
      | setFound =>
        refine ⟨_, exec_single (by rw [step, hcall]; rfl), ?_, ?_⟩
        · have := hmerged.foundLater (Function.update_self ..)
          rw [Function.update_idem] at this
          exact this
        · exact hready.advance hoff hown (by simp) (by simp)
      | reportDelete mu =>
        have hreport : finish maxLocks e.now e.thread (s'.late (errors ++ new) found
            (Function.update ignore e.thread (s'.ignoreLock e.thread)), some (.reportDelete mu)) =
            some _ := processError_eq_some.mpr ⟨hoff, rfl⟩
        refine ⟨_, exec_single (by rw [step, hcall]; exact hreport), ?_, ?_⟩
        · have := hmerged.reportLater (Function.update_self ..) mu
          rw [Function.update_idem] at this
          exact this
        · exact hready.advance hoff hown (by simp) (by simp)
      | _ => cases hx

theorem Merged.resume {r : Rest} (h : Merged s rest a) (hready : Ready maxLocks s rest)
    (hrest : rest t = some r) (hstep : s.resume maxLocks now t r = some s') :
    ∃ b, exec (step maxLocks) a (r.waiting.toList.map fun hook => ⟨t, hook, now⟩) = some b ∧
      Merged s' (Function.update rest t none) b ∧
      Ready maxLocks s' (Function.update rest t none) := by
  cases hwaiting : r.waiting with
  | some hook =>
    obtain ⟨errors, found, ignore, rfl⟩ := h.eq_late
    have hlock : s.ignoreLock t = ignore t - r.countedDown := by
      have := h.ignoreLock t
      rw [hrest] at this
      exact this
    obtain ⟨hignore, hhalt, hown, hadds⟩ := resume_late (by simp [hwaiting]) hstep
    obtain ⟨new, flag, herrors, hfound, hlate⟩ :=
      hadds (Function.update ignore t (s.ignoreLock t))
    have hcall := @Ready.call maxLocks now t s rest r hook hready hrest hwaiting errors found
      ignore hlock
    refine ⟨_, exec_single (by rw [step, hcall]; exact hlate errors found), ?_, ?_⟩
    · refine h.advance new flag (by simp [hrest, hwaiting]) (by simp) herrors hfound fun u => ?_
      rw [hignore]
      obtain rfl | hne := eq_or_ne u t
      · simp
      · rw [Function.update_of_ne hne, Function.update_of_ne hne]
        exact h.ignoreLock u
    · exact hready.advance (hhalt.trans hready.running) hown (by simp) (by simp)
  | none =>
    have hown : ∀ errors found, Own t s { s with errors, otherErrorsFound := found } :=
      fun _ _ => ⟨fun _ _ => rfl, fun _ _ => rfl, fun _ _ => rfl⟩
    cases r with
    | setFound =>
      obtain rfl := Option.some.inj hstep
      exact ⟨a, rfl, h.setFound hrest, hready.advance hready.running (hown _ _) (by simp) (by simp)⟩
    | reportDelete mu =>
      obtain ⟨-, rfl⟩ := processError_eq_some.mp hstep
      exact ⟨a, rfl, h.reportDelete hrest,
        hready.advance hready.running (hown _ _) (by simp) (by simp)⟩
    | _ => cases hwaiting

/-- Only `cppguard_set_options` sets `halt_on_error`. -/
theorem call_running (hstep : s.call maxLocks e = some (s', r)) (hoff : s.haltOnError = false)
    (hset : ∀ options, e.hook = .setOptions options → options.haltOnError = false) :
    s'.haltOnError = false := by
  obtain ⟨t, hook, now⟩ := e
  cases hook with
  | setOptions options =>
    obtain rfl := (Prod.mk.inj (Option.some.inj hstep)).1
    exact hset options rfl
  | beforeLock mu => grind [call, beforeLockLimit, processError, called, setIgnoreLock]
  | inLock n => grind [call, setHeld]
  | deleteLock mu =>
    obtain ⟨g, -, hstep⟩ := Option.bind_eq_some_iff.mp hstep
    obtain rfl := (Prod.mk.inj (Option.some.inj hstep)).1
    exact hoff
  | _ => grind [call, countDownUnlock, setHeld, setIgnoreLock, setIgnoreUnlock]

end Core

namespace Turn

/-- The thread does not switch `halt_on_error` on. -/
def KeepsRunning (e : Turn) : Prop :=
  ∀ options, e.hook = some (.setOptions options) → options.haltOnError = false

end Turn

namespace Interleaved

variable {maxLocks : Nat} {s s' : Interleaved} {e : Turn} {es : List Turn}

theorem step_cases (h : step maxLocks s e = some s') :
    (∃ hook c r, s.rest e.thread = none ∧ e.hook = some hook ∧
      s.config.call maxLocks ⟨e.thread, hook, e.now⟩ = some (c, r) ∧
      s' = ⟨c, Function.update s.rest e.thread r⟩) ∨
    ∃ r c, s.rest e.thread = some r ∧ e.hook = none ∧
      s.config.resume maxLocks e.now e.thread r = some c ∧
      s' = ⟨c, Function.update s.rest e.thread none⟩ := by
  unfold step at h
  split at h
  · rename_i hook hrest hhook
    obtain ⟨⟨c, r⟩, hcall, rfl⟩ := Option.map_eq_some_iff.mp h
    exact Or.inl ⟨hook, c, r, hrest, hhook, hcall, rfl⟩
  · rename_i r hrest hhook
    obtain ⟨c, hresume, rfl⟩ := Option.map_eq_some_iff.mp h
    exact Or.inr ⟨r, c, hrest, hhook, hresume, rfl⟩
  · cases h

theorem point_call {hook : Hook} {c : Config} {r : Option Rest} (hhook : e.hook = some hook)
    (h : step maxLocks s e = some ⟨c, Function.update s.rest e.thread r⟩) :
    point maxLocks s e = if r.bind Rest.waiting = none then [⟨e.thread, hook, e.now⟩] else [] := by
  simp [point, hhook, h, waiting]

theorem point_resume {c : Config} {r : Rest} (hrest : s.rest e.thread = some r)
    (hhook : e.hook = none)
    (h : step maxLocks s e = some ⟨c, Function.update s.rest e.thread none⟩) :
    point maxLocks s e = r.waiting.toList.map fun hook => ⟨e.thread, hook, e.now⟩ := by
  cases hwaiting : r.waiting <;> simp [point, hhook, h, waiting, hrest, hwaiting]

/-- A section of a hook is matched by the hook, if it takes effect there. -/
theorem step_merged {a : Core} (hmerged : (s.config.core maxLocks).Merged s.rest a)
    (hready : (s.config.core maxLocks).Ready maxLocks s.rest) (hkeeps : e.KeepsRunning)
    (h : step maxLocks s e = some s') :
    ∃ b, exec (Core.step maxLocks) a (point maxLocks s e) = some b ∧
      (s'.config.core maxLocks).Merged s'.rest b ∧
      (s'.config.core maxLocks).Ready maxLocks s'.rest := by
  obtain ⟨hook, c, r, hrest, hhook, hcall, rfl⟩ | ⟨r, c, hrest, hhook, hresume, rfl⟩ := step_cases h
  · have hcore := @Config.core_call maxLocks s.config ⟨e.thread, hook, e.now⟩
    rw [hcall] at hcore
    have hrunning := Core.call_running hcore.symm hready.running fun options heq =>
      hkeeps options (heq ▸ hhook)
    rw [point_call hhook h]
    exact hmerged.call hready hrest hrunning hcore.symm
  · have hcore := @Config.core_resume maxLocks e.now s.config e.thread r
    rw [hresume] at hcore
    rw [point_resume hrest hhook h]
    exact hmerged.resume hready hrest hcore.symm

/-- A hook that was begun either took effect or waits. -/
theorem step_balance (t : ThreadId) (h : step maxLocks s e = some s') :
    (s.waiting t).toList ++ begun t e =
      (point maxLocks s e).flatMap (hookOf t) ++ (s'.waiting t).toList := by
  obtain ⟨hook, c, r, hrest, hhook, hcall, rfl⟩ | ⟨r, c, hrest, hhook, hresume, rfl⟩ := step_cases h
  · rw [point_call hhook h]
    obtain rfl | hne := eq_or_ne t e.thread
    · have hcore := @Config.core_call maxLocks s.config ⟨e.thread, hook, e.now⟩
      rw [hcall] at hcore
      cases hwaiting : r.bind Rest.waiting with
      | none => simp [waiting, hrest, begun, hhook, hookOf, hwaiting]
      | some hook' =>
        obtain ⟨x, rfl, hx⟩ := Option.bind_eq_some_iff.mp hwaiting
        obtain ⟨rfl, -⟩ := Core.call_waiting hx hcore.symm
        simp [waiting, hrest, begun, hhook, hx]
    · split_ifs <;> simp [waiting, begun, hookOf, hne, hne.symm]
  · rw [point_resume hrest hhook h]
    obtain rfl | hne := eq_or_ne t e.thread
    · cases hwaiting : r.waiting <;> simp [waiting, hrest, begun, hhook, hookOf, hwaiting]
    · cases r.waiting <;> simp [waiting, begun, hookOf, hne, hne.symm]

/-- An interleaving of sections leaves what its hooks leave one at a time, in the order in which
they take effect. That order grows with the run, and it keeps the order of every thread: all hooks
that a thread has begun took effect but the one that still waits. -/
theorem exec_linearized {c : Config} (hrunning : c.monitor.runtimeOptions.haltOnError = false)
    (hkeeps : ∀ e ∈ es, e.KeepsRunning) (h : exec (step maxLocks) ⟨c, fun _ => none⟩ es = some s) :
    ∃ c', exec (Config.step maxLocks) c
        (linearization (step maxLocks) (point maxLocks) ⟨c, fun _ => none⟩ es) = some c' ∧
      (s.config.core maxLocks).Merged s.rest (c'.core maxLocks) ∧
      (∀ t, es.flatMap (begun t) =
        (linearization (step maxLocks) (point maxLocks) ⟨c, fun _ => none⟩ es).flatMap (hookOf t) ++
          (s.waiting t).toList) ∧
      ∀ fs, linearization (step maxLocks) (point maxLocks) ⟨c, fun _ => none⟩ es <+:
        linearization (step maxLocks) (point maxLocks) ⟨c, fun _ => none⟩ (es ++ fs) := by
  have hmerged : (c.core maxLocks).Merged (fun _ => none) (c.core maxLocks) := by
    refine ⟨rfl, rfl, rfl, rfl, rfl, rfl, fun _ => rfl, by simp, [], List.nodup_nil, by simp, ?_⟩
    simp
  have hready : (c.core maxLocks).Ready maxLocks fun _ => none := ⟨hrunning, by simp, by simp⟩
  have hrun := exec_linearization (P := fun _ e => e.KeepsRunning)
    (I := fun s a => (s.config.core maxLocks).Merged s.rest a ∧
      (s.config.core maxLocks).Ready maxLocks s.rest)
    (fun s a e s' hI hkeeps hstep => step_merged hI.1 hI.2 hkeeps hstep)
    ⟨hmerged, hready⟩ h (along_of_mem fun _ => hkeeps)
  obtain ⟨a, ha, hI, -⟩ := hrun
  rw [← exec_map Config.core_step] at ha
  obtain ⟨c', hc', rfl⟩ := Option.map_eq_some_iff.mp ha
  refine ⟨c', hc', hI, fun t => ?_, fun _ => linearization_prefix h⟩
  exact linearization_balance (fun _ _ _ hstep => step_balance t hstep) h

/-- The thread 2 takes 16 while the thread 1 is about to take 8. Then the thread 1 deletes 8, which
it still holds, and reports that after the thread 2 has released 16. -/
def sampleTurns : List Turn :=
  [⟨1, some (.beforeLock 8), 1⟩, ⟨2, some (.beforeLock 16), 1⟩, ⟨2, none, 2⟩,
    ⟨2, some (.inLock 0), 2⟩, ⟨1, none, 3⟩, ⟨1, some (.inLock 0), 3⟩, ⟨1, some (.deleteLock 8), 4⟩,
    ⟨2, some (.afterLock 16), 5⟩, ⟨2, none, 5⟩, ⟨1, none, 6⟩]

theorem exec_linearized_sample : ∃ s c',
    exec (step 2) ⟨{}, fun _ => none⟩ sampleTurns = some s ∧
    exec (Config.step 2) {}
      (linearization (step 2) (point 2) ⟨{}, fun _ => none⟩ sampleTurns) = some c' ∧
    (s.config.core 2).Merged s.rest (c'.core 2) := by
  obtain ⟨s, hs, -⟩ : ∃ s, exec (step 2) ⟨{}, fun _ => none⟩ sampleTurns = some s ∧ True :=
    exists_exec (by decide +kernel)
  have hkeeps : ∀ e ∈ sampleTurns, e.KeepsRunning := by simp [sampleTurns, Turn.KeepsRunning]
  obtain ⟨c', hc', hmerged, -⟩ := exec_linearized rfl hkeeps hs
  exact ⟨s, c', hs, hc', hmerged⟩

end Interleaved
end CppGuard
