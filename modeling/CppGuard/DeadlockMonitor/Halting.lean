import CppGuard.DeadlockMonitor.Interleaving

/-!
# `halt_on_error`

`process_error` ends the process if `halt_on_error` is set. Up to the first error the option
changes nothing: an interleaving is possible with it if and only if it is possible without it and
reports no error.
-/
namespace CppGuard
open Transition DeadlockMonitor ThreadHistory

/-- The same monitor with the option. -/
def Config.halting (c : Config) : Config :=
  let options := { c.monitor.runtimeOptions with haltOnError := true }
  { c with monitor := { c.monitor with runtimeOptions := options } }

namespace Core

def halting (s : Core) : Core := { s with haltOnError := true }

variable {maxLocks now : Nat} {t : ThreadId} {s s' : Core} {e : Event} {r : Option Rest} {x : Rest}

@[simp] theorem processError_halting (s : Core) (report : Report) (isDeadlock : Bool) :
    s.halting.processError report isDeadlock = none := rfl

section Halts

variable {α : Type} {f : Core → Option (Core × α)}

/-- With the option a section does the same, unless it reports an error. -/
def Halts (s : Core) (f : Core → Option (Core × α)) : Prop :=
  ∀ y, f s.halting = some y ↔
    ∃ s' r, f s = some (s', r) ∧ s'.errors = s.errors ∧ y = (s'.halting, r)

/-- A section that reports nothing. -/
theorem Halts.quiet (hhalting : f s.halting = (f s).map (Prod.map halting id))
    (herrors : ∀ s' r, f s = some (s', r) → s'.errors = s.errors) : Halts s f := by
  intro y
  rw [hhalting, Option.map_eq_some_iff]
  constructor
  · rintro ⟨⟨s', r⟩, hs', rfl⟩
    exact ⟨s', r, hs', herrors s' r hs', rfl⟩
  · rintro ⟨s', r, hs', -, rfl⟩
    exact ⟨(s', r), hs', rfl⟩

/-- A section that reports an error. -/
theorem Halts.loud (hhalting : f s.halting = none)
    (herrors : ∀ s' r, f s = some (s', r) → s'.errors ≠ s.errors) : Halts s f := by
  intro y
  rw [hhalting]
  constructor
  · rintro ⟨⟩
  · rintro ⟨s', r, hs', hsame, -⟩
    exact absurd hsame (herrors s' r hs')

theorem Halts.map {β : Type} (h : Halts s f) (g : α → β) :
    Halts s fun s => (f s).map fun result => (result.1, g result.2) := by
  intro y
  simp only [Option.map_eq_some_iff]
  constructor
  · rintro ⟨⟨s₁, r⟩, hs₁, rfl⟩
    obtain ⟨s', r', hs', herrors, heq⟩ := (h _).mp hs₁
    obtain ⟨rfl, rfl⟩ := Prod.mk.inj heq
    exact ⟨s', g r, ⟨_, hs', rfl⟩, herrors, rfl⟩
  · rintro ⟨s', r, ⟨⟨s₁, r'⟩, hs₁, heq⟩, herrors, rfl⟩
    obtain ⟨rfl, rfl⟩ := Prod.mk.inj heq
    exact ⟨_, (h _).mpr ⟨s₁, r', hs₁, herrors, rfl⟩, rfl⟩

end Halts

theorem call_halts (hset : ∀ options, e.hook ≠ .setOptions options) :
    Halts s (call maxLocks · e) := by
  obtain ⟨t, hook, now⟩ := e
  cases hook with
  | beforeLock mu =>
    by_cases hignore : 0 < s.ignoreLock t
    · refine Halts.quiet ?_ ?_ <;>
        simp [call, beforeLockLimit, halting, hignore, called, setIgnoreLock]
    · by_cases hfull : maxLocks ≤ (s.held t).n
      · refine Halts.loud ?_ ?_ <;>
          simp [call, beforeLockLimit, halting, hignore, hfull, processError, called]
      · refine Halts.quiet ?_ ?_ <;> simp [call, beforeLockLimit, halting, hignore, hfull]
  | inLock n =>
    rcases hcall : (s.calls t)[n]? with _ | ⟨mu, id⟩
    · refine Halts.quiet ?_ ?_ <;> simp [call, halting, hcall]
    · by_cases hid : id = invalidGraphId
      · refine Halts.quiet ?_ ?_ <;> simp [call, halting, hcall, hid]
      · refine Halts.quiet ?_ ?_ <;> simp [call, halting, hcall, hid, setHeld]
  | afterLock mu =>
    by_cases hignore : 0 < s.ignoreUnlock t
    · refine Halts.quiet ?_ ?_ <;> simp [call, countDownUnlock, halting, hignore, setIgnoreUnlock]
    · refine Halts.quiet ?_ ?_ <;> simp [call, countDownUnlock, halting, hignore]
  | deleteLock mu =>
    cases hg : s.graph.removeNode mu with
    | none => refine Halts.quiet ?_ ?_ <;> simp [call, deleteLockScope, halting, hg]
    | some g =>
      refine Halts.quiet ?_ fun s' r h => ?_
      · simp only [call, deleteLockScope, halting, hg]
        rfl
      · simp only [call, deleteLockScope, hg] at h
        obtain rfl := (Prod.mk.inj (Option.some.inj h)).1
        rfl
  | setOptions options => exact absurd rfl (hset options)
  | _ =>
    refine Halts.quiet rfl fun s' r h => ?_
    obtain rfl := (Prod.mk.inj (Option.some.inj h)).1
    rfl

theorem resume_halts {α : Type} (a : α) :
    Halts s fun s => (s.resume maxLocks now t x).map (·, a) := by
  cases x with
  | checkOrder mu =>
    rcases hid : s.graph.getId maxLocks t mu with _ | ⟨id, g⟩
    · refine Halts.quiet ?_ ?_ <;> simp [resume, beforeLockOrder, halting, hid]
    · rcases hcheck : checkHeldLocks id (s.held t).entries (g.updateStackTrace id t (s.held t)) with
        _ | ⟨_ | other, g'⟩
      · refine Halts.quiet ?_ ?_ <;> simp [resume, beforeLockOrder, halting, hid, hcheck]
      · refine Halts.quiet ?_ ?_ <;>
          simp [resume, beforeLockOrder, halting, hid, hcheck, setHeld, called]
      · refine Halts.loud ?_ ?_
        · simp [resume, beforeLockOrder, halting, hid, hcheck, setHeld, called, processError]
        · intro s' r h
          simp only [resume, beforeLockOrder, hid, hcheck, Option.bind_eq_bind, Option.bind_some,
            Option.map_eq_some_iff, Option.bind_eq_some_iff, processError_eq_some] at h
          obtain ⟨_, ⟨report, -, _, ⟨-, rfl⟩, h⟩, hs'⟩ := h
          obtain rfl := Option.some.inj h
          obtain rfl := (Prod.mk.inj hs').1
          simp [called, setHeld]
  | setFound =>
    refine Halts.quiet rfl fun s' r h => ?_
    obtain rfl := (Prod.mk.inj (Option.some.inj h)).1
    rfl
  | tryLock mu =>
    rcases hid : s.graph.getId maxLocks t mu with _ | ⟨id, g⟩ <;>
      refine Halts.quiet ?_ ?_ <;>
      simp [resume, beforeTryLockScope, halting, hid, setHeld, called]
  | afterLock mu =>
    rcases hid : s.graph.getId maxLocks t mu with _ | ⟨id, g⟩
    · refine Halts.quiet ?_ ?_ <;> simp [resume, afterLockScope, halting, hid]
    · cases hafter : updateLockHistoryAfterLock t mu id (s.held t) with
      | ok held =>
        refine Halts.quiet ?_ ?_ <;> simp [resume, afterLockScope, halting, hid, hafter, setHeld]
      | error report =>
        refine Halts.loud ?_ ?_
        · simp [resume, afterLockScope, halting, hid, hafter, processError]
        · intro s' r h
          simp only [resume, afterLockScope, hid, hafter, Option.bind_eq_bind, Option.bind_some,
            Option.map_eq_some_iff, Option.bind_eq_some_iff, processError_eq_some] at h
          obtain ⟨_, ⟨_, ⟨-, rfl⟩, h⟩, hs'⟩ := h
          obtain rfl := Option.some.inj h
          obtain rfl := (Prod.mk.inj hs').1
          simp [setHeld]
  | reportDelete mu =>
    refine Halts.loud ?_ ?_ <;> simp [resume, halting, processError]

/-- A section of an interleaving, as far as the state of interest is concerned. -/
def turn (maxLocks : Nat) (s : Core × (ThreadId → Option Rest)) (e : Turn) :
    Option (Core × (ThreadId → Option Rest)) :=
  match s.2 e.thread, e.hook with
  | none, some hook => (s.1.call maxLocks ⟨e.thread, hook, e.now⟩).map fun result =>
      (result.1, Function.update s.2 e.thread result.2)
  | some rest, none => (s.1.resume maxLocks e.now e.thread rest).map fun s' =>
      (s', Function.update s.2 e.thread none)
  | _, _ => none

theorem turn_halts {rest : ThreadId → Option Rest} {e : Turn}
    (hset : ∀ options, e.hook ≠ some (.setOptions options)) :
    Halts s fun s => turn maxLocks (s, rest) e := by
  unfold turn
  rcases hrest : rest e.thread with _ | x <;> rcases hhook : e.hook with _ | hook <;>
    simp only [hrest]
  · exact Halts.quiet rfl fun _ _ h => by cases h
  · have hcall := @call_halts maxLocks s ⟨e.thread, hook, e.now⟩ fun options heq =>
      hset options (hhook.trans (congrArg some heq))
    exact hcall.map (Function.update rest e.thread)
  · exact resume_halts _
  · exact Halts.quiet rfl fun _ _ h => by cases h

theorem turn_errors {s s' : Core × (ThreadId → Option Rest)} {e : Turn}
    (h : turn maxLocks s e = some s') : s.1.errors <+: s'.1.errors := by
  unfold turn at h
  split at h
  · obtain ⟨⟨s₁, r⟩, hcall, rfl⟩ := Option.map_eq_some_iff.mp h
    obtain ⟨-, new, herrors, -⟩ := @call_late maxLocks s.1 s₁ _ r hcall s.1.ignoreLock rfl
    exact ⟨new, herrors.symm⟩
  · rename_i r _ _
    obtain ⟨s₁, hresume, rfl⟩ := Option.map_eq_some_iff.mp h
    by_cases hr : r.waiting = none
    · cases r with
      | setFound =>
        obtain rfl := Option.some.inj hresume
        exact List.prefix_rfl
      | reportDelete mu =>
        obtain ⟨-, rfl⟩ := processError_eq_some.mp hresume
        exact List.prefix_append _ _
      | _ => cases hr
    · obtain ⟨-, -, -, hadds⟩ := resume_late hr hresume
      obtain ⟨new, -, herrors, -⟩ := hadds s.1.ignoreLock
      exact ⟨new, herrors.symm⟩
  · cases h

/-- An interleaving of sections goes through with the option if and only if it goes through
without it, and nothing is reported. -/
theorem exec_halts {rest : ThreadId → Option Rest} {es : List Turn}
    (hset : ∀ e ∈ es, ∀ options, e.hook ≠ some (.setOptions options)) :
    Halts s fun s => exec (turn maxLocks) (s, rest) es := by
  induction es generalizing s rest with
  | nil =>
    refine Halts.quiet rfl fun s' r h => ?_
    obtain rfl := (Prod.mk.inj (Option.some.inj h)).1
    rfl
  | cons e es ih =>
    have hhead := @turn_halts maxLocks s rest e (hset e List.mem_cons_self)
    have htail := fun s rest => @ih s rest fun e he => hset e (List.mem_cons_of_mem _ he)
    intro y
    rw [exec_cons]
    constructor
    · rintro ⟨u, hu, hy⟩
      obtain ⟨s₁, rest₁, hs₁, herrors, rfl⟩ := (hhead u).mp hu
      obtain ⟨s', r, hs', hsame, rfl⟩ := (htail s₁ rest₁ y).mp hy
      exact ⟨s', r, exec_cons.mpr ⟨_, hs₁, hs'⟩, hsame.trans herrors, rfl⟩
    · rintro ⟨s', r, hs', hsame, rfl⟩
      obtain ⟨⟨s₁, rest₁⟩, hs₁, hes⟩ := exec_cons.mp hs'
      -- nothing was reported on the way, either
      have hfirst := turn_errors hs₁
      have hrest : s₁.errors <+: s'.errors :=
        exec_invariant (P := fun u => s₁.errors <+: u.1.errors)
          (fun _ _ _ h hstep => h.trans (turn_errors hstep)) List.prefix_rfl hes
      have herrors : s₁.errors = s.errors :=
        (hfirst.eq_of_length_le (hsame ▸ hrest.length_le)).symm
      refine ⟨_, (hhead _).mpr ⟨s₁, rest₁, hs₁, herrors, rfl⟩, ?_⟩
      exact (htail s₁ rest₁ _).mpr ⟨s', r, hes, hsame.trans herrors.symm, rfl⟩

end Core

namespace Interleaved

variable {maxLocks : Nat}

/-- The state of interest of an interleaving. -/
def view (maxLocks : Nat) (s : Interleaved) : Core × (ThreadId → Option Rest) :=
  (s.config.core maxLocks, s.rest)

theorem view_step (s : Interleaved) (e : Turn) :
    (s.step maxLocks e).map (view maxLocks) = Core.turn maxLocks (s.view maxLocks) e := by
  unfold step Core.turn view
  dsimp only
  rcases s.rest e.thread with _ | r <;> rcases e.hook with _ | hook
  · rfl
  · dsimp only
    rw [← Config.core_call, Option.map_map, Option.map_map]
    rfl
  · dsimp only
    rw [← Config.core_resume, Option.map_map, Option.map_map]
    rfl
  · rfl

/-- An interleaving with `halt_on_error` is the one without it, up to the first error: the process
survives the sections `es` if and only if these report nothing without the option, and then it is
in the same state. -/
theorem exec_halting_iff {c : Config} {es : List Turn}
    (hset : ∀ e ∈ es, ∀ options, e.hook ≠ some (.setOptions options))
    (v : Core × (ThreadId → Option Rest)) :
    (exec (step maxLocks) ⟨c.halting, fun _ => none⟩ es).map (view maxLocks) = some v ↔
      ∃ s, exec (step maxLocks) ⟨c, fun _ => none⟩ es = some s ∧
        s.config.monitor.processedErrors = c.monitor.processedErrors ∧
        v = ((s.config.core maxLocks).halting, s.rest) := by
  have hhalts := @Core.exec_halts maxLocks (c.core maxLocks) (fun _ => none) es hset v
  have hview : view maxLocks ⟨c.halting, fun _ => none⟩ =
      ((c.core maxLocks).halting, fun _ => none) := rfl
  have hrun := exec_map (f := view maxLocks) view_step ⟨c, fun _ => none⟩ es
  rw [exec_map view_step, hview, hhalts]
  constructor
  · rintro ⟨s', r, hs', herrors, rfl⟩
    obtain ⟨s, hs, heq⟩ := Option.map_eq_some_iff.mp (hrun.trans hs')
    obtain ⟨rfl, rfl⟩ := Prod.mk.inj heq
    exact ⟨s, hs, herrors, rfl⟩
  · rintro ⟨s, hs, herrors, rfl⟩
    rw [hs] at hrun
    exact ⟨_, _, hrun.symm, herrors, rfl⟩

/-- Before its last turn the sample reports nothing. -/
theorem exec_halting_iff_sample : ∃ v,
    (exec (step 2) ⟨Config.halting {}, fun _ => none⟩ (sampleTurns.take 9)).map (view 2) =
      some v := by
  obtain ⟨s, hs, hnil⟩ : ∃ s, exec (step 2) ⟨{}, fun _ => none⟩ (sampleTurns.take 9) = some s ∧
      s.config.monitor.processedErrors.isEmpty = true := exists_exec (by decide +kernel)
  have hset : ∀ e ∈ sampleTurns.take 9, ∀ options, e.hook ≠ some (.setOptions options) := by
    simp [sampleTurns]
  exact ⟨_, (exec_halting_iff hset _).mpr ⟨s, hs, List.isEmpty_iff.mp hnil, rfl⟩⟩

end Interleaved
end CppGuard
