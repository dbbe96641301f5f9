import CppGuard.DeadlockMonitor.Polling

/-!
# A busy interval is reported once

The mark of a thread moves with its entry when other threads leave, and only a callback that finds
the thread idle clears it. While the start time of the thread stays as it is, no callback does: the
clock has passed it already.
-/
namespace CppGuard
open Transition

namespace Polled

variable {maxLocks now : Nat} {s s' : Polled} {task : Task} {p : SyncPtr}

/-- What a step selects is reported, unless the interval is over. -/
theorem reported_step (hstep : step maxLocks s task = some s')
    (hsame : s'.config.monitor.starts p = s.config.monitor.starts p)
    (h : s.reported p = true ∨ selects s.config p task = true) : s'.reported p = true := by
  obtain ⟨c, -, -, rfl⟩ := step_eq_some hstep
  simpa [hsame] using h

/-- A reported interval stays reported until it is over. -/
theorem exec_reported {start : Nat} {tasks : List Task} (h : s.reported p = true)
    (hperiod : Always (fun u => u.config.monitor.starts p = start) (step maxLocks) s tasks)
    (hrun : exec (step maxLocks) s tasks = some s') : s'.reported p = true := by
  induction tasks generalizing s with
  | nil => exact Option.some.inj hrun ▸ h
  | cons task tasks ih =>
    obtain ⟨u, hu, hrun⟩ := exec_cons.mp hrun
    obtain ⟨hstart, hrest⟩ := (always_cons hu).mp hperiod
    have hsame : u.config.monitor.starts p = s.config.monitor.starts p := by
      rw [hstart]
      exact hrest [] List.nil_prefix u rfl
    exact ih (reported_step hu hsame (Or.inl h)) hrest hrun

/-- A scan reads the start times and does not change them. -/
theorem starts_scan {i : Nat} (hstep : step maxLocks s (.scan now i) = some s') (p : SyncPtr) :
    s'.config.monitor.starts p = s.config.monitor.starts p := by
  obtain ⟨c, hc, -, rfl⟩ := step_eq_some hstep
  obtain ⟨w, -, rfl⟩ := Option.map_eq_some_iff.mp hc
  rfl

theorem Marked.exec (h : Marked s) {tasks : List Task}
    (hrun : exec (step maxLocks) s tasks = some s') : Marked s' :=
  exec_invariant (fun _ _ _ h hstep => h.kept hstep) h hrun

/-- One callback has selected a thread, and its start time has stayed the same since then: no other
callback selects it. -/
theorem selected_once {options : RuntimeOptions} {debuggerPresent timerQueue : Bool}
    {before between : List Task} {s₁ s₁' s₂ : Polled} {now₁ i : Nat}
    (hbefore : exec (step maxLocks) { config := .start options debuggerPresent timerQueue }
      before = some s₁)
    (hscan : step maxLocks s₁ (.scan now₁ i) = some s₁')
    (hselected : (s₁.config.selected now₁).map Prod.fst = some p)
    (hbetween : exec (step maxLocks) s₁' between = some s₂)
    (hperiod : Always (fun s => s.config.monitor.starts p = s₁.config.monitor.starts p)
      (step maxLocks) s₁' between) (now₂ : Nat) :
    (s₂.config.selected now₂).map Prod.fst ≠ some p := by
  have hreported : s₁'.reported p = true :=
    reported_step hscan (starts_scan hscan p) (Or.inr (beq_iff_eq.mpr hselected))
  have hstill := exec_reported hreported hperiod hbetween
  have hmarked : Marked s₂ := (((marked_start ..).exec hbefore).kept hscan).exec hbetween
  intro hagain
  obtain ⟨⟨q, d⟩, hselected₂, rfl⟩ := Option.map_eq_some_iff.mp hagain
  cases (hmarked.not_reported hselected₂).symm.trans hstill

/-- A thread enters a lock; another one comes and goes while the first is busy. -/
def busyOnce : List Task :=
  [.hook ⟨2, .beforeLock 32, 1⟩, .hook ⟨1, .beforeLock 16, 1⟩, .hook ⟨1, .inLock 0, 1⟩,
    .hook ⟨2, .inLock 0, 2⟩, .hook ⟨2, .afterLock 32, 3⟩, .timerExpired 0]

def busyStill : List Task :=
  [.hook ⟨2, .threadDelete, 40000⟩, .report 0, .rearm 0, .timerExpired 0]

theorem selected_once_sample : ∃ s₁ s₁' s₂,
    exec (step 20) { config := .start {} false true } busyOnce = some s₁ ∧
    step 20 s₁ (.scan 40000 0) = some s₁' ∧
    (s₁.config.selected 40000).map Prod.fst = some ⟨1, 1⟩ ∧
    exec (step 20) s₁' busyStill = some s₂ ∧
    (s₂.config.selected 80000).map Prod.fst ≠ some ⟨1, 1⟩ := by
  obtain ⟨s₁, hbefore, hselected, hrest⟩ : ∃ s₁,
      exec (step 20) { config := .start {} false true } busyOnce = some s₁ ∧
      (s₁.config.selected 40000).map Prod.fst = some ⟨1, 1⟩ ∧
      (step 20 s₁ (.scan 40000 0)).any (fun s₁' => (exec (step 20) s₁' busyStill).isSome &&
        decide (Always (fun s => s.config.monitor.starts ⟨1, 1⟩ = s₁.config.monitor.starts ⟨1, 1⟩)
          (step 20) s₁' busyStill)) = true :=
    exists_exec (by decide +kernel)
  obtain ⟨s₁', hscan, hrest⟩ := (Option.any_eq_true _ _).mp hrest
  obtain ⟨hsome, hperiod⟩ := (Bool.and_eq_true _ _).mp hrest
  obtain ⟨s₂, hbetween⟩ := Option.isSome_iff_exists.mp hsome
  exact ⟨s₁, s₁', s₂, hbefore, hscan, hselected, hbetween,
    selected_once hbefore hscan hselected hbetween (of_decide_eq_true hperiod) 80000⟩

end Polled
end CppGuard
