import CppGuard.DeadlockMonitor.Bounded
import CppGuard.DeadlockMonitor.Progress

/-!
# How many locks the monitor can watch

A hook asks the graph for the id of its lock, and gives the id back when the lock is deleted. So
the slots of the graph are counted by the calls of `GetId` and `RemoveNode` that the hooks can
make, and no hook gets stuck as long as these need no more than `slotLimit` slots.
-/
namespace CppGuard
open Transition DeadlockMonitor

namespace Rep

/-- The graph needs no more slots than after the calls `ops`. -/
def Covered (g : Rep) (ops : List Op) : Prop :=
  ∃ s n, Balanced g s n (ops.countP Op.isRemoveNode) ∧ s ⊆ registered ops ∧ n ≤ peak ops

theorem covered_nil : Covered {} [] := ⟨∅, 0, balanced_empty, le_rfl, le_rfl⟩

namespace Covered

variable {g g' : Rep} {ops : List Op} {op : Op} {maxLocks : Nat} {t : ThreadId} {mu : Addr}
  {id : GraphId}

theorem same (h : Covered g ops) (hg' : g'.Inv) (hsame : SameIndex g g') : Covered g' ops := by
  obtain ⟨s, n, hbalanced, hs, hn⟩ := h
  refine ⟨s, _, hbalanced.same hg' hsame, hs, max_le hn ?_⟩
  exact (Finset.card_le_card hs).trans (card_registered_le ops)

/-- One more call of the graph. -/
theorem step (h : Covered g ops) (hstep : Rep.step maxLocks g op = some g') :
    Covered g' (ops ++ [op]) := by
  obtain ⟨s, n, hbalanced, hs, hn⟩ := h
  obtain ⟨hnone, -⟩ | ⟨g'', hsome, hbalanced'⟩ := hbalanced.step maxLocks op
  · cases hnone.symm.trans hstep
  · obtain rfl := Option.some.inj (hsome.symm.trans hstep)
    have hsub : register s op ⊆ registered (ops ++ [op]) := by
      rw [registered_concat]
      cases op with
      | getId thread ptr => exact Finset.insert_subset_insert ptr hs
      | removeNode ptr => exact Finset.erase_subset_erase ptr hs
      | _ => exact hs
    refine ⟨register s op, max n (register s op).card, ?_, hsub, ?_⟩
    · rw [List.countP_append, List.countP_singleton]
      exact hbalanced'
    · rw [peak_concat]
      exact max_le_max hn (Finset.card_le_card hsub)

/-- A lock is named, and the graph is not asked for it. -/
theorem skip (h : Covered g ops) : Covered g (ops ++ [.getId t mu]) := by
  obtain ⟨s, n, hbalanced, hs, hn⟩ := h
  refine ⟨s, n, ?_, ?_, ?_⟩
  · rw [List.countP_append, List.countP_singleton]
    exact hbalanced
  · rw [registered_concat]
    exact hs.trans (Finset.subset_insert ..)
  · rw [peak_concat]
    exact hn.trans (le_max_left ..)

theorem getId (h : Covered g ops) (hget : g.getId maxLocks t mu = some (id, g')) :
    Covered g' (ops ++ [.getId t mu]) :=
  h.step (show Rep.step maxLocks g (.getId t mu) = some g' by simp [Rep.step, hget])

theorem size_le (h : Covered g ops) : g.size ≤ slots ops := by
  obtain ⟨s, n, hbalanced, -, hn⟩ := h
  exact hbalanced.size_le_slots.trans (Nat.add_le_add_right hn _)

theorem hasRoom (h : Covered g ops) (hslots : slots ops ≤ slotLimit) : g.HasRoom := by
  have hlimit : slotLimit < vecMaxSize := by decide
  exact Or.inr ((h.size_le.trans hslots).trans_lt hlimit)

end Covered
end Rep

open CppGuard.Rep

/-! ## The hooks -/

/-- The call of `GetId` or `RemoveNode` that a hook makes, unless it has nothing to record. -/
def Event.graphCall (e : Event) : Option Op :=
  match e.hook with
  | .beforeLock mu | .beforeTryLock mu | .afterLock mu => some (.getId e.thread mu)
  | .deleteLock mu => some (.removeNode mu)
  | _ => none

/-- The calls that the hooks of a run can make. -/
def graphCalls (es : List Event) : List Op := es.filterMap Event.graphCall

theorem graphCalls_append (es es' : List Event) :
    graphCalls (es ++ es') = graphCalls es ++ graphCalls es' := List.filterMap_append ..

theorem graphCalls_concat (es : List Event) (e : Event) :
    graphCalls (es ++ [e]) = graphCalls es ++ e.graphCall.toList := by
  cases h : e.graphCall <;> simp [graphCalls, h]

namespace Core

variable {maxLocks now : Nat} {s s' : Core} {t : ThreadId} {hook : Hook} {ops : List Op}

theorem Effect.covered (h : Effect maxLocks s t now hook s') (hs : s.Inv maxLocks)
    (hcovered : s.graph.Covered ops) :
    s'.graph.Covered (ops ++ (Event.graphCall ⟨t, hook, now⟩).toList) := by
  cases h with
  | lockIgnored | lockFull | unlockIgnored => exact hcovered.skip
  | @lock mu id g g' _ _ hid hcheck | @lockRefused mu id g g' _ _ _ _ hid hcheck =>
    have hgot := hs.clean.getId_arc hid
    have hupdated := (hcovered.getId hid).same
      (updateStackTrace_inv hgot.clean.toInv id t (s.held t))
      (updateStackTrace_node g id t (s.held t)).1
    exact hupdated.same (hs.entered hid hcheck).keeps.clean.toInv
      (hs.checked hid hcheck).sameIdent.sameIndex
  | tryLock hid | unlock _ hid | unlockError _ hid => exact hcovered.getId hid
  | @delete mu _ hremove | @deleteHeld mu _ hremove =>
    exact @Covered.step _ _ _ (.removeNode mu) 0 hcovered hremove
  | inLock | cndWait | increaseIgnoreCounter | setOptions | threadDelete =>
    exact (List.append_nil ops).symm ▸ hcovered

theorem Effect.small (h : Effect maxLocks s t now hook s') (hs : s.Inv maxLocks)
    (hcovered : s.graph.Covered ops) (hsmall : s.graph.Small)
    (hslots : slots (ops ++ (Event.graphCall ⟨t, hook, now⟩).toList) ≤ slotLimit) :
    s'.graph.Small := by
  cases h with
  | lockIgnored | lockFull | unlockIgnored => exact hsmall
  | @lock mu id g _ _ _ hid hcheck | @lockRefused mu id g _ _ _ _ _ hid hcheck =>
    have hfits : g.Fits := ⟨(hs.clean.getId_arc hid).clean.toInv, hsmall.getId hid,
      (hcovered.getId hid).size_le.trans hslots⟩
    obtain ⟨-, hkeeps⟩ := DeadlockMonitor.Bounded.checkHeldLocks_eq
      (hfits.updateStackTrace id t (s.held t)) id (s.held t).entries
    exact (hkeeps _ _ hcheck).small
  | tryLock hid | unlock _ hid | unlockError _ hid => exact hsmall.getId hid
  | delete hremove | deleteHeld hremove => exact hsmall.removeNode hs.clean.toInv hremove
  | inLock | cndWait | increaseIgnoreCounter | setOptions | threadDelete => exact hsmall

theorem Effect.running (h : Effect maxLocks s t now hook s') (hs : s.haltOnError = false)
    (hset : ∀ options, hook = .setOptions options → options.haltOnError = false) :
    s'.haltOnError = false := by
  cases h with
  | setOptions => exact hset _ rfl
  | _ => exact hs

end Core

namespace Config

variable {maxLocks : Nat} {options : RuntimeOptions} {c : Config} {es : List Event}

/-- A monitor that is created with `options`. -/
def fresh (options : RuntimeOptions) : Config := { monitor := { runtimeOptions := options } }

theorem inv_fresh (maxLocks : Nat) (options : RuntimeOptions) :
    ((fresh options).core maxLocks).Inv maxLocks := by
  have hinv := Core.inv_initial maxLocks
  exact ⟨hinv.clean, hinv.valid, hinv.held, hinv.calls⟩

/-- The graph has slots for the locks that the hooks name, and for no others. -/
theorem exec_covered (h : exec (step maxLocks) (fresh options) es = some c) :
    (c.core maxLocks).Inv maxLocks ∧ c.monitor.deadlockGraph.Covered (graphCalls es) := by
  induction es using List.reverseRecOn generalizing c with
  | nil =>
    obtain rfl := Option.some.inj h
    exact ⟨inv_fresh maxLocks options, covered_nil⟩
  | append_singleton es e ih =>
    obtain ⟨c₁, h₁, hstep⟩ := exec_concat.mp h
    obtain ⟨hinv, hcovered⟩ := ih h₁
    have heffect := step_effect hstep
    refine ⟨heffect.inv hinv, ?_⟩
    rw [graphCalls_concat]
    exact heffect.covered hinv hcovered

/-- A thread calls `dlc_deadlock_check_in_lock` with an id that a before-hook has returned. -/
def InCall (c : Config) (e : Event) : Prop :=
  match e.hook with
  | .inLock n => ∃ call ∈ (c.calls e.thread)[n]?, call.2 ≠ invalidGraphId
  | _ => True

instance (c : Config) (e : Event) : Decidable (InCall c e) := by
  unfold InCall
  split <;> infer_instance

/-- A thread does not switch `halt_on_error` on. -/
def KeepsRunning (e : Event) : Prop :=
  ∀ options, e.hook = .setOptions options → options.haltOnError = false

theorem exec_running (hhalt : c.monitor.runtimeOptions.haltOnError = false)
    (hkeeps : ∀ e ∈ es, KeepsRunning e) {c' : Config} (h : exec (step maxLocks) c es = some c') :
    c'.monitor.runtimeOptions.haltOnError = false :=
  exec_invariant_of_mem (P := fun c => c.monitor.runtimeOptions.haltOnError = false)
    (fun _ e he _ hc hstep => (step_effect hstep).running hc (hkeeps e he)) hhalt h

section

variable (hrun : exec (step maxLocks) (fresh options) es = some c)
include hrun

theorem exec_small (hslots : slots (graphCalls es) ≤ slotLimit) :
    c.monitor.deadlockGraph.Small := by
  induction es using List.reverseRecOn generalizing c with
  | nil =>
    obtain rfl := Option.some.inj hrun
    exact small_empty
  | append_singleton es e ih =>
    obtain ⟨c₁, h₁, hstep⟩ := exec_concat.mp hrun
    rw [graphCalls_concat] at hslots
    obtain ⟨hinv, hcovered⟩ := exec_covered h₁
    have hsmall := ih h₁ ((slots_append_le ..).trans hslots)
    exact (step_effect hstep).small hinv hcovered hsmall hslots

/-- A hook does not meet the limits of the vectors, as long as few locks are named. -/
theorem step_bounded {e : Event} (hslots : slots (graphCalls (es ++ [e])) ≤ slotLimit) :
    Bounded.step maxLocks c e = step maxLocks c e := by
  obtain ⟨hinv, hcovered⟩ := exec_covered hrun
  rw [graphCalls_concat] at hslots
  have hsmall := exec_small hrun ((slots_append_le ..).trans hslots)
  refine Bounded.step_eq fun mu id g hhook hget => ?_
  have hcall : e.graphCall = some (.getId e.thread mu) := by simp [Event.graphCall, hhook]
  rw [hcall] at hslots
  exact ⟨(hinv.clean.getId_arc hget).clean.toInv, hsmall.getId hget,
    (hcovered.getId hget).size_le.trans hslots⟩

/-- A hook returns as long as few locks are named. -/
theorem bounded_returns {e : Event} (hslots : slots (graphCalls (es ++ [e])) ≤ slotLimit)
    (hhalt : c.monitor.runtimeOptions.haltOnError = false) (hcall : InCall c e) :
    ∃ c', Bounded.step maxLocks c e = some c' := by
  obtain ⟨hinv, hcovered⟩ := exec_covered hrun
  rw [step_bounded hrun hslots]
  rw [graphCalls_concat] at hslots
  refine step_returns hinv e hhalt (hcovered.hasRoom ((slots_append_le ..).trans hslots)) ?_
  intro n hn
  rw [InCall, hn] at hcall
  obtain ⟨⟨mu, id⟩, hmem, hid⟩ := hcall
  exact ⟨mu, id, hmem, hid⟩

end

/-- No hook gets stuck unless it has an error to report and is told to halt, as long as the locks
that are named at the same time and the slots that deletions have worn out are few enough. -/
theorem exec_returns (hhalt : options.haltOnError = false) (hkeeps : ∀ e ∈ es, KeepsRunning e)
    (hcalls : Along InCall (Bounded.step maxLocks) (fresh options) es)
    (hslots : slots (graphCalls es) ≤ slotLimit) :
    ∃ c, exec (Bounded.step maxLocks) (fresh options) es = some c := by
  refine exec_of_progress fun es' e c hprefix hrun => ?_
  have hcall := hcalls.of_prefix hprefix hrun
  have hrun' := exec_mono (fun _ _ _ => Bounded.step_unbounded) hrun
  obtain ⟨rest, rfl⟩ := hprefix
  have hnamed : slots (graphCalls (es' ++ [e])) ≤ slotLimit := by
    refine (slots_append_le _ (graphCalls rest)).trans ?_
    rwa [← graphCalls_append]
  exact bounded_returns hrun' hnamed
    (exec_running hhalt (fun e he => hkeeps e (by simp [he])) hrun') hcall

/-- Two threads take two locks in different orders, and one of them deletes a lock that it holds. -/
def crossingDeleted : List Event :=
  [⟨1, .beforeLock 8, 1⟩, ⟨1, .inLock 0, 1⟩, ⟨1, .beforeLock 16, 1⟩, ⟨1, .inLock 0, 1⟩,
    ⟨1, .afterLock 8, 2⟩, ⟨2, .beforeLock 8, 2⟩, ⟨2, .inLock 0, 2⟩, ⟨2, .beforeTryLock 16, 2⟩,
    ⟨2, .beforeLock 16, 3⟩, ⟨2, .deleteLock 8, 3⟩, ⟨1, .afterLock 16, 4⟩]

theorem exec_returns_sample : ∃ c, exec (Bounded.step 2) (fresh {}) crossingDeleted = some c :=
  exec_returns rfl (by simp [crossingDeleted, KeepsRunning]) (by decide +kernel) (by decide +kernel)

end Config
end CppGuard
