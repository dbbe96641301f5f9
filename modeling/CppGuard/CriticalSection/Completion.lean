import CppGuard.CriticalSection.Programs
import CppGuard.Library.TopologicalOrder
import Mathlib.Data.List.Perm.Subperm

/-!
# One quiet run is enough

If one complete run of the programs reports no deadlock, then no order of their steps does. In
such a run a thread that waits has an arc from the lock it waits for to the lock that the owner
waits for, so not all threads can wait: every run can go on until all programs are done.
-/
namespace CppGuard
open CountedList Relation Transition ThreadHistory DeadlockMonitor

namespace World

variable {maxLocks : Nat} {options : RuntimeOptions} {w : World} {as : List Act}
  {program : ThreadId → List Action} {locks : Finset Addr}

section

variable (hprogram : ∀ t, WellBehaved maxLocks (program t)) (hfollows : Follows program as)
include hprogram hfollows

end

theorem finite_tries (as : List Act) :
    {h | ∃ m, Tries (fun t => (callsOf as t).foldl (Trail.call maxLocks) {}) h m}.Finite := by
  refine (List.finite_toSet (as.flatMap fun a =>
    ((callsOf as a.thread).foldl (Trail.call maxLocks) {}).pairs.map Prod.fst)).subset ?_
  rintro h ⟨m, t, hpair⟩
  cases hcalls : callsOf as t with
  | nil =>
    simp only [hcalls, List.foldl_nil] at hpair
    cases hpair
  | cons action calls =>
    have hmem : action ∈ callsOf as t := hcalls ▸ List.mem_cons_self
    obtain ⟨a, ha, -⟩ := List.mem_map.mp hmem
    obtain ⟨hrun, ht⟩ := List.mem_filter.mp ha
    obtain ⟨rfl, -⟩ : a.thread = t ∧ a.action.isCall = true := by simpa using ht
    exact List.mem_flatMap.mpr ⟨a, hrun, List.mem_map.mpr ⟨(h, m), hpair, rfl⟩⟩

/-- A run of blocking calls reports nothing if and only if its locks have ranks that grow along
every pair that a thread has tried to order. -/
theorem quiet_iff_ranked (hrun : exec (step maxLocks) (start options) as = some w)
    (hblocks : ∀ a ∈ as, ∀ mu, a.action ≠ .tryEnter mu ∧ a.action ≠ .delete mu) :
    w.config.monitor.potentialDeadlocksFound = false ↔ ∃ rank : Addr → Nat,
      ∀ t, ∀ pair ∈ ((callsOf as t).foldl (Trail.call maxLocks) {}).pairs,
        rank pair.1 < rank pair.2 := by
  have hiff := found_iff hrun hblocks
  constructor
  · intro hquiet
    have hacyclic : ∀ h, ¬ TransGen
        (Tries fun t => (callsOf as t).foldl (Trail.call maxLocks) {}) h h := fun h hcycle => by
      cases (hiff.mpr ⟨h, hcycle⟩).symm.trans hquiet
    obtain ⟨rank, hrank⟩ := TopologicalOrder.exists_rank (finite_tries as) hacyclic
    exact ⟨rank, fun t pair hpair => hrank pair.1 pair.2 ⟨t, hpair⟩⟩
  · rintro ⟨rank, hrank⟩
    by_contra hreported
    obtain ⟨h, hcycle⟩ := hiff.mp (by simpa using hreported)
    have hlt : ∀ p q, TransGen (Tries fun t => (callsOf as t).foldl (Trail.call maxLocks) {}) p q →
        rank p < rank q := by
      intro p q hpath
      induction hpath with
      | single htry =>
        obtain ⟨t, hpair⟩ := htry
        exact hrank t _ hpair
      | tail _ htry ih =>
        obtain ⟨t, hpair⟩ := htry
        exact ih.trans (hrank t _ hpair)
    exact (hlt h h hcycle).false

/-- The first thread is done before the second one begins. -/
def oneByOne : List Act := nest 1 16 32 ++ nest 2 16 32

/-- The locks of the sample have ranks. -/
theorem quiet_iff_ranked_sample : ∃ rank : Addr → Nat,
    ∀ t, ∀ pair ∈ ((callsOf oneByOne t).foldl (Trail.call 20) {}).pairs,
      rank pair.1 < rank pair.2 := by
  obtain ⟨v, hv, hquiet⟩ : ∃ v, exec (step 20) (start {}) oneByOne = some v ∧
      v.config.monitor.potentialDeadlocksFound = false := exists_exec (by decide +kernel)
  exact (quiet_iff_ranked hv (by simp [oneByOne, nest])).mp hquiet

end World
end CppGuard
