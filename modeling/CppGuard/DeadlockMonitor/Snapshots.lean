import CppGuard.DeadlockMonitor.Attempts
import CppGuard.DeadlockMonitor.Progress

/-!
# The locks that a snapshot lists

`hold_locks_count` has eight bits, the number of locks that a thread holds does not. A snapshot
lists the locks of its attempt as long as there were fewer than 256 of them.
-/
namespace CppGuard
open Transition DeadlockMonitor CppGuard.Rep Attempt

namespace Rep

/-- The snapshot of an attempt is complete if and only if the count did not wrap. -/
theorem snapshot_lists_iff {n : Node} {B : Attempt} (h : n.snapshot = B.snapshot) :
    (n.holdLocksCount = B.held.n ∧ constructHoldLocksString n.holdLocks n.holdLocksCount =
      B.held.entries.map LockT.mu) ↔ B.held.n < 2 ^ 8 := by
  have hlocks : n.holdLocks = B.held.locks := congrArg Node.holdLocks h
  have hcount : n.holdLocksCount = B.held.n % 2 ^ 8 := congrArg Node.holdLocksCount h
  rw [hcount, hlocks]
  constructor
  · rintro ⟨hn, -⟩
    omega
  · intro hn
    rw [Nat.mod_eq_of_lt hn]
    refine ⟨rfl, ?_⟩
    rw [constructHoldLocksString, SynchLocksHeld.entries, min_comm, ← List.take_take,
      List.take_length]

theorem size_getId_le {g g' : Rep} {maxLocks : Nat} {thread : ThreadId} {p : Addr} {id : GraphId}
    (h : g.getId maxLocks thread p = some (id, g')) : g'.size ≤ g.size + 1 := by
  obtain ⟨found, -, h⟩ := Option.bind_eq_some_iff.mp h
  cases found with
  | some i =>
    cases h
    exact Nat.le_succ _
  | none =>
    cases hfree : g.freeNodes with
    | nil =>
      simp only [hfree] at h
      obtain ⟨-, -, h⟩ := Option.bind_eq_some_iff.mp h
      cases h
      simp [add, size, modify]
    | cons i freeNodes =>
      simp only [hfree] at h
      cases h
      simp [add, size, modify]

end Rep

namespace Core

variable {maxLocks now : Nat} {s s' : Core} {t : ThreadId} {mu : Addr} {hook : Hook}

/-- A recorded call is made with the history that the thread has then. -/
theorem Effect.of_mem_made (h : Effect maxLocks s t now hook s') {A : Attempt}
    (hA : A ∈ made s t hook s') : hook.isBeforeLock = true ∧ s.ignoreLock t = 0 ∧
      (s.held t).n < maxLocks ∧ A.held = s.held t := by
  cases h with
  | lock hignore hroom _ _ =>
    simp only [made, called, Function.update_self, List.head?_cons] at hA
    split_ifs at hA
    · cases hA
    · exact ⟨rfl, hignore, hroom, by rw [List.mem_singleton.mp hA]⟩
  | lockRefused hignore hroom _ _ _ _ =>
    simp only [made, called, Function.update_self, List.head?_cons] at hA
    split_ifs at hA
    · cases hA
    · exact ⟨rfl, hignore, hroom, by rw [List.mem_singleton.mp hA]⟩
  | lockIgnored _ => simp [made, called] at hA
  | lockFull _ _ _ => simp [made, called] at hA
  | _ => simp [made] at hA

/-- A call that is not ignored and finds room is recorded. -/
theorem Effect.made_eq (h : Effect maxLocks s t now (.beforeLock mu) s') (hs : s.Inv maxLocks)
    (hignore : s.ignoreLock t = 0) (hroom : (s.held t).n < maxLocks) :
    ∃ id, s'.graph.Live id mu ∧ made s t (.beforeLock mu) s' = [⟨id, t, s.held t⟩] := by
  obtain ⟨id, refused, hlocked⟩ := h.locked hs hignore hroom
  have hself := hlocked.entered.self
  have hne := hself.ne_invalid hlocked.entered.keeps.clean.toIndexed
  exact ⟨id, hself, by simp [made, hlocked.calls, called, hne]⟩

/-- A call makes room for one lock at most. -/
theorem Effect.size_le (h : Effect maxLocks s t now (.beforeLock mu) s') (hs : s.Inv maxLocks) :
    s'.graph.size ≤ s.graph.size + 1 ∧ s'.haltOnError = s.haltOnError := by
  have entered : ∀ {id g g' refused}, s.graph.getId maxLocks t mu = some (id, g) →
      checkHeldLocks id (s.held t).entries (g.updateStackTrace id t (s.held t)) =
        some (refused, g') → g'.size ≤ s.graph.size + 1 := by
    intro id g g' refused hid hcheck
    rw [(hs.checked hid hcheck).sameIdent.size, (updateStackTrace_node g id t _).1.size]
    exact size_getId_le hid
  cases h with
  | lockIgnored _ => exact ⟨Nat.le_succ _, rfl⟩
  | lockFull _ _ _ => exact ⟨Nat.le_succ _, rfl⟩
  | lock _ _ hid hcheck => exact ⟨entered hid hcheck, rfl⟩
  | lockRefused _ _ hid hcheck _ _ => exact ⟨entered hid hcheck, rfl⟩

end Core

namespace Traced

/-- The snapshot of a lock lists the locks that were held during the attempt that it shows. -/
def ListsHeld (s : Traced) : Prop :=
  ∀ id p, s.config.monitor.deadlockGraph.Live id p →
    ∀ B, longest (onLock s.attempts id) = some B →
      let n := s.config.monitor.deadlockGraph.node (nodeIndex id)
      n.holdLocksCount = B.held.n ∧
        constructHoldLocksString n.holdLocks n.holdLocksCount = B.held.entries.map LockT.mu

/-- A call that takes a snapshot is made with fewer than 256 held locks. -/
def FewHeld (maxLocks : Nat) (s : Traced) (e : Event) : Prop :=
  e.hook.isBeforeLock = true →
    (s.config.monitor.threadLocals e.thread).ignoreCounterLock = 0 →
    (s.config.monitor.locksHeld maxLocks e.thread).n < maxLocks →
    (s.config.monitor.locksHeld maxLocks e.thread).n < 2 ^ 8

instance (maxLocks : Nat) (s : Traced) (e : Event) : Decidable (FewHeld maxLocks s e) :=
  inferInstanceAs (Decidable (_ → _ → _ → _))

/-- The attempts account for the graph, and none of them was made with 256 locks or more. -/
structure Few (maxLocks : Nat) (s : Traced) : Prop where
  inv : (s.config.core maxLocks).Inv maxLocks
  accounted : s.config.monitor.deadlockGraph.Accounted s.attempts
  few : ∀ A ∈ s.attempts, A.held.n < 2 ^ 8

variable {maxLocks : Nat} {s s' : Traced} {e : Event}

theorem step_eq_some (h : step maxLocks s e = some s') :
    Core.Effect maxLocks (s.config.core maxLocks) e.thread e.now e.hook
      (s'.config.core maxLocks) ∧
    s'.attempts = s.attempts ++
      (s.config.core maxLocks).made e.thread e.hook (s'.config.core maxLocks) := by
  obtain ⟨c, hc, rfl⟩ := Option.map_eq_some_iff.mp h
  exact ⟨Config.step_effect hc, rfl⟩

theorem Few.listsHeld (h : Few maxLocks s) : s.ListsHeld := by
  intro id p hid B hB
  have hmem : B ∈ s.attempts := List.mem_of_mem_filter (List.argmax_mem hB)
  have hrecorded := h.accounted.recorded id p hid
  rw [Recorded, hB] at hrecorded
  exact (snapshot_lists_iff hrecorded).mpr (h.few B hmem)

theorem Few.step (h : Few maxLocks s) (hfew : FewHeld maxLocks s e)
    (hstep : step maxLocks s e = some s') : Few maxLocks s' := by
  obtain ⟨heffect, hattempts⟩ := step_eq_some hstep
  refine ⟨heffect.inv h.inv, hattempts ▸ heffect.accounted h.inv h.accounted, fun A hA => ?_⟩
  rw [hattempts] at hA
  obtain hA | hA := List.mem_append.mp hA
  · exact h.few A hA
  · obtain ⟨hhook, hignore, hroom, hheld⟩ := heffect.of_mem_made hA
    rw [hheld]
    exact hfew hhook hignore hroom

/-- An attempt with 256 locks or more leaves a snapshot that does not list them. -/
theorem not_listsHeld_of_step (hs : (s.config.core maxLocks).Inv maxLocks)
    (hacc : s.config.monitor.deadlockGraph.Accounted s.attempts)
    (hmany : ¬ FewHeld maxLocks s e) (hstep : step maxLocks s e = some s') : ¬ s'.ListsHeld := by
  obtain ⟨t, hook, now⟩ := e
  simp only [FewHeld, Classical.not_imp, not_lt] at hmany
  obtain ⟨hhook, hignore, hroom, hmany⟩ := hmany
  cases hook with
  | beforeLock mu =>
    obtain ⟨heffect, hattempts⟩ := step_eq_some hstep
    obtain ⟨id, hid, hmade⟩ := heffect.made_eq hs hignore hroom
    have hacc' := hattempts ▸ heffect.accounted hs hacc
    rw [hmade] at hattempts
    intro hlists
    set A : Attempt := ⟨id, t, (s.config.core maxLocks).held t⟩
    have hmem : A ∈ onLock s'.attempts id := by simp [hattempts, onLock, A]
    obtain ⟨B, hB⟩ : ∃ B, longest (onLock s'.attempts id) = some B := by
      refine Option.isSome_iff_exists.mp (Option.isSome_iff_ne_none.mpr fun hnone => ?_)
      rw [List.argmax_eq_none.mp hnone] at hmem
      cases hmem
    have hle : A.held.n ≤ B.held.n :=
      List.le_of_mem_argmax (f := fun A : Attempt => A.held.n) hmem hB
    have hrecorded := hacc'.recorded id mu hid
    rw [Recorded, hB] at hrecorded
    have hlt := (snapshot_lists_iff hrecorded).mp (hlists id mu hid B hB)
    exact absurd (hmany.trans hle) (Nat.not_le.mpr hlt)
  | _ => cases hhook

/-- In a run the snapshots list the held locks all the time if and only if every attempt is made
with fewer than 256 locks. -/
theorem listsHeld_iff {es : List Event} (hrun : exec (step maxLocks) {} es = some s) :
    Always ListsHeld (step maxLocks) {} es ↔ Along (FewHeld maxLocks) (step maxLocks) {} es := by
  refine always_iff_along (I := Few maxLocks) (fun _ h => h.listsHeld)
    (fun _ _ _ _ h hfew hstep => h.step hfew hstep)
    (fun _ _ _ _ h hmany hstep => not_listsHeld_of_step h.inv h.accounted hmany hstep) ?_ hrun
  exact ⟨Core.inv_initial maxLocks, accounted_empty, by simp⟩

theorem listsHeld_iff_sample : ∃ s, exec (step 20) {} Config.inversion = some s ∧
    Always ListsHeld (step 20) {} Config.inversion := by
  obtain ⟨s, hrun, hfew⟩ : ∃ s, exec (step 20) {} Config.inversion = some s ∧
      Along (FewHeld 20) (step 20) {} Config.inversion := exists_exec (by decide +kernel)
  exact ⟨s, hrun, (listsHeld_iff hrun).mpr hfew⟩

end Traced

/-! ## A thread with 256 locks -/

namespace Config

/-- Thread 1 holds the locks at the addresses from 1 to `k`. -/
structure HoldsFirst (k : Nat) (s : Core) : Prop where
  inv : s.Inv 257
  ignoreLock : s.ignoreLock 1 = 0
  halt : s.haltOnError = false
  size : s.graph.size ≤ k
  length : (s.held 1).entries.length = k
  le : ∀ l ∈ (s.held 1).entries, ∀ p, l.mu = some p → p ≤ k

/-- It acquires the next one. -/
theorem HoldsFirst.acquire {k : Nat} {c : Config} (h : HoldsFirst k (c.core 257)) (hk : k < 257) :
    ∃ c', exec (step 257) c [⟨1, .beforeLock (k + 1), 1⟩, ⟨1, .inLock 0, 1⟩] = some c' ∧
      HoldsFirst (k + 1) (c'.core 257) := by
  have hn : ((c.core 257).held 1).n = k := (h.inv.valid 1).n_eq.trans h.length
  have room : ∀ g : Rep, g.size ≤ k + 1 → g.HasRoom :=
    fun g hg => Or.inr (by rw [vecMaxSize]; omega)
  obtain ⟨c₁, hc₁⟩ := step_returns h.inv ⟨1, .beforeLock (k + 1), 1⟩ h.halt
    (room _ (h.size.trans (Nat.le_succ k))) (by simp)
  have heffect := step_effect hc₁
  have hinv₁ := heffect.inv h.inv
  obtain ⟨id, refused, hlocked⟩ := heffect.locked h.inv h.ignoreLock (hn ▸ hk)
  have hself := hlocked.entered.self
  have hcalls : (c₁.calls 1)[0]? = some (k + 1, id) := by
    have hcalls := congrFun hlocked.calls 1
    simp only [Core.called, Function.update_self] at hcalls
    rw [show c₁.calls 1 = (c₁.core 257).calls 1 from rfl, hcalls]
    rfl
  have hne := hself.ne_invalid hinv₁.clean.toIndexed
  have hc₂ : step 257 c₁ ⟨1, .inLock 0, 1⟩ = some { c₁ with
      monitor := dlcDeadlockCheckInLock 257 1 (k + 1) id c₁.monitor } := by
    simp only [step, hcalls, if_neg hne]
  refine ⟨_, exec_cons.mpr ⟨c₁, hc₁, exec_cons.mpr ⟨_, hc₂, rfl⟩⟩, ?_⟩
  obtain ⟨hsize, hhalt⟩ := heffect.size_le h.inv
  have hentries : ((c₁.core 257).held 1).entries = ((c.core 257).held 1).entries :=
    hlocked.entries 1
  have absent : ∀ l ∈ ((c₁.core 257).held 1).entries, l.id ≠ id := by
    rintro l hl rfl
    obtain ⟨p, hmu, hissued⟩ := hinv₁.held 1 l hl
    have hle := h.le l (hentries ▸ hl) p hmu
    obtain hlive | hretired := hissued
    · rw [hlive.addr_inj hinv₁.clean.toIndexed hself] at hle
      exact Nat.not_succ_le_self k hle
    · exact hretired.not_live hinv₁.clean.toIndexed hself
  have hheld : ThreadHistory.updateLockHistoryInLock (k + 1) id ((c₁.core 257).held 1) = _ :=
    ThreadHistory.inLock_absent (hinv₁.valid 1) absent
  have hroom : ¬ ((c₁.core 257).held 1).entries.length = 257 := by
    rw [hentries, h.length]
    omega
  rw [if_neg hroom] at hheld
  have hcore : (core 257 { c₁ with
      monitor := dlcDeadlockCheckInLock 257 1 (k + 1) id c₁.monitor }).held 1 =
        ((c₁.core 257).held 1).withEntries 257
          (((c₁.core 257).held 1).entries ++ [⟨some (k + 1), 1, id⟩]) := by
    rw [← hheld, dlcDeadlockCheckInLock, core_setLocksHeld]
    simp only [Function.update_self]
    rfl
  have heffect₂ := step_effect hc₂
  refine ⟨heffect₂.inv hinv₁, ?_, ?_, ?_, ?_, ?_⟩
  · rw [dlcDeadlockCheckInLock, core_setLocksHeld]
    exact (congrFun hlocked.ignoreLock 1).trans h.ignoreLock
  · rw [dlcDeadlockCheckInLock, core_setLocksHeld]
    exact hhalt.trans h.halt
  · rw [dlcDeadlockCheckInLock, core_setLocksHeld]
    exact hsize.trans (Nat.succ_le_succ h.size)
  · rw [hcore]
    simp [hentries, h.length]
  · rw [hcore]
    intro l hl p hp
    simp only [SynchLocksHeld.entries_withEntries, List.mem_append, List.mem_singleton] at hl
    obtain hl | rfl := hl
    · exact (h.le l (hentries ▸ hl) p hp).trans (Nat.le_succ k)
    · obtain rfl : k + 1 = p := Option.some.inj hp
      exact Nat.le_refl _

theorem exists_holdsFirst (k : Nat) (hk : k ≤ 257) :
    ∃ es c, exec (step 257) {} es = some c ∧ HoldsFirst k (c.core 257) := by
  induction k with
  | zero =>
    have hnil : ((core 257 {}).held 1).entries = [] := List.take_zero
    exact ⟨[], {}, rfl, Core.inv_initial 257, rfl, rfl, Nat.le_refl 0, by rw [hnil]; rfl,
      by simp [hnil]⟩
  | succ k ih =>
    obtain ⟨es, c, hrun, h⟩ := ih (by omega)
    obtain ⟨c', hacquire, h'⟩ := h.acquire (by omega)
    exact ⟨_, c', exec_append.mpr ⟨c, hrun, hacquire⟩, h'⟩

/-- A thread with 256 locks tries a 257th one, with `MAX_LOCKS_PER_THREAD` of 257. -/
theorem manyLocks_not_listsHeld : ∃ es s, exec (Traced.step 257) {} es = some s ∧
    ¬ s.ListsHeld := by
  obtain ⟨es, c, hrun, h⟩ := exists_holdsFirst 256 (by decide)
  obtain ⟨attempts, htraced⟩ := Traced.exists_exec_traced (s := {}) hrun
  obtain ⟨hinv, hacc⟩ := Traced.exec_accounted htraced
  have hn : ((c.core 257).held 1).n = 256 := (h.inv.valid 1).n_eq.trans h.length
  obtain ⟨c', hc'⟩ := step_returns h.inv ⟨1, .beforeLock 257, 1⟩ h.halt
    (Or.inr (h.size.trans_lt (by decide))) nofun
  have hstep : Traced.step 257 ⟨c, attempts⟩ ⟨1, .beforeLock 257, 1⟩ = some
      ⟨c', attempts ++ (c.core 257).made 1 (.beforeLock 257) (c'.core 257)⟩ := by
    rw [Traced.step, hc', Option.map_some]
  refine ⟨_, _, exec_concat.mpr ⟨_, htraced, hstep⟩,
    Traced.not_listsHeld_of_step hinv hacc ?_ hstep⟩
  intro hfew
  have hlt : ((c.core 257).held 1).n < 2 ^ 8 :=
    hfew rfl h.ignoreLock (hn.trans_lt (by decide) : ((c.core 257).held 1).n < 257)
  omega

end Config
end CppGuard
