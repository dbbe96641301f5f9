import CppGuard.CriticalSection.Ownership
import Mathlib.Data.Fin.VecNotation

/-!
# Circular waits are reported

Until the first report, a thread that waits for a lock that it does not own has an arc to it
from every lock that it owns. Threads that wait for each other in a circle would make a
cycle of arcs, but the graph has none.
-/
namespace CppGuard
open CountedList Relation Transition ThreadHistory DeadlockMonitor

/-- A circle of related elements is a cycle of the relation. -/
theorem transGen_of_circle {α : Type*} {R : α → α → Prop} {n : Nat} (x : Fin (n + 1) → α)
    (h : ∀ i, R (x i) (x (i + 1))) : TransGen R (x 0) (x 0) := by
  have hpath : ∀ i, ReflTransGen R (x 0) (x i) := by
    intro i
    induction i using Fin.induction with
    | zero => exact .refl
    | succ i ih => exact ih.tail (Fin.coeSucc_eq_succ ▸ h i.castSucc)
  have hlast := h (Fin.last n)
  rw [Fin.last_add_one] at hlast
  exact TransGen.tail' (hpath (Fin.last n)) hlast

namespace World

/-- The thread has called the hook for the lock and waits in `EnterCriticalSection`. -/
def Blocked (w : World) (t : ThreadId) (mu : Addr) : Prop :=
  ∃ id, w.position t = .entering mu id ∧ (w.mutex mu).acquire t = none

/-- Until the first report, a thread that waits for a lock has the arcs to it. -/
def Ordered (maxLocks : Nat) (w : World) (held : ThreadId → List (Addr × Nat)) : Prop :=
  w.config.monitor.potentialDeadlocksFound = false → ∀ t mu id, w.position t = .entering mu id →
    mu ∉ keys (held t) → ∀ l ∈ (w.config.monitor.locksHeld maxLocks t).entries,
      w.config.monitor.deadlockGraph.Arc l.id id

namespace Ordered

variable {maxLocks now : Nat} {w w' : World} {held held' : ThreadId → List (Addr × Nat)}
  {t : ThreadId} {hook : Hook} {action : Action} {c : Config} {p : Position} {mu : Addr}

/-- One thread calls a hook; arcs stay as long as their locks are used. -/
theorem hooked (h : Owning maxLocks w held) (ho : w.Ordered maxLocks held)
    (hstep : w.config.step maxLocks ⟨t, hook, now⟩ = some c)
    (hunused : ∀ q, hook = .deleteLock q → w.Unused held q)
    (hheld : ∀ u, u ≠ t → held' u = held u)
    (own : c.monitor.potentialDeadlocksFound = false → ∀ mu id, p = .entering mu id →
      mu ∉ keys (held' t) → ∀ l ∈ (c.monitor.locksHeld maxLocks t).entries,
        c.monitor.deadlockGraph.Arc l.id id) : (w.hooked t p c).Ordered maxLocks held' := by
  intro hfound u mu id hu hmu l hl
  have heffect := Config.step_effect hstep
  by_cases hut : u = t
  · subst hut
    have hp : p = .entering mu id := by simpa [World.hooked] using hu
    exact own hfound mu id hp hmu l hl
  · have hframe : c.monitor.locksHeld maxLocks u = w.config.monitor.locksHeld maxLocks u :=
      (heffect.frame hut).1
    have hnot : w.config.monitor.potentialDeadlocksFound = false := by
      cases hflag : w.config.monitor.potentialDeadlocksFound with
      | false => rfl
      | true => exact (heffect.flag_mono hflag).symm.trans hfound
    have hu' : w.position u = .entering mu id := by simpa [World.hooked, hut] using hu
    have hl' : l ∈ (w.config.monitor.locksHeld maxLocks u).entries := hframe ▸ hl
    rw [hheld u hut] at hmu
    obtain ⟨x, hx⟩ := (h.agrees u).registered mu (by rw [hu', Position.acquiring])
    obtain rfl : id = x := by grind [Position.pending]
    obtain ⟨⟨q, n⟩, hq, -, -, hlive⟩ := forall₂_mem_left (h.holds u) hl'
    exact (heffect.evolves h.inv).arc l.id id q mu hlive (h.pending u mu id hx).2
      (ho hnot u mu id hu' hmu l hl')
      (fun heq => (hunused q heq u).1 (mem_keys.mpr ⟨n, hq⟩))
      (fun heq => (hunused mu heq u).2 id hx)

/-- One thread calls the operating system. -/
theorem locked {m : RecursiveMutex ThreadId} (ho : w.Ordered maxLocks held)
    (hp : ∀ q id, p ≠ .entering q id) : (w.locked t mu p m).Ordered maxLocks held := by
  intro hfound u q id hu
  by_cases hut : u = t
  · subst hut
    exact absurd (by simpa [World.locked] using hu) (hp q id)
  · exact ho hfound u q id (by simpa [World.locked, hut] using hu)

/-- The before-hook inserts the arcs, unless it reports a deadlock. -/
theorem enter (h : Owning maxLocks w held) (hroom : ((w.core maxLocks).held t).n < maxLocks)
    (hstep : w.config.step maxLocks ⟨t, .beforeLock mu, now⟩ = some c)
    (hfound : c.monitor.potentialDeadlocksFound = false) (hmu : mu ∉ keys (held t)) :
    ∀ l ∈ (c.monitor.locksHeld maxLocks t).entries,
      c.monitor.deadlockGraph.Arc l.id (c.lastId t) := by
  intro l hl
  obtain ⟨id, refused, hlocked⟩ := (Config.step_effect hstep).locked h.inv (h.ignoreLock t) hroom
  have hentered := hlocked.entered
  have hclean := hentered.keeps.clean
  rw [Config.lastId_of_called hlocked.calls]
  have hentries : ∀ l ∈ ((w.core maxLocks).held t).entries, ∃ q ∈ keys (held t),
      (w.core maxLocks).graph.Live l.id q := by
    intro l hl
    obtain ⟨⟨q, n⟩, hq, -, -, hlive⟩ := forall₂_mem_left (h.holds t) hl
    exact ⟨q, mem_keys.mpr ⟨n, hq⟩, hlive⟩
  have hne : ∀ l ∈ ((w.core maxLocks).held t).entries, l.id ≠ id := by
    rintro l hl rfl
    obtain ⟨q, hq, hlive⟩ := hentries l hl
    have hself := (hentered.live _ q).mpr (Or.inl hlive)
    exact hmu (hself.addr_inj hclean.toIndexed hentered.self ▸ hq)
  have hl' : l ∈ ((w.core maxLocks).held t).entries := hlocked.entries t ▸ hl
  obtain ⟨q, -, hlive⟩ := hentries l hl'
  obtain ⟨hrefused, -⟩ | ⟨-, hreported, -⟩ := hlocked.outcome
  · exact hentered.accepted hrefused l.id
      ((attempted_iff_of_forall_ne hne l.id).mpr ⟨⟨q, hlive⟩, l, hl', rfl⟩)
  · exact absurd (hreported.symm.trans hfound) (by decide)

theorem step (h : Owning maxLocks w held) (ho : w.Ordered maxLocks held)
    (hdisciplined : w.Disciplined maxLocks ⟨t, action, now⟩)
    (hmove : Moves maxLocks w t now action w') :
    w'.Ordered maxLocks (w.record maxLocks t action held) := by
  have hacquired : ∀ mu id q x, acquired mu id ≠ .entering q x := by
    intro mu id q x
    unfold acquired
    split_ifs <;> nofun
  cases hmove with
  | @enter mu c _ hstep =>
    refine hooked h ho hstep (by simp) (fun _ _ => rfl) fun hfound q id hp hq => ?_
    obtain ⟨rfl, rfl⟩ := Position.entering.inj hp
    exact enter h hdisciplined.room hstep hfound hq
  | tryEnter _ hstep => exact hooked h ho hstep (by simp) (fun _ _ => rfl) nofun
  | leave _ hstep =>
    exact hooked h ho hstep (by simp) (fun u hu => Function.update_of_ne hu ..) nofun
  | @delete mu c _ hstep =>
    refine hooked h ho hstep (fun q hq => ?_) (fun _ _ => rfl) nofun
    exact Hook.deleteLock.inj hq ▸ h.unused hdisciplined.unused rfl
  | enterReturns => exact ho.locked (hacquired _ _)
  | tryEnterReturns => exact ho.locked (hacquired _ _)
  | tryEnterFails => exact ho.locked nofun
  | inLock hentered hstep =>
    rw [record_inLock hentered]
    exact hooked h ho hstep (by simp) (fun u hu => Function.update_of_ne hu ..) nofun
  | leaveReturns => exact ho.locked nofun

end Ordered

section Main

variable {maxLocks : Nat} {options : RuntimeOptions} {w : World} {as : List Act}

theorem exec_ordered (hrun : exec (step maxLocks) (start options) as = some w)
    (hdisciplined : Along (Disciplined maxLocks) (step maxLocks) (start options) as) :
    ∃ held, Owning maxLocks w held ∧ w.Ordered maxLocks held := by
  refine exec_invariant_along (P := Disciplined maxLocks)
    (I := fun w => ∃ held, Owning maxLocks w held ∧ w.Ordered maxLocks held)
    ?_ ⟨_, .start maxLocks options, nofun⟩ hrun hdisciplined
  rintro w a w' ⟨held, h, ho⟩ ha hstep
  exact ⟨_, h.step ha (step_moves hstep), Ordered.step h ho ha (step_moves hstep)⟩

/-- Where two or more threads each own a lock and wait for the lock of the next one, a deadlock
was reported before. -/
theorem circularWait_reported (hrun : exec (step maxLocks) (start options) as = some w)
    (hdisciplined : Along (Disciplined maxLocks) (step maxLocks) (start options) as)
    {k : Nat} (thread : Fin (k + 2) → ThreadId) (lock : Fin (k + 2) → Addr)
    (hholds : ∀ i, 0 < w.depth (thread i) (lock i))
    (hblocked : ∀ i, w.Blocked (thread i) (lock (i + 1))) :
    w.config.monitor.potentialDeadlocksFound = true := by
  obtain ⟨held, h, ho⟩ := exec_ordered hrun hdisciplined
  by_contra hnot
  have hfound : w.config.monitor.potentialDeadlocksFound = false := by simpa using hnot
  have hlock : ∀ i, ∃ l ∈ (w.config.monitor.locksHeld maxLocks (thread i)).entries,
      w.config.monitor.deadlockGraph.Live l.id (lock i) := by
    intro i
    obtain ⟨id, hentering, -⟩ := hblocked i
    obtain ⟨f, hf, hsum⟩ := (h.agrees (thread i)).counts
    have hpos : 0 < f (lock i) := by
      have hdepth := hsum (lock i)
      rw [hentering, Position.unrecorded] at hdepth
      exact Nat.lt_of_lt_of_eq (hholds i) hdepth.symm
    obtain ⟨n, hn⟩ := mem_keys.mp ((hf.mem_keys (lock i)).mpr hpos)
    obtain ⟨l, hl, -, -, hlive⟩ := forall₂_mem_right (h.holds (thread i)) hn
    exact ⟨l, hl, hlive⟩
  choose l hl hlive using hlock
  refine h.inv.clean.acyclic _ (transGen_of_circle (fun i => (l i).id) fun i => ?_)
  obtain ⟨id, hentering, hwaits⟩ := hblocked i
  obtain ⟨f, hf, hsum⟩ := (h.agrees (thread i)).counts
  have hdepth : w.depth (thread i) (lock (i + 1)) = 0 := RecursiveMutex.depth_of_blocked hwaits
  have habsent : lock (i + 1) ∉ keys (held (thread i)) := by
    rw [hf.mem_keys]
    have := hsum (lock (i + 1))
    omega
  obtain ⟨x, hx⟩ := (h.agrees (thread i)).registered (lock (i + 1)) (by
    rw [hentering, Position.acquiring])
  obtain rfl : id = x := by grind [Position.pending]
  obtain rfl : (l (i + 1)).id = id :=
    (hlive (i + 1)).id_inj h.inv.clean.toIndexed (h.pending _ _ _ hx).2
  exact ho hfound (thread i) _ _ hentering habsent (l i) (hl i)

end Main

instance (w : World) (t : ThreadId) (mu : Addr) : Decidable (w.Blocked t mu) :=
  match h : w.position t with
  | .entering q id => decidable_of_iff (q = mu ∧ (w.mutex mu).acquire t = none) (by
      simp [Blocked, h])
  | .idle | .trying _ _ | .entered _ _ | .leaving _ => isFalse (by simp [Blocked, h])

/-- Two threads take two locks in different orders. -/
def crossingEnters : List Act :=
  [⟨1, .enter 16, 1⟩, ⟨1, .enterReturns, 1⟩, ⟨1, .inLock, 1⟩, ⟨2, .enter 32, 1⟩,
   ⟨2, .enterReturns, 1⟩, ⟨2, .inLock, 1⟩, ⟨1, .enter 32, 1⟩, ⟨2, .enter 16, 1⟩]

theorem circularWait_reported_sample : ∃ w,
    exec (step 20) (start {}) crossingEnters = some w ∧
      w.config.monitor.potentialDeadlocksFound = true := by
  have hcomputed : ∃ w, exec (step 20) (start {}) crossingEnters = some w ∧
      ∀ i : Fin 2, 0 < w.depth (![1, 2] i) (![16, 32] i) ∧
        w.Blocked (![1, 2] i) (![16, 32] (i + 1)) := exists_exec (by decide +kernel)
  obtain ⟨w, hrun, hwaits⟩ := hcomputed
  have hdisciplined : Along (Disciplined 20) (step 20) (start {}) crossingEnters :=
    along_disciplined (by simp [crossingEnters]) (by decide +kernel)
  exact ⟨w, hrun, circularWait_reported hrun hdisciplined ![1, 2] ![16, 32]
    (fun i => (hwaits i).1) fun i => (hwaits i).2⟩

end World
end CppGuard
