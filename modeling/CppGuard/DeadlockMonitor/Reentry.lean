import CppGuard.DeadlockMonitor.Progress

/-!
# Re-entry

The loop of `dlc_deadlock_check_before_lock` stops at the entry of the lock itself, but it
inserts an edge from every entry in front of it. A release moves the last entry to the
front, so these need not be the locks that were taken before.
-/
namespace CppGuard
open Relation Transition DeadlockMonitor

namespace Config
open CppGuard.Rep

/-- A call adds no edge, changes no rank and reports nothing. -/
def Transparent (m : DeadlockMonitor) (result : Option (GraphId × DeadlockMonitor)) : Prop :=
  ∃ id m', result = some (id, m') ∧
    (∀ u v, m'.deadlockGraph.Edge u v ↔ m.deadlockGraph.Edge u v) ∧
    (∀ i, m'.deadlockGraph.rank i = m.deadlockGraph.rank i) ∧
    m'.processedErrors = m.processedErrors ∧
    m'.potentialDeadlocksFound = m.potentialDeadlocksFound

/-- Every valid entry in front of that of `id` has an edge to `id`. -/
def PrecedingOrdered (g : Rep) (id : GraphId) (locks : List LockT) : Prop :=
  ∀ l ∈ locks.takeWhile (fun l => l.id ≠ id), g.ptr l.id ≠ none → g.hasEdge l.id id = true

instance (g : Rep) (id : GraphId) (locks : List LockT) : Decidable (PrecedingOrdered g id locks) :=
  inferInstanceAs (Decidable (∀ l ∈ locks.takeWhile (fun l => l.id ≠ id),
    g.ptr l.id ≠ none → g.hasEdge l.id id = true))

theorem hasEdge_iff_arc {g : Rep} (hg : g.Clean) {a b : GraphId} {p q : Addr} (ha : g.Live a p)
    (hb : g.Live b q) : g.hasEdge a b = true ↔ g.Arc a b := by
  simp only [hasEdge, ha.findNode hg.toIndexed, hb.findNode hg.toIndexed,
    ValidNodeSet.contains_eq, decide_eq_true_iff]
  exact ⟨fun h => ⟨⟨p, ha⟩, ⟨q, hb⟩, h⟩, fun h => h.2.2⟩

theorem precedingOrdered_iff {g : Rep} (hg : g.Clean) {id : GraphId} {mu : Addr}
    (hid : g.Live id mu) {locks : List LockT} (issued : ∀ l ∈ locks, ∃ p, g.Issued l.id p) :
    PrecedingOrdered g id locks ↔ ∀ a, Attempted g id locks a → g.Arc a id := by
  constructor
  · rintro h a ⟨⟨p, ha⟩, l, hl, rfl⟩
    exact (hasEdge_iff_arc hg ha hid).mp (h l hl (by simp [ha.ptr_eq hg.toIndexed]))
  · intro h l hl hptr
    obtain ⟨p, ha | ha⟩ := issued l ((List.takeWhile_prefix _).subset hl)
    · exact (hasEdge_iff_arc hg ha hid).mpr (h l.id ⟨⟨p, ha⟩, l, hl, rfl⟩)
    · exact absurd ha.ptr_eq hptr

variable {maxLocks now : Nat} {es : List Event} {c : Config} {t : ThreadId} {mu : Addr}
  {id : GraphId}

/-- Taking a known lock, held or not, is transparent if and only if the call is ignored or
every valid entry in front of that of the lock has an edge to it already. -/
theorem beforeLock_transparent_iff (hrun : exec (step maxLocks) {} es = some c)
    (hroom : (c.monitor.locksHeld maxLocks t).n < maxLocks)
    (hid : c.monitor.deadlockGraph.Live id mu) :
    Transparent c.monitor (dlcDeadlockCheckBeforeLock maxLocks now t mu c.monitor) ↔
      0 < (c.monitor.threadLocals t).ignoreCounterLock ∨
        PrecedingOrdered c.monitor.deadlockGraph id (c.monitor.locksHeld maxLocks t).entries := by
  have hinv := exec_inv hrun
  have hclean : c.monitor.deadlockGraph.Clean := hinv.clean
  have hissued : ∀ l ∈ (c.monitor.locksHeld maxLocks t).entries,
      ∃ p, c.monitor.deadlockGraph.Issued l.id p := hinv.issued t
  have hget := getId_live hclean.toIndexed hid maxLocks t
  obtain ⟨hids, hedge, hrank, harc⟩ :=
    hclean.updateStackTrace_arc id t (c.monitor.locksHeld maxLocks t)
  rw [precedingOrdered_iff hclean hid hissued]
  constructor
  · rintro ⟨id', m', hresult, hedge', -, herrors, -⟩
    have heffect : Core.Effect maxLocks (c.core maxLocks) t now (.beforeLock mu)
        ((c.called t mu (id', m')).core maxLocks) := beforeLock_effect hresult
    generalize hs' : (c.called t mu (id', m')).core maxLocks = s' at heffect
    cases heffect with
    | lockIgnored hignore => exact Or.inl hignore
    | lockFull _ hfull => exact absurd hroom (Nat.not_lt.mpr hfull)
    | @lock _ id₁ g g' _ _ hid₁ hcheck =>
      cases hid₁.symm.trans hget
      have hentered := hinv.entered hid₁ hcheck
      obtain rfl : m'.deadlockGraph = g' := congrArg Core.graph hs'
      refine Or.inr fun a ha => ?_
      obtain ⟨-, -, hnew⟩ := hentered.accepted rfl a ha
      exact ⟨ha.1, ⟨mu, hid⟩, (hedge' _ _).mp hnew⟩
    | @lockRefused _ id₁ g g' other report _ _ hid₁ hcheck =>
      have : m'.processedErrors = c.monitor.processedErrors ++ [(report, true)] :=
        congrArg Core.errors hs'
      rw [herrors] at this
      simp at this
  · intro h
    obtain hignore | hordered := h
    · refine ⟨_, _, by rw [dlcDeadlockCheckBeforeLock]; simp only [hignore, if_true]; rfl, ?_⟩
      exact ⟨fun _ _ => Iff.rfl, fun _ => rfl, rfl, rfl⟩
    · have hcheck := checkHeldLocks_of_arcs hids.clean ((hids.live id mu).mpr hid)
        (c.monitor.locksHeld maxLocks t).entries
        (fun l hl => (hissued l hl).imp fun p hp => hids.keeps.issued l.id p hp)
        fun a ha => (harc a id).mpr <| hordered a <|
          (attempted_congr (fun b _ => exists_congr fun p => hids.live b p) a).mp ha
      obtain ⟨⟨id', m'⟩, hresult⟩ := beforeLock_returns maxLocks now t hget hcheck
        (fun hfull => absurd hroom (Nat.not_lt.mpr hfull)) (by simp)
      have heffect : Core.Effect maxLocks (c.core maxLocks) t now (.beforeLock mu)
          ((c.called t mu (id', m')).core maxLocks) := beforeLock_effect hresult
      refine ⟨id', m', hresult, ?_⟩
      generalize hs' : (c.called t mu (id', m')).core maxLocks = s' at heffect
      cases heffect with
      | lockIgnored hignore =>
        have hgraph : m'.deadlockGraph = c.monitor.deadlockGraph := congrArg Core.graph hs'
        rw [hgraph]
        exact ⟨fun _ _ => Iff.rfl, fun _ => rfl, congrArg Core.errors hs',
          congrArg Core.potentialDeadlocksFound hs'⟩
      | lockFull _ hfull => exact absurd hroom (Nat.not_lt.mpr hfull)
      | @lock _ id₁ g g' _ _ hid₁ hcheck₁ =>
        cases hid₁.symm.trans hget
        cases hcheck₁.symm.trans hcheck
        have hgraph := congrArg Core.graph hs'
        change m'.deadlockGraph = _ at hgraph
        rw [hgraph]
        exact ⟨hedge, hrank, congrArg Core.errors hs', congrArg Core.potentialDeadlocksFound hs'⟩
      | @lockRefused _ id₁ g g' other report _ _ hid₁ hcheck₁ =>
        cases hid₁.symm.trans hget
        cases hcheck₁.symm.trans hcheck

/-- The locks 16, 32 and 48 are taken in this order, and 16 is released: 48 is in front of
32 then. -/
def unordered : List Event :=
  [⟨1, .beforeLock 16, 1⟩, ⟨1, .inLock 0, 1⟩, ⟨1, .beforeLock 32, 1⟩, ⟨1, .inLock 0, 1⟩,
   ⟨1, .beforeLock 48, 1⟩, ⟨1, .inLock 0, 1⟩, ⟨1, .afterLock 16, 1⟩]

theorem exec_unordered : ∃ c, exec (step 20) {} unordered = some c ∧
    (c.monitor.locksHeld 20 1).n < 20 ∧ c.monitor.deadlockGraph.Live (makeId 1 1) 32 ∧
    (∃ l ∈ (c.monitor.locksHeld 20 1).entries, l.id = makeId 1 1) ∧
    c.monitor.potentialDeadlocksFound = false ∧
    (dlcDeadlockCheckBeforeLock 20 1 1 32 c.monitor).map (·.2.potentialDeadlocksFound) =
      some true := by
  have hcomputed : ∃ c, exec (step 20) {} unordered = some c ∧
      (c.monitor.locksHeld 20 1).n < 20 ∧
      (c.monitor.deadlockGraph.node 1).maskedPtr = some 32 ∧
      makeId 1 1 = c.monitor.deadlockGraph.idOf 1 ∧
      (∃ l ∈ (c.monitor.locksHeld 20 1).entries, l.id = makeId 1 1) ∧
      c.monitor.potentialDeadlocksFound = false ∧
      (dlcDeadlockCheckBeforeLock 20 1 1 32 c.monitor).map (·.2.potentialDeadlocksFound) =
        some true := exists_exec (by decide +kernel)
  obtain ⟨c, hrun, hroom, hptr, hid, hheld, hflag, hfound⟩ := hcomputed
  exact ⟨c, hrun, hroom, ⟨1, hptr, hid⟩, hheld, hflag, hfound⟩

theorem reenter_not_transparent : ¬ ∀ maxLocks now es c t mu id,
    exec (step maxLocks) {} es = some c → (c.monitor.locksHeld maxLocks t).n < maxLocks →
    c.monitor.deadlockGraph.Live id mu →
    (∃ l ∈ (c.monitor.locksHeld maxLocks t).entries, l.id = id) →
    Transparent c.monitor (dlcDeadlockCheckBeforeLock maxLocks now t mu c.monitor) := by
  intro h
  obtain ⟨c, hrun, hroom, hid, hheld, hflag, hfound⟩ := exec_unordered
  obtain ⟨id, m', hresult, -, -, -, hsame⟩ := h 20 1 unordered c 1 32 _ hrun hroom hid hheld
  rw [hresult, Option.map_some, hsame, hflag] at hfound
  cases hfound

theorem beforeLock_transparent_iff_sample : ∃ c, exec (step 20) {} unordered = some c ∧
    (Transparent c.monitor (dlcDeadlockCheckBeforeLock 20 1 1 32 c.monitor) ↔
      0 < (c.monitor.threadLocals 1).ignoreCounterLock ∨ PrecedingOrdered
        c.monitor.deadlockGraph (makeId 1 1) (c.monitor.locksHeld 20 1).entries) := by
  obtain ⟨c, hrun, hroom, hid, -⟩ := exec_unordered
  exact ⟨c, hrun, beforeLock_transparent_iff hrun hroom hid⟩

end Config
end CppGuard
