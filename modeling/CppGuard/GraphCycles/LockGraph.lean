import CppGuard.GraphCycles.Runs

/-!
# The graph as a relation between live ids

The deadlock monitor inserts edges between live ids only, so on its graphs (`Clean`) every
edge joins two registered nodes. There the operations can be described by the live ids and
the relation `Arc` between them, without nodes, ranks or versions.
-/
namespace CppGuard
namespace Rep
open Relation

/-- Only registered nodes have edges. -/
structure Clean (r : Rep) : Prop extends Inv r where
  registered : ∀ u v, r.Edge u v →
    (∃ p, (r.node u).maskedPtr = some p) ∧ ∃ q, (r.node v).maskedPtr = some q

/-- An edge between two live ids. -/
def Arc (r : Rep) (a b : GraphId) : Prop :=
  (∃ p, r.Live a p) ∧ (∃ q, r.Live b q) ∧ r.Edge (nodeIndex a) (nodeIndex b)

theorem clean_empty : ({} : Rep).Clean := by
  refine ⟨inv_empty, fun u v h => ?_⟩
  exact absurd h.left_lt (Nat.not_lt_zero u)

theorem not_live_empty (id : GraphId) (p : Addr) : ¬ ({} : Rep).Live id p := by
  rintro ⟨i, hi, -⟩
  have hnode : ({} : Rep).node i = default := node_of_size_le (Nat.zero_le i)
  rw [hnode] at hi
  cases hi

/-- Edges of nodes are arcs of their ids. -/
theorem Clean.arc_idOf {r : Rep} (hr : r.Clean) {u v : Nat} (h : r.Edge u v) :
    r.Arc (r.idOf u) (r.idOf v) := by
  obtain ⟨⟨p, hp⟩, q, hq⟩ := hr.registered u v h
  refine ⟨⟨p, u, hp, rfl⟩, ⟨q, v, hq, rfl⟩, ?_⟩
  rwa [(hr.idOf_spec (lt_size_of_maskedPtr hp)).1, (hr.idOf_spec (lt_size_of_maskedPtr hq)).1]

theorem Clean.path_iff {r : Rep} (hr : r.Clean) {a b : GraphId} {p q : Addr} (ha : r.Live a p)
    (hb : r.Live b q) :
    ReflTransGen r.Edge (nodeIndex a) (nodeIndex b) ↔ ReflTransGen r.Arc a b := by
  constructor
  · intro h
    have hlift : ReflTransGen r.Arc (r.idOf (nodeIndex a)) (r.idOf (nodeIndex b)) :=
      ReflTransGen.lift r.idOf (fun _ _ huv => hr.arc_idOf huv) _ _ h
    rwa [← (ha.at_index hr.toIndexed).2, ← (hb.at_index hr.toIndexed).2] at hlift
  · exact ReflTransGen.lift nodeIndex (fun _ _ huv => huv.2.2) _ _

/-- The lock order that the graph records is acyclic. -/
theorem Clean.acyclic {r : Rep} (hr : r.Clean) (a : GraphId) : ¬ TransGen r.Arc a a := by
  intro h
  exact hr.toOrdered.acyclic (nodeIndex a) (TransGen.lift nodeIndex (fun _ _ huv => huv.2.2) _ _ h)

/-- `r'` has the ids and the snapshots of `r`. -/
structure SameIds (r r' : Rep) : Prop where
  clean : r'.Clean
  live : ∀ a p, r'.Live a p ↔ r.Live a p
  retired : ∀ a, r'.Retired a ↔ r.Retired a

theorem SameIds.refl {r : Rep} (hr : r.Clean) : SameIds r r :=
  ⟨hr, fun _ _ => Iff.rfl, fun _ => Iff.rfl⟩

theorem SameIds.trans {r r' r'' : Rep} (h : SameIds r r') (h' : SameIds r' r'') : SameIds r r'' :=
  ⟨h'.clean, fun a p => (h'.live a p).trans (h.live a p),
    fun a => (h'.retired a).trans (h.retired a)⟩

/-! ## `InsertEdge` -/

/-- An edge between live ids is inserted, or refused because of a path the other way. -/
theorem Clean.insertEdge_arc {r : Rep} (hr : r.Clean) {a b : GraphId} {p q : Addr}
    (ha : r.Live a p) (hb : r.Live b q) :
    ∃ ok r', r.insertEdge a b = some (ok, r') ∧ SameIds r r' ∧ SameIdent r r' ∧
      (ok = true → ¬ ReflTransGen r.Arc b a ∧
        ∀ x y, r'.Arc x y ↔ r.Arc x y ∨ x = a ∧ y = b) ∧
      (ok = false → ReflTransGen r.Arc b a ∧ ∀ x y, r'.Arc x y ↔ r.Arc x y) := by
  have hia := (ha.at_index hr.toIndexed)
  have hib := (hb.at_index hr.toIndexed)
  obtain ⟨r', h, ho, hadd, hno⟩ | ⟨r', h, hsame, hpath⟩ :=
    insertEdge_returns hr.toOrdered (ha.findNode hr.toIndexed) (hb.findNode hr.toIndexed)
  · have hindex := hadd.sameIndex
    have hclean : r'.Clean := by
      refine ⟨⟨ho, hindex.indexed hr.toIndexed⟩, fun u v huv => ?_⟩
      simp only [hindex.maskedPtr]
      obtain huv | ⟨rfl, rfl⟩ := (hadd.edge u v).mp huv
      · exact hr.registered u v huv
      · exact ⟨⟨p, hia.1⟩, q, hib.1⟩
    refine ⟨true, r', h, ⟨hclean, hindex.live, hindex.retired⟩, hadd.toSameIdent, fun _ => ?_,
      by simp⟩
    refine ⟨fun hpath => hno ((hr.path_iff hb ha).mpr hpath), fun x y => ?_⟩
    simp only [Arc, hindex.live, hadd.edge]
    constructor
    · rintro ⟨hx, hy, hxy | ⟨hxa, hyb⟩⟩
      · exact Or.inl ⟨hx, hy, hxy⟩
      · obtain ⟨p', hx⟩ := hx
        obtain ⟨q', hy⟩ := hy
        rw [(hx.at_index hr.toIndexed).2, (hy.at_index hr.toIndexed).2, hxa, hyb]
        exact Or.inr ⟨hia.2.symm, hib.2.symm⟩
    · rintro (⟨hx, hy, hxy⟩ | ⟨rfl, rfl⟩)
      · exact ⟨hx, hy, Or.inl hxy⟩
      · exact ⟨⟨p, ha⟩, ⟨q, hb⟩, Or.inr ⟨rfl, rfl⟩⟩
  · have hindex := hsame.sameIndex
    have hclean : r'.Clean := by
      refine ⟨hsame.inv hr.toInv, fun u v huv => ?_⟩
      simp only [hindex.maskedPtr]
      exact hr.registered u v ((hsame.edge u v).mp huv)
    refine ⟨false, r', h, ⟨hclean, hindex.live, hindex.retired⟩, hsame.toSameIdent, by simp,
      fun _ => ⟨(hr.path_iff hb ha).mp hpath, fun x y => ?_⟩⟩
    simp only [Arc, hindex.live, hsame.edge]

theorem Clean.insertEdge_of_arc {r : Rep} (hr : r.Clean) {a b : GraphId} (h : r.Arc a b) :
    r.insertEdge a b = some (true, r) := by
  obtain ⟨⟨p, ha⟩, ⟨q, hb⟩, hab⟩ := h
  exact insertEdge_of_edge hr.toOrdered (ha.findNode hr.toIndexed) (hb.findNode hr.toIndexed) hab

/-! ## `GetId`, `RemoveNode` and `UpdateStackTrace` -/

/-- What `GetId` does: `p` is live afterwards, and nothing else changes. -/
structure GotId (p : Addr) (id : GraphId) (r r' : Rep) : Prop where
  clean : r'.Clean
  self : r'.Live id p
  live : ∀ a q, r'.Live a q ↔ r.Live a q ∨ a = id ∧ q = p
  retired : ∀ a, r.Retired a → r'.Retired a
  arc : ∀ a b, r'.Arc a b ↔ r.Arc a b
  edge : ∀ u v, r'.Edge u v ↔ r.Edge u v
  snapshot : r' = r ∨ (∀ i, i ≠ nodeIndex id → (r'.node i).snapshot = (r.node i).snapshot) ∧
    (r'.node (nodeIndex id)).priority = 0 ∧ ∀ a, ¬ r.Live a p

theorem Clean.getId_arc {r r' : Rep} (hr : r.Clean) {maxLocks : Nat} {thread : ThreadId}
    {p : Addr} {id : GraphId} (h : r.getId maxLocks thread p = some (id, r')) :
    GotId p id r r' := by
  by_cases hp : ∃ a, r.Live a p
  · obtain ⟨a, ha⟩ := hp
    cases (getId_live hr.toIndexed ha maxLocks thread).symm.trans h
    refine ⟨hr, ha, fun b q => ?_, fun _ h => h, fun _ _ => Iff.rfl, fun _ _ => Iff.rfl,
      Or.inl rfl⟩
    constructor
    · exact Or.inl
    · rintro (hb | ⟨rfl, rfl⟩)
      · exact hb
      · exact ha
  · obtain ⟨hnone, _⟩ | ⟨a, r'', hsome, hreg⟩ :=
      getId_fresh hr.toInv (not_exists.mp hp) maxLocks thread
    · cases hnone.symm.trans h
    · cases hsome.symm.trans h
      have hclean : r'.Clean := by
        refine ⟨hreg.inv, fun u v huv => ?_⟩
        have hlive : ∀ i, (∃ q, (r.node i).maskedPtr = some q) →
            ∃ q, (r'.node i).maskedPtr = some q := by
          rintro i ⟨q, hq⟩
          have hl := (hreg.live (r.idOf i) q).mpr (Or.inl ⟨i, hq, rfl⟩)
          have hindex := (hr.idOf_spec (lt_size_of_maskedPtr hq)).1
          exact ⟨q, hindex ▸ (hl.at_index hreg.inv.toIndexed).1⟩
        obtain ⟨hu, hv⟩ := hr.registered u v ((hreg.outSet u v).mp huv)
        exact ⟨hlive u hu, hlive v hv⟩
      have hself : r'.Live id p := (hreg.live id p).mpr (Or.inr ⟨rfl, rfl⟩)
      refine ⟨hclean, hself, hreg.live, hreg.retired, fun a b => ?_, hreg.outSet,
        Or.inr ⟨hreg.snapshot, hreg.priority, not_exists.mp hp⟩⟩
      constructor
      · rintro ⟨⟨p', ha⟩, ⟨q', hb⟩, hab⟩
        have hedge := (hreg.outSet _ _).mp hab
        have harc := hr.arc_idOf hedge
        have old : ∀ c s, r'.Live c s → (∃ s', (r.node (nodeIndex c)).maskedPtr = some s') →
            c = r.idOf (nodeIndex c) := by
          rintro c s hc ⟨s', hs'⟩
          obtain hc | ⟨rfl, rfl⟩ := (hreg.live c s).mp hc
          · exact (hc.at_index hr.toIndexed).2
          · have hl := (hreg.live (r.idOf (nodeIndex c)) s').mpr (Or.inl ⟨_, hs', rfl⟩)
            have hindex := (hr.idOf_spec (lt_size_of_maskedPtr hs')).1
            have hmasked := (hl.at_index hreg.inv.toIndexed).1
            rw [hindex] at hmasked
            cases hmasked.symm.trans (hc.at_index hreg.inv.toIndexed).1
            exact absurd ⟨_, _, hs', rfl⟩ hp
        obtain ⟨hu, hv⟩ := hr.registered _ _ hedge
        rwa [← old a p' ha hu, ← old b q' hb hv] at harc
      · rintro ⟨⟨p', ha⟩, ⟨q', hb⟩, hab⟩
        exact ⟨⟨p', (hreg.live a p').mpr (Or.inl ha)⟩, ⟨q', (hreg.live b q').mpr (Or.inl hb)⟩,
          (hreg.outSet _ _).mpr hab⟩

/-- What `RemoveNode` does: the id of `p` is retired, with its arcs. -/
structure RemovedAddr (p : Addr) (r r' : Rep) : Prop where
  clean : r'.Clean
  live : ∀ a q, r'.Live a q ↔ r.Live a q ∧ q ≠ p
  retired : ∀ a, r.Retired a → r'.Retired a
  retired_self : ∀ a, r.Live a p → r'.Retired a
  arc : ∀ a b, r'.Arc a b ↔ r.Arc a b ∧ ¬ r.Live a p ∧ ¬ r.Live b p
  edge : ∀ u v, r'.Edge u v → r.Edge u v
  snapshot : ∀ i, (r'.node i).snapshot = (r.node i).snapshot

theorem Clean.removeNode_arc {r : Rep} (hr : r.Clean) (p : Addr) :
    ∃ r', r.removeNode p = some r' ∧ RemovedAddr p r r' := by
  by_cases hp : ∃ a, r.Live a p
  · obtain ⟨c, hc⟩ := hp
    obtain ⟨r', h, hrem⟩ := removeNode_present hr.toInv hc
    have hself : ∀ a q, r.Live a q → (a ≠ c ↔ q ≠ p) := by
      intro a q ha
      constructor
      · rintro hne rfl
        exact hne (ha.id_inj hr.toIndexed hc)
      · rintro hne rfl
        exact hne (ha.addr_inj hr.toIndexed hc)
    have hlive : ∀ a q, r'.Live a q ↔ r.Live a q ∧ q ≠ p := fun a q =>
      (hrem.live a q).trans (and_congr_right fun ha => hself a q ha)
    have hindex : ∀ a q, r.Live a q → (nodeIndex a ≠ nodeIndex c ↔ ¬ r.Live a p) := by
      intro a q ha
      constructor
      · intro hne ha'
        exact hne (by rw [ha'.id_inj hr.toIndexed hc])
      · intro hno heq
        apply hno
        rw [(ha.at_index hr.toIndexed).2, heq, ← (hc.at_index hr.toIndexed).2]
        exact hc
    refine ⟨r', h, ⟨⟨hrem.inv, fun u v huv => ?_⟩, hlive, hrem.retired, fun a ha => ?_,
      fun a b => ?_, fun u v huv => ((hrem.outSet u v).mp huv).1, hrem.snapshot⟩⟩
    · obtain ⟨huv, hu, hv⟩ := (hrem.outSet u v).mp huv
      have keep : ∀ i, i ≠ nodeIndex c → (∃ q, (r.node i).maskedPtr = some q) →
          ∃ q, (r'.node i).maskedPtr = some q := by
        rintro i hi ⟨q, hq⟩
        have hid := (hr.idOf_spec (lt_size_of_maskedPtr hq)).1
        have hl := (hrem.live (r.idOf i) q).mpr ⟨⟨i, hq, rfl⟩, fun heq => hi (by rw [← heq, hid])⟩
        exact ⟨q, hid ▸ (hl.at_index hrem.inv.toIndexed).1⟩
      obtain ⟨hpu, hpv⟩ := hr.registered u v huv
      exact ⟨keep u hu hpu, keep v hv hpv⟩
    · rw [ha.id_inj hr.toIndexed hc]
      exact hrem.retired_self
    · simp only [Arc, hlive, Edge, hrem.outSet]
      constructor
      · rintro ⟨⟨q, ha, _⟩, ⟨s, hb, _⟩, hab, hia, hib⟩
        exact ⟨⟨⟨q, ha⟩, ⟨s, hb⟩, hab⟩, (hindex a q ha).mp hia, (hindex b s hb).mp hib⟩
      · rintro ⟨⟨⟨q, ha⟩, ⟨s, hb⟩, hab⟩, hna, hnb⟩
        exact ⟨⟨q, ha, fun h => hna (h ▸ ha)⟩, ⟨s, hb, fun h => hnb (h ▸ hb)⟩, hab,
          (hindex a q ha).mpr hna, (hindex b s hb).mpr hnb⟩
  · have absent := not_exists.mp hp
    refine ⟨r, removeNode_absent hr.toIndexed absent, ⟨hr, fun a q => ?_, fun _ h => h,
      fun a ha => absurd ha (absent a), fun a b => ?_, fun _ _ h => h, fun _ => rfl⟩⟩
    · refine ⟨fun ha => ⟨ha, ?_⟩, And.left⟩
      rintro rfl
      exact absent a ha
    · exact ⟨fun h => ⟨h, absent a, absent b⟩, And.left⟩

theorem Clean.removed {r r' : Rep} (hr : r.Clean) {p : Addr} (h : r.removeNode p = some r') :
    RemovedAddr p r r' := by
  obtain ⟨r'', h', hremoved⟩ := hr.removeNode_arc p
  cases h'.symm.trans h
  exact hremoved

/-- A snapshot is taken unless there is one with at least as many held locks. -/
theorem Live.updateStackTrace_eq {r : Rep} (hr : r.Indexed) {id : GraphId} {p : Addr}
    (hid : r.Live id p) (thread : ThreadId) (allLocks : SynchLocksHeld) :
    r.updateStackTrace id thread allLocks =
      if allLocks.n + 1 ≤ (r.node (nodeIndex id)).priority then r
      else r.modify (nodeIndex id) fun n =>
        { n with
          priority := allLocks.n + 1, threadId := some thread, holdLocks := allLocks.locks
          holdLocksCount := allLocks.n % 2 ^ 8 } := by
  simp only [updateStackTrace, hid.findNode hr]

theorem Clean.updateStackTrace_arc {r : Rep} (hr : r.Clean) (id : GraphId) (thread : ThreadId)
    (allLocks : SynchLocksHeld) :
    SameIds r (r.updateStackTrace id thread allLocks) ∧
      (∀ u v, (r.updateStackTrace id thread allLocks).Edge u v ↔ r.Edge u v) ∧
      (∀ i, (r.updateStackTrace id thread allLocks).rank i = r.rank i) ∧
      ∀ a b, (r.updateStackTrace id thread allLocks).Arc a b ↔ r.Arc a b := by
  obtain ⟨hindex, keep⟩ := updateStackTrace_node r id thread allLocks
  have hedge : ∀ u v, (r.updateStackTrace id thread allLocks).Edge u v ↔ r.Edge u v := by
    intro u v
    rw [Edge, keep Node.outSet fun _ _ _ _ _ => rfl, Edge]
  refine ⟨⟨⟨updateStackTrace_inv hr.toInv id thread allLocks, fun u v huv => ?_⟩, hindex.live,
    hindex.retired⟩, hedge, keep Node.rank fun _ _ _ _ _ => rfl, fun a b => ?_⟩
  · simp only [hindex.maskedPtr]
    exact hr.registered u v ((hedge u v).mp huv)
  · simp only [Arc, hindex.live, hedge]

end Rep
end CppGuard
