import CppGuard.GraphCycles.Reorder

/-!
# Correctness of `InsertEdge` and `RemoveEdge`

`InsertEdge` searches after it has stored the new edge. The searches never follow that
edge, so what they find is reachability in the graph before the call. If the forward
search meets no cycle, `Reassigned.topological` makes the ranks after `Reorder` a
topological order again. `EdgeAdded` and `SameGraph` are the two outcomes.
-/
namespace CppGuard
namespace Rep
open Relation TopologicalOrder

/-- The same graph, up to the layout of the edge sets. -/
structure SameGraph (r r' : Rep) : Prop extends SameIdent r r' where
  rank : ∀ i, r'.rank i = r.rank i
  visited : ∀ i, (r'.node i).visited = (r.node i).visited
  outSet : ∀ u w, w ∈ (r'.node u).outSet ↔ w ∈ (r.node u).outSet
  inSet : ∀ u w, u ∈ (r'.node w).inSet ↔ u ∈ (r.node w).inSet

/-- The graph with the edge `x → y` and no other edge added. -/
structure EdgeAdded (x y : Nat) (r r' : Rep) : Prop extends SameIdent r r' where
  outSet : ∀ u w, w ∈ (r'.node u).outSet ↔ w ∈ (r.node u).outSet ∨ u = x ∧ w = y
  inSet : ∀ u w, u ∈ (r'.node w).inSet ↔ u ∈ (r.node w).inSet ∨ u = x ∧ w = y

theorem SameGraph.refl (r : Rep) : SameGraph r r :=
  ⟨.refl r, fun _ => rfl, fun _ => rfl, fun _ _ => Iff.rfl, fun _ _ => Iff.rfl⟩

theorem SameGraph.edge {r r' : Rep} (h : SameGraph r r') (u v : Nat) :
    r'.Edge u v ↔ r.Edge u v := h.outSet u v

theorem SameGraph.ordered {r r' : Rep} (h : SameGraph r r') (hr : r.Ordered) : r'.Ordered :=
  hr.of_subgraph h.size h.rank h.visited (fun u v => by rw [h.outSet, h.inSet, hr.symm])
    fun u v => (h.edge u v).mp

theorem SameGraph.inv {r r' : Rep} (h : SameGraph r r') (hr : r.Inv) : r'.Inv :=
  ⟨h.ordered hr.toOrdered, h.sameIndex.indexed hr.toIndexed⟩

/-! ## The graph with the edge stored -/

/-- The graph that `InsertEdge` searches: the edge `x → y` is stored, ranks and marks
are those of `r`. -/
structure Stored (x y : Nat) (r r' : Rep) : Prop extends EdgeAdded x y r r' where
  rank : ∀ i, r'.rank i = r.rank i
  visited : ∀ i, (r'.node i).visited = (r.node i).visited

/-- The two stores of `InsertEdge`. -/
def storeEdge (r : Rep) (x y : Nat) : Rep :=
  (r.modify x fun n => { n with outSet := ((r.node x).outSet.insert y).2 }).modify y
    fun n => { n with inSet := (n.inSet.insert x).2 }

theorem stored {r : Rep} {x y : Nat} (hx : x < r.size) (hy : y < r.size) :
    Stored x y r (r.storeEdge x y) := by
  have hy' : y < (r.modify x fun n =>
      { n with outSet := ((r.node x).outSet.insert y).2 }).size := by simpa using hy
  unfold storeEdge
  refine ⟨⟨(SameIdent.modify _ _ ?_).trans (SameIdent.modify _ _ ?_), ?_, ?_⟩, ?_, ?_⟩
  · exact fun _ => rfl
  · exact fun _ => rfl
  · intro u w
    rw [modify_field Node.outSet (by exact fun _ => rfl), node_modify _ hx]
    split_ifs with h
    · subst h
      simp [or_comm]
    · simp [h]
  · intro u w
    rw [node_modify _ hy']
    split_ifs with h
    · subst h
      rw [modify_field Node.inSet (by exact fun _ => rfl)]
      simp [or_comm]
    · rw [modify_field Node.inSet (by exact fun _ => rfl)]
      simp [h]
  · intro i
    rw [rank, modify_field Node.rank (by exact fun _ => rfl),
      modify_field Node.rank (by exact fun _ => rfl), rank]
  · intro i
    rw [modify_field Node.visited (by exact fun _ => rfl),
      modify_field Node.visited (by exact fun _ => rfl)]

section Insertion

variable {r r₁ : Rep} {x y : Nat} (hr : r.Ordered) (h : Stored x y r r₁)
  (hx : x < r.size) (hy : y < r.size) (hlt : r.rank y < r.rank x)
include hr h

theorem Stored.out_bounded (hy : y < r.size) : ∀ u, ∀ w ∈ (r₁.node u).outSet, w < r₁.size := by
  intro u w hw
  rw [h.size]
  rcases (h.outSet u w).mp hw with hw | ⟨_, rfl⟩
  · exact hr.right_lt hw
  · exact hy

theorem Stored.in_bounded (hx : x < r.size) : ∀ w, ∀ u ∈ (r₁.node w).inSet, u < r₁.size := by
  intro w u hu
  rw [h.size]
  rcases (h.inSet u w).mp hu with hu | ⟨rfl, _⟩
  · exact Edge.left_lt ((hr.symm u w).mpr hu)
  · exact hx

/-- The forward search does not follow the new edge: it never expands `x`. -/
theorem Stored.forward_iff (hlt : r.rank y < r.rank x) (v : Nat) :
    ReflTransGen (r₁.forwardStep (r.rank x)) y v ↔
      ReflTransGen r.Edge y v ∧ r.rank v < r.rank x := by
  constructor
  · intro hv
    induction hv with
    | refl => exact ⟨.refl, hlt⟩
    | @tail u v _ huv ih =>
      obtain ⟨hout, hrank⟩ := huv
      rw [← Rep.rank, h.rank] at hrank
      rcases (h.outSet u v).mp hout with hout | ⟨rfl, _⟩
      · exact ⟨ih.1.tail hout, hrank⟩
      · exact absurd ih.2 (lt_irrefl _)
  · rintro ⟨hv, hrank⟩
    induction hv with
    | refl => exact .refl
    | @tail u v _ huv ih =>
      refine (ih ((hr.ranked u v huv).trans hrank)).tail ⟨(h.outSet u v).mpr (Or.inl huv), ?_⟩
      rwa [← Rep.rank, h.rank]

theorem Stored.backward_iff (hlt : r.rank y < r.rank x) (v : Nat) :
    ReflTransGen (r₁.backwardStep (r.rank y)) x v ↔
      ReflTransGen r.Edge v x ∧ r.rank y < r.rank v := by
  constructor
  · intro hv
    induction hv with
    | refl => exact ⟨.refl, hlt⟩
    | @tail u v _ huv ih =>
      obtain ⟨hin, hrank⟩ := huv
      rw [← Rep.rank, h.rank] at hrank
      rcases (h.inSet v u).mp hin with hin | ⟨_, rfl⟩
      · exact ⟨.head ((hr.symm v u).mpr hin) ih.1, hrank⟩
      · exact absurd ih.2 (lt_irrefl _)
  · rintro ⟨hv, hrank⟩
    induction hv using ReflTransGen.head_induction_on with
    | refl => exact .refl
    | @head v u hvu _ ih =>
      have hin : v ∈ (r₁.node u).inSet := (h.inSet v u).mpr (Or.inl ((hr.symm v u).mp hvu))
      refine (ih (hrank.trans (hr.ranked v u hvu))).tail ⟨hin, ?_⟩
      rwa [← Rep.rank, h.rank]

theorem Stored.forwardDFS (hy : y < r.size) : ∃ ok deltaf r₂,
    r₁.forwardDFS y (r.rank x) = some (ok, deltaf, r₂) ∧
      ForwardResult r₁ (r.rank x) y ok deltaf r₂ :=
  forwardDFS_returns (fun i => (h.visited i).trans (hr.unvisited i)) (h.out_bounded hr hy) _
    (h.size ▸ hy)

/-- A cycle found by the forward search is a path from `y` to `x`. -/
theorem Stored.path_of_cycle (hx : x < r.size) (hlt : r.rank y < r.rank x) {v w : Nat}
    (hv : ReflTransGen (r₁.forwardStep (r.rank x)) y v) (hw : w ∈ (r₁.node v).outSet)
    (hrank : (r₁.node w).rank = r.rank x) : ReflTransGen r.Edge y x := by
  obtain ⟨hyv, hvx⟩ := (h.forward_iff hr hlt v).mp hv
  rcases (h.outSet v w).mp hw with hvw | ⟨rfl, _⟩
  · rw [← Rep.rank, h.rank] at hrank
    obtain rfl := hr.rank_inj (hr.right_lt hvw) hx hrank
    exact hyv.tail hvw
  · exact absurd hvx (lt_irrefl _)

/-- A path from `y` to `x` ends with an edge that the forward search sees. -/
theorem Stored.no_path (hlt : r.rank y < r.rank x)
    (clear : ∀ v, ReflTransGen (r₁.forwardStep (r.rank x)) y v → ∀ w ∈ (r₁.node v).outSet,
      (r₁.node w).rank ≠ r.rank x) : ¬ ReflTransGen r.Edge y x := by
  intro hpath
  rcases hpath.cases_tail with rfl | ⟨u, hu, hux⟩
  · exact absurd hlt (lt_irrefl _)
  · have hu' := (h.forward_iff hr hlt u).mpr ⟨hu, hr.ranked u x hux⟩
    exact clear u hu' x ((h.outSet u x).mpr (Or.inl hux)) (h.rank x)

end Insertion

/-! ## The two outcomes -/

theorem Marked.sameIdent {r r' : Rep} {vis : List Nat} (h : Marked r vis r') : SameIdent r r' :=
  ⟨h.size, h.freeNodes, h.ptrmap, fun i => by rw [h.node]; rfl⟩

theorem Reranked.sameIdent {r r' : Rep} {rank' : Nat → Nat} (h : Reranked r rank' r') :
    SameIdent r r' :=
  ⟨h.size, h.freeNodes, h.ptrmap, fun i => by rw [h.node]; rfl⟩

theorem sameIdent_clearVisited (r : Rep) (ws : List Nat) : SameIdent r (r.clearVisited ws) := by
  obtain ⟨hsize, hfree, hmap⟩ := clearVisited_fields r ws
  exact ⟨hsize, hfree, hmap, fun i => by rw [node_clearVisited]; rfl⟩

/-- The undo path restores the graph before the call, whatever was marked. -/
theorem Stored.undo {r r₁ r' : Rep} {x y : Nat} {deltaf : List Nat} (hr : r.Ordered)
    (h : Stored x y r r₁) (hx : x < r.size) (hy : y < r.size) (fresh : ¬ r.Edge x y)
    (hm : Marked r₁ deltaf r') : SameGraph r (r'.undoInsert x y deltaf) := by
  have hsize : r'.size = r.size := hm.size.trans h.size
  have hy' : y < (r'.modify x fun n => { n with outSet := n.outSet.erase y }).size := by
    rw [size_modify]
    exact hsize ▸ hy
  have fresh' : x ∉ (r.node y).inSet := fun hin => fresh ((hr.symm x y).mpr hin)
  refine ⟨?_, ?_, ?_, ?_, ?_⟩
  · refine ((h.toSameIdent.trans hm.sameIdent).trans ?_).trans (sameIdent_clearVisited _ _)
    refine (SameIdent.modify _ _ ?_).trans (SameIdent.modify _ _ ?_)
    · exact fun _ => rfl
    · exact fun _ => rfl
  · intro i
    rw [Rep.rank, undoInsert, node_clearVisited, modify_field Node.rank (by exact fun _ => rfl),
      modify_field Node.rank (by exact fun _ => rfl), hm.rank]
    exact h.rank i
  · intro i
    rw [undoInsert, node_clearVisited, modify_field Node.visited (by exact fun _ => rfl),
      modify_field Node.visited (by exact fun _ => rfl), hm.visited, hr.unvisited]
    simp
  · intro u w
    rw [undoInsert, node_clearVisited, modify_field Node.outSet (by exact fun _ => rfl),
      node_modify _ (hsize ▸ hx)]
    split_ifs with hu
    · subst hu
      simp only [ValidNodeSet.mem_erase, hm.outSet, h.outSet]
      grind [Edge]
    · rw [hm.outSet, h.outSet]
      simp [hu]
  · intro u w
    rw [undoInsert, node_clearVisited, node_modify _ hy']
    split_ifs with hw
    · subst hw
      simp only [ValidNodeSet.mem_erase, modify_field Node.inSet (f := fun n =>
        { n with outSet := n.outSet.erase w }) (fun _ => rfl), hm.inSet, h.inSet]
      grind
    · rw [modify_field Node.inSet (by exact fun _ => rfl), hm.inSet, h.inSet]
      simp [hw]

theorem EdgeAdded.edge {r r' : Rep} {x y : Nat} (h : EdgeAdded x y r r') (u v : Nat) :
    r'.Edge u v ↔ r.Edge u v ∨ u = x ∧ v = y := h.outSet u v

/-- The new edge keeps the invariant if the ranks grow along it and along the old edges. -/
theorem EdgeAdded.ordered {r r' : Rep} {x y : Nat} (hr : r.Ordered) (h : EdgeAdded x y r r')
    (rank_lt : ∀ i < r.size, r'.rank i < r.size) (rank_inj : Set.InjOn r'.rank {i | i < r.size})
    (ranked : ∀ u v, r.Edge u v ∨ u = x ∧ v = y → r'.rank u < r'.rank v)
    (unvisited : ∀ i, (r'.node i).visited = false) : r'.Ordered where
  rank_lt i hi := h.size ▸ rank_lt i (h.size ▸ hi)
  rank_inj := h.size ▸ rank_inj
  symm u v := by rw [h.outSet, h.inSet, hr.symm]
  ranked u v huv := ranked u v ((h.edge u v).mp huv)
  unvisited := unvisited

/-- The search spaces of an edge `x → y` that does not fit the ranks, and the ranks after
`Reorder`. -/
structure Relocated (r : Rep) (x y : Nat) (deltaf deltab : List Nat) (rank' : Nat → Nat) :
    Prop where
  forth : ∀ v, v ∈ deltaf ↔ ReflTransGen r.Edge y v ∧ r.rank v < r.rank x
  back : ∀ v, v ∈ deltab ↔ ReflTransGen r.Edge v x ∧ r.rank y < r.rank v
  nodup : (deltab ++ deltaf).Nodup
  reassigned : Reassigned r.rank rank' deltab deltaf

/-- Both searches and `Reorder`, for ranks that do not fit the new edge. -/
theorem Stored.reorder {r r₁ : Rep} {x y : Nat} (ho : r.Ordered) (h : Stored x y r r₁)
    (hx : x < r.size) (hy : y < r.size) (hlt : r.rank y < r.rank x)
    {deltaf : List Nat} {r₂ : Rep} (hf : ForwardResult r₁ (r.rank x) y true deltaf r₂) :
    ∃ deltab r₃, r₂.backwardDFS x (r.rank y) = some (deltab, r₃) ∧
      Relocated r x y deltaf deltab (r₃.reorder deltaf deltab).rank ∧
      (r₃.reorder deltaf deltab).Ordered ∧ EdgeAdded x y r (r₃.reorder deltaf deltab) ∧
      ¬ ReflTransGen r.Edge y x := by
  have hrank : r₁.rank = r.rank := funext h.rank
  have hforth : ∀ v, v ∈ deltaf ↔ ReflTransGen r.Edge y v ∧ r.rank v < r.rank x :=
    fun v => (hf.exact rfl v).trans (h.forward_iff ho hlt v)
  have acyclic : ¬ ReflTransGen r.Edge y x :=
    h.no_path ho hlt fun v hv => hf.clear rfl v ((hf.exact rfl v).mpr hv)
  have disjoint : ∀ v, ReflTransGen (r₁.backwardStep (r.rank y)) x v → v ∉ deltaf := by
    intro v hv hvf
    exact acyclic (((hforth v).mp hvf).1.trans ((h.backward_iff ho hlt v).mp hv).1)
  obtain ⟨deltab, r₃, hb, hmarked, hnodup, hblt, hreach⟩ :=
    backwardDFS_returns hf.marked (h.in_bounded ho hx) (r.rank y) (h.size ▸ hx) disjoint
  have hback : ∀ v, v ∈ deltab ↔ ReflTransGen r.Edge v x ∧ r.rank y < r.rank v :=
    fun v => (hreach v).trans (h.backward_iff ho hlt v)
  have hlt₁ : ∀ v ∈ deltaf ++ deltab, v < r₁.size := by
    intro v hv
    rcases List.mem_append.mp hv with hv | hv
    · exact hf.lt v hv
    · exact hblt v hv
  have nodup : (deltab ++ deltaf).Nodup :=
    hnodup.append hf.nodup fun v hvb hvf => disjoint v ((hreach v).mp hvb) hvf
  have memb : ∀ v, v ∈ deltab → v < r.size :=
    fun v hv => h.size ▸ hlt₁ v (List.mem_append_right _ hv)
  have memf : ∀ v, v ∈ deltaf → v < r.size :=
    fun v hv => h.size ▸ hlt₁ v (List.mem_append_left _ hv)
  have memall : ∀ v ∈ deltab ++ deltaf, v < r.size :=
    fun v hv => (List.mem_append.mp hv).elim (memb v) (memf v)
  have ranks : ((deltab ++ deltaf).map r₁.rank).Nodup := by
    rw [hrank]
    exact List.Nodup.map_on (fun u hu v hv huv => ho.rank_inj (memall u hu) (memall v hv) huv) nodup
  have unvisited : ∀ i, (r₁.node i).visited = false := fun i => (h.visited i).trans (ho.unvisited i)
  obtain ⟨rank', hreranked, hsorted⟩ := reorder_spec unvisited hmarked hlt₁ ranks
  rw [hrank] at hsorted
  have hre : Reassigned r.rank rank' deltab deltaf :=
    hsorted.of_perm (r₁.sort_perm deltab) (r₁.sort_perm deltaf)
  have hnew : (r₃.reorder deltaf deltab).rank = rank' :=
    funext fun i => by rw [Rep.rank, hreranked.node]
  have added : EdgeAdded x y r (r₃.reorder deltaf deltab) :=
    ⟨h.toSameIdent.trans hreranked.sameIdent,
      fun u w => by rw [hreranked.node]; exact h.outSet u w,
      fun u w => by rw [hreranked.node]; exact h.inSet u w⟩
  refine ⟨deltab, r₃, hb, ⟨hforth, hback, nodup, hnew ▸ hre⟩, added.ordered ho ?_ ?_ ?_ ?_, added,
    acyclic⟩
  · intro i hi
    rw [hnew]
    by_cases hmem : i ∈ deltab ++ deltaf
    · obtain ⟨u, hu, heq⟩ := hre.exists_old hmem
      rw [← heq]
      exact ho.rank_lt u (memall u hu)
    · rw [hre.other i hmem]
      exact ho.rank_lt i hi
  · rw [hnew]
    exact hre.injOn ho.rank_inj memb memf
  · intro u v huv
    rw [hnew]
    exact hre.topological (s := {i | i < r.size}) ho.rank_inj
      (fun u v huv => ⟨huv.left_lt, ho.right_lt huv⟩) ho.ranked hx hy hlt acyclic hback hforth huv
  · intro i
    rw [hreranked.node]
    exact unvisited i

/-- `InsertEdge` of a new edge between different nodes. -/
theorem insertEdge_fresh {r : Rep} {idx idy : GraphId} {x y : Nat}
    (hx : r.findNode idx = some x) (hy : r.findNode idy = some y) (hxy : x ≠ y)
    (fresh : ¬ r.Edge x y) :
    r.insertEdge idx idy =
      if r.rank x ≤ r.rank y then some (true, r.storeEdge x y)
      else do
        let (ok, deltaf, r₂) ← (r.storeEdge x y).forwardDFS y (r.rank x)
        if ok = false then
          return (false, r₂.undoInsert x y deltaf)
        else
          let (deltab, r₃) ← r₂.backwardDFS x (r₂.rank y)
          return (true, r₃.reorder deltaf deltab) := by
  have h := stored (findNode_eq_some.mp hx).2.1 (findNode_eq_some.mp hy).2.1
  have inserted : ((r.node x).outSet.insert y).1 = true := by
    rw [ValidNodeSet.insert_fst]
    exact decide_eq_true fresh
  rw [insertEdge, hx, hy, ← h.rank x, ← h.rank y]
  simp only [hxy, if_false, inserted, Bool.true_eq_false]
  rfl

/-- `InsertEdge` returns. It stores the edge, or leaves the graph as it is because the edge
would close a cycle. -/
theorem insertEdge_returns {r : Rep} (ho : r.Ordered) {idx idy : GraphId} {x y : Nat}
    (hx : r.findNode idx = some x) (hy : r.findNode idy = some y) :
    (∃ r', r.insertEdge idx idy = some (true, r') ∧ r'.Ordered ∧ EdgeAdded x y r r' ∧
      ¬ ReflTransGen r.Edge y x) ∨
    (∃ r', r.insertEdge idx idy = some (false, r') ∧ SameGraph r r' ∧
      ReflTransGen r.Edge y x) := by
  obtain ⟨_, hxlt, _⟩ := findNode_eq_some.mp hx
  obtain ⟨_, hylt, _⟩ := findNode_eq_some.mp hy
  have upward : ∀ u v, ReflTransGen r.Edge u v → r.rank u ≤ r.rank v := by
    intro u v huv
    rcases reflTransGen_iff_eq_or_transGen.mp huv with rfl | huv
    · exact le_rfl
    · exact (ho.rank_lt_of_transGen huv).le
  by_cases hxy : x = y
  · subst hxy
    exact Or.inr ⟨r, by simp [insertEdge, hx, hy], .refl r, .refl⟩
  by_cases hmem : r.Edge x y
  · refine Or.inl ⟨r, ?_, ho, ⟨.refl r, ?_, ?_⟩, ?_⟩
    · simp [insertEdge, hx, hy, hxy, ValidNodeSet.insert_of_mem hmem]
    · rintro u w
      constructor
      · exact Or.inl
      · rintro (h | ⟨rfl, rfl⟩)
        · exact h
        · exact hmem
    · rintro u w
      constructor
      · exact Or.inl
      · rintro (h | ⟨rfl, rfl⟩)
        · exact h
        · exact (ho.symm _ _).mp hmem
    · intro hpath
      exact absurd (ho.ranked x y hmem) (Nat.not_lt.mpr (upward y x hpath))
  have h := stored hxlt hylt
  rw [insertEdge_fresh hx hy hxy hmem]
  by_cases hle : r.rank x ≤ r.rank y
  · rw [if_pos hle]
    have hlt : r.rank x < r.rank y :=
      lt_of_le_of_ne hle fun heq => hxy (ho.rank_inj hxlt hylt heq)
    have hrank : (r.storeEdge x y).rank = r.rank := funext h.rank
    refine Or.inl ⟨_, rfl, ?_, h.toEdgeAdded, ?_⟩
    · refine h.toEdgeAdded.ordered ho ?_ ?_ ?_ fun i => (h.visited i).trans (ho.unvisited i)
      · rw [hrank]
        exact ho.rank_lt
      · rw [hrank]
        exact ho.rank_inj
      · rw [hrank]
        rintro u v (huv | ⟨rfl, rfl⟩)
        · exact ho.ranked u v huv
        · exact hlt
    · exact fun hpath => absurd hlt (Nat.not_lt.mpr (upward y x hpath))
  · have hlt : r.rank y < r.rank x := Nat.lt_of_not_le hle
    rw [if_neg hle]
    obtain ⟨ok, deltaf, r₂, hf, hres⟩ := h.forwardDFS ho hylt
    rw [hf]
    cases ok with
    | false =>
      obtain ⟨v, hv, w, hw, hrank⟩ := hres.cycle rfl
      exact Or.inr ⟨_, rfl, h.undo ho hxlt hylt hmem hres.marked,
        h.path_of_cycle ho hxlt hlt hv hw hrank⟩
    | true =>
      obtain ⟨deltab, r₃, hb, -, hinv, hadded, hacyclic⟩ := h.reorder ho hxlt hylt hlt hres
      have hry : r₂.rank y = r.rank y := (hres.marked.rank y).trans (h.rank y)
      refine Or.inl ⟨_, ?_, hinv, hadded, hacyclic⟩
      simp [hry, hb]

/-- `InsertEdge` does nothing for expired ids. -/
theorem insertEdge_expired {r : Rep} {idx idy : GraphId}
    (h : r.findNode idx = none ∨ r.findNode idy = none) :
    r.insertEdge idx idy = some (true, r) := by
  rw [insertEdge]
  rcases h with h | h
  · rw [h]
  · rw [h]
    cases r.findNode idx <;> rfl

/-- `InsertEdge` does nothing if the edge exists. -/
theorem insertEdge_of_edge {r : Rep} (hr : r.Ordered) {idx idy : GraphId} {x y : Nat}
    (hx : r.findNode idx = some x) (hy : r.findNode idy = some y) (h : r.Edge x y) :
    r.insertEdge idx idy = some (true, r) := by
  have hxy : x ≠ y := by
    rintro rfl
    exact lt_irrefl _ (hr.ranked x x h)
  simp [insertEdge, hx, hy, hxy, ValidNodeSet.insert_of_mem h]

/-- Whatever the ids, `InsertEdge` returns and keeps the invariant and the identities. -/
theorem insertEdge_inv {r : Rep} (hr : r.Inv) (idx idy : GraphId) :
    ∃ ok r', r.insertEdge idx idy = some (ok, r') ∧ r'.Inv ∧ SameIdent r r' := by
  cases hx : r.findNode idx with
  | none => exact ⟨true, r, insertEdge_expired (Or.inl hx), hr, .refl r⟩
  | some x =>
    cases hy : r.findNode idy with
    | none => exact ⟨true, r, insertEdge_expired (Or.inr hy), hr, .refl r⟩
    | some y =>
      rcases insertEdge_returns hr.toOrdered hx hy with ⟨r', h, ho, hadd, _⟩ | ⟨r', h, hsame, _⟩
      · exact ⟨true, r', h, ⟨ho, hadd.sameIndex.indexed hr.toIndexed⟩, hadd.toSameIdent⟩
      · exact ⟨false, r', h, hsame.inv hr, hsame.toSameIdent⟩

/-! ## `RemoveEdge` -/

theorem removeEdge_inv {r : Rep} (hr : r.Inv) (idx idy : GraphId) :
    (r.removeEdge idx idy).Inv ∧ SameIdent r (r.removeEdge idx idy) := by
  rw [removeEdge]
  cases hx : r.findNode idx with
  | none => exact ⟨hr, .refl r⟩
  | some x =>
    cases hy : r.findNode idy with
    | none => exact ⟨hr, .refl r⟩
    | some y =>
      obtain ⟨rfl, hxlt, _⟩ := findNode_eq_some.mp hx
      obtain ⟨rfl, hylt, _⟩ := findNode_eq_some.mp hy
      set x := nodeIndex idx
      set y := nodeIndex idy
      set r₁ := r.modify x fun n => { n with outSet := n.outSet.erase y }
      have hylt₁ : y < r₁.size := by simpa [r₁] using hylt
      have hsame : SameIdent r (r₁.modify y fun n => { n with inSet := n.inSet.erase x }) := by
        refine (SameIdent.modify _ _ ?_).trans (SameIdent.modify _ _ ?_)
        · exact fun _ => rfl
        · exact fun _ => rfl
      have hout : ∀ u w, w ∈ ((r₁.modify y fun n => { n with inSet := n.inSet.erase x }).node
          u).outSet ↔ w ∈ (r.node u).outSet ∧ ¬ (u = x ∧ w = y) := by
        intro u w
        rw [modify_field Node.outSet (by exact fun _ => rfl), node_modify _ hxlt]
        split_ifs with hu
        · simp [hu, and_comm]
        · simp [hu]
      have hin : ∀ u w, u ∈ ((r₁.modify y fun n => { n with inSet := n.inSet.erase x }).node
          w).inSet ↔ u ∈ (r.node w).inSet ∧ ¬ (u = x ∧ w = y) := by
        intro u w
        have : (r₁.node w).inSet = (r.node w).inSet :=
          modify_field Node.inSet (by exact fun _ => rfl) r x w
        rw [node_modify _ hylt₁]
        split_ifs with hw
        · rw [ValidNodeSet.mem_erase, this]
          simp [hw, and_comm]
        · simp [this, hw]
      refine ⟨⟨?_, hsame.sameIndex.indexed hr.toIndexed⟩, hsame⟩
      refine hr.toOrdered.of_subgraph hsame.size ?_ ?_ ?_ fun u v huv => ((hout u v).mp huv).1
      · intro i
        rw [Rep.rank, modify_field Node.rank (by exact fun _ => rfl),
          modify_field Node.rank (by exact fun _ => rfl), Rep.rank]
      · intro i
        rw [modify_field Node.visited (by exact fun _ => rfl),
          modify_field Node.visited (by exact fun _ => rfl)]
      · intro u v
        rw [hout, hin, hr.symm]

end Rep
end CppGuard
