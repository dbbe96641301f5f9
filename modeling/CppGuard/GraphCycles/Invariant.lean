import CppGuard.GraphCycles.Operations
import CppGuard.Library.LinkedChain
import CppGuard.Library.Worklist

/-!
# The representation invariant of the graph

`Ordered` is about edges, ranks and marks, `Indexed` about pointers, hash chains, versions
and the free list; `Inv` is both. The operations on edges leave the second half alone:
`SameIdent` says so, and `SameIndex` is the part of it that carries `Indexed` over.
-/
namespace CppGuard
open LinkedChain

/-- What the edge operations keep of a node. -/
def Node.ident (n : Node) : Node :=
  { n with rank := 0, visited := false, inSet := ∅, outSet := ∅ }

namespace Rep

/-- The edge relation on node indices. -/
def Edge (r : Rep) (u v : Nat) : Prop := v ∈ (r.node u).outSet

def rank (r : Rep) (i : Nat) : Nat := (r.node i).rank

/-- The id of the node at an index. -/
def idOf (r : Rep) (i : Nat) : GraphId := makeId i (r.node i).version

structure Ordered (r : Rep) : Prop where
  /-- With `rank_inj`, the ranks are a permutation of the indices. -/
  rank_lt : ∀ i < r.size, r.rank i < r.size
  rank_inj : Set.InjOn r.rank {i | i < r.size}
  symm : ∀ u v, v ∈ (r.node u).outSet ↔ u ∈ (r.node v).inSet
  ranked : ∀ u v, r.Edge u v → r.rank u < r.rank v
  unvisited : ∀ i, (r.node i).visited = false

/-- Bucket `b` lists the nodes whose pointers hash to `b`, for the pointers `reg`. -/
def Hashed (r : Rep) (reg : Nat → Option Addr) : Prop :=
  ∀ b, ∃ l, Chain (fun i => (r.node i).nextHash) (r.ptrmap b) l ∧
    ∀ i, i ∈ l ↔ ∃ p, reg i = some p ∧ ptrHash p = b

structure Indexed (r : Rep) : Prop where
  size_le : r.size ≤ vecMaxSize
  chains : r.Hashed fun i => (r.node i).maskedPtr
  ptr_inj : ∀ i j p, (r.node i).maskedPtr = some p → (r.node j).maskedPtr = some p → i = j
  version_pos : ∀ i < r.size, 0 < (r.node i).version
  version_le : ∀ i < r.size, (r.node i).version ≤ maxVersion
  free_nodup : r.freeNodes.Nodup
  free : ∀ i ∈ r.freeNodes, i < r.size ∧ (r.node i).maskedPtr = none

structure Inv (r : Rep) : Prop extends Ordered r, Indexed r

theorem lt_size_of_maskedPtr {r : Rep} {i : Nat} {p : Addr}
    (h : (r.node i).maskedPtr = some p) : i < r.size := by
  by_contra hge
  rw [node_of_size_le (Nat.le_of_not_lt hge)] at h
  cases h

theorem Edge.left_lt {r : Rep} {u v : Nat} (h : r.Edge u v) : u < r.size := by
  by_contra hge
  rw [Edge, node_of_size_le (Nat.le_of_not_lt hge)] at h
  exact ValidNodeSet.notMem_empty v h

theorem Ordered.right_lt {r : Rep} (hr : r.Ordered) {u v : Nat} (h : r.Edge u v) :
    v < r.size := by
  by_contra hge
  have := (hr.symm u v).mp h
  rw [node_of_size_le (Nat.le_of_not_lt hge)] at this
  exact ValidNodeSet.notMem_empty u this

theorem length_elems_le {r : Rep} {s : ValidNodeSet} (h : ∀ w ∈ s, w < r.size) :
    s.elems.length ≤ r.size :=
  Worklist.length_le_of_nodup s.nodup_elems fun w hw => h w (ValidNodeSet.mem_elems.mp hw)

/-- Ranks grow along paths, so no path leads back. -/
theorem Ordered.rank_lt_of_transGen {r : Rep} (hr : r.Ordered) {u v : Nat}
    (h : Relation.TransGen r.Edge u v) : r.rank u < r.rank v := by
  induction h with
  | single h => exact hr.ranked _ _ h
  | tail _ h ih => exact ih.trans (hr.ranked _ _ h)

theorem Ordered.acyclic {r : Rep} (hr : r.Ordered) (u : Nat) :
    ¬ Relation.TransGen r.Edge u u :=
  fun h => lt_irrefl _ (hr.rank_lt_of_transGen h)

/-- Edges may go away; ranks and marks stay. -/
theorem Ordered.of_subgraph {r r' : Rep} (hr : r.Ordered) (size : r'.size = r.size)
    (rank : ∀ i, r'.rank i = r.rank i)
    (visited : ∀ i, (r'.node i).visited = (r.node i).visited)
    (symm : ∀ u v, v ∈ (r'.node u).outSet ↔ u ∈ (r'.node v).inSet)
    (sub : ∀ u v, r'.Edge u v → r.Edge u v) : r'.Ordered where
  rank_lt i hi := by
    rw [rank, size]
    exact hr.rank_lt i (size ▸ hi)
  rank_inj i hi j hj hij := by
    rw [rank, rank] at hij
    exact hr.rank_inj (size ▸ hi) (size ▸ hj) hij
  symm := symm
  ranked u v huv := by
    rw [rank, rank]
    exact hr.ranked u v (sub u v huv)
  unvisited i := (visited i).trans (hr.unvisited i)

/-! ## What an operation leaves alone -/

/-- The same pointers, versions, hash chains and free list. -/
structure SameIndex (r r' : Rep) : Prop where
  size : r'.size = r.size
  freeNodes : r'.freeNodes = r.freeNodes
  ptrmap : r'.ptrmap = r.ptrmap
  maskedPtr : ∀ i, (r'.node i).maskedPtr = (r.node i).maskedPtr
  version : ∀ i, (r'.node i).version = (r.node i).version
  nextHash : ∀ i, (r'.node i).nextHash = (r.node i).nextHash

namespace SameIndex

variable {r r' : Rep}

theorem findNode (h : SameIndex r r') (id : GraphId) : r'.findNode id = r.findNode id := by
  simp only [Rep.findNode, h.size, h.version]

theorem indexed (h : SameIndex r r') (hr : r.Indexed) : r'.Indexed where
  size_le := h.size ▸ hr.size_le
  chains b := by
    obtain ⟨l, hl, hmem⟩ := hr.chains b
    refine ⟨l, ?_, fun i => by simpa only [h.maskedPtr] using hmem i⟩
    rw [h.ptrmap]
    exact hl.congr fun i _ => h.nextHash i
  ptr_inj i j p hi hj := hr.ptr_inj i j p (h.maskedPtr i ▸ hi) (h.maskedPtr j ▸ hj)
  version_pos i hi := by
    rw [h.version]
    exact hr.version_pos i (h.size ▸ hi)
  version_le i hi := by
    rw [h.version]
    exact hr.version_le i (h.size ▸ hi)
  free_nodup := h.freeNodes ▸ hr.free_nodup
  free i hi := by
    rw [h.size, h.maskedPtr]
    exact hr.free i (h.freeNodes ▸ hi)

end SameIndex

/-- The same nodes, up to ranks, marks and edges. -/
structure SameIdent (r r' : Rep) : Prop where
  size : r'.size = r.size
  freeNodes : r'.freeNodes = r.freeNodes
  ptrmap : r'.ptrmap = r.ptrmap
  ident : ∀ i, (r'.node i).ident = (r.node i).ident

namespace SameIdent

variable {r r' r'' : Rep}

theorem refl (r : Rep) : SameIdent r r := ⟨rfl, rfl, rfl, fun _ => rfl⟩

theorem trans (h : SameIdent r r') (h' : SameIdent r' r'') : SameIdent r r'' :=
  ⟨h'.size.trans h.size, h'.freeNodes.trans h.freeNodes, h'.ptrmap.trans h.ptrmap,
    fun i => (h'.ident i).trans (h.ident i)⟩

theorem modify (r : Rep) (i : Nat) {f : Node → Node} (hf : ∀ n, (f n).ident = n.ident) :
    SameIdent r (r.modify i f) :=
  ⟨size_modify r i f, rfl, rfl, modify_field Node.ident hf r i⟩

theorem field {α : Type*} (h : SameIdent r r') (g : Node → α) (hg : ∀ n, g n.ident = g n)
    (i : Nat) : g (r'.node i) = g (r.node i) := by
  rw [← hg, h.ident, hg]

theorem sameIndex (h : SameIdent r r') : SameIndex r r' where
  size := h.size
  freeNodes := h.freeNodes
  ptrmap := h.ptrmap
  maskedPtr := h.field Node.maskedPtr fun _ => rfl
  version := h.field Node.version fun _ => rfl
  nextHash := h.field Node.nextHash fun _ => rfl

end SameIdent

/-! ## Looking a pointer up -/

/-- The loop of `Find` along the rest of a hash chain. -/
theorem findFrom_of_chain {r : Rep} (p : Addr) {o : Option Nat} {l : List Nat}
    (h : Chain (fun i => (r.node i).nextHash) o l) {fuel : Nat} (hfuel : l.length ≤ fuel) :
    r.findFrom p fuel o = some (l.find? fun i => (r.node i).maskedPtr = some p) := by
  induction l generalizing o fuel with
  | nil =>
    obtain rfl : o = none := h
    cases fuel <;> rfl
  | cons i l ih =>
    obtain ⟨rfl, h⟩ := h
    obtain ⟨fuel, rfl⟩ : ∃ k, fuel = k + 1 := ⟨fuel - 1, by simp at hfuel; omega⟩
    simp only [findFrom, List.find?_cons]
    by_cases hi : (r.node i).maskedPtr = some p
    · simp [hi]
    · simp only [hi, if_false, decide_false]
      exact ih h (by simpa using hfuel)

theorem chain_length_le {r : Rep} {b : Nat} {l : List Nat}
    (h : Chain (fun i => (r.node i).nextHash) (r.ptrmap b) l)
    (hmem : ∀ i, i ∈ l ↔ ∃ p, (r.node i).maskedPtr = some p ∧ ptrHash p = b) :
    l.length ≤ r.size := by
  refine Worklist.length_le_of_nodup h.nodup fun i hi => ?_
  obtain ⟨p, hp, _⟩ := (hmem i).mp hi
  exact lt_size_of_maskedPtr hp

theorem Indexed.find_eq_some {r : Rep} (hr : r.Indexed) {p : Addr} {i : Nat}
    (hi : (r.node i).maskedPtr = some p) : r.find p = some (some i) := by
  obtain ⟨l, hl, hmem⟩ := hr.chains (ptrHash p)
  rw [find, findFrom_of_chain p hl (chain_length_le hl hmem)]
  have hin : i ∈ l := (hmem i).mpr ⟨p, hi, rfl⟩
  cases hf : l.find? (fun i => (r.node i).maskedPtr = some p) with
  | none => exact absurd hi (by simpa using List.find?_eq_none.mp hf i hin)
  | some j =>
    have hj := List.find?_some hf
    rw [hr.ptr_inj i j p hi (by simpa using hj)]

theorem Indexed.find_eq_none {r : Rep} (hr : r.Indexed) {p : Addr}
    (absent : ∀ i, (r.node i).maskedPtr ≠ some p) : r.find p = some none := by
  obtain ⟨l, hl, hmem⟩ := hr.chains (ptrHash p)
  rw [find, findFrom_of_chain p hl (chain_length_le hl hmem)]
  congr 1
  simpa [List.find?_eq_none] using fun i _ => absent i

/-! ## `CheckInvariants` -/

theorem Inv.checkNode_eq {r : Rep} (hr : r.Inv) {ranks : ValidNodeSet} {x : Nat}
    (fresh : r.rank x ∉ ranks) :
    r.checkNode ranks x = some (ranks.insert (r.rank x)).2 := by
  have hedges : ∀ y ∈ (r.node x).outSet.elems, (r.node x).rank < (r.node y).rank :=
    fun y hy => hr.ranked x y (ValidNodeSet.mem_elems.mp hy)
  have hins : (ranks.insert (r.node x).rank).1 = true := by
    rw [ValidNodeSet.insert_fst]
    exact decide_eq_true fresh
  have hfind : ∀ p ∈ (r.node x).maskedPtr, r.find p = some (some x) :=
    fun p hp => hr.toIndexed.find_eq_some hp
  cases hp : (r.node x).maskedPtr with
  | none => simp [checkNode, hp, hr.unvisited x, hins, rank, guard, if_pos hedges]
  | some p => simp [checkNode, hp, hfind p hp, hr.unvisited x, hins, rank, guard, if_pos hedges]

/-- `CheckInvariants` never fails on a graph that satisfies the invariant. -/
theorem Inv.checkInvariants_eq {r : Rep} (hr : r.Inv) : r.checkInvariants = some true := by
  have scan : ∀ (xs : List Nat) (ranks : ValidNodeSet), xs.Nodup → (∀ x ∈ xs, x < r.size) →
      (∀ x ∈ xs, r.rank x ∉ ranks) → (xs.foldlM r.checkNode ranks).isSome := by
    intro xs
    induction xs with
    | nil => intros; rfl
    | cons x xs ih =>
      intro ranks nodup lt fresh
      obtain ⟨hx, nodup⟩ := List.nodup_cons.mp nodup
      rw [List.foldlM_cons, hr.checkNode_eq (fresh x (by simp))]
      refine ih _ nodup (fun y hy => lt y (by simp [hy])) fun y hy hmem => ?_
      rcases ValidNodeSet.mem_insert.mp hmem with heq | hmem
      · have := hr.rank_inj (lt y (by simp [hy])) (lt x (by simp)) heq
        exact hx (this ▸ hy)
      · exact fresh y (by simp [hy]) hmem
  obtain ⟨ranks, hranks⟩ := Option.isSome_iff_exists.mp
    (scan (List.range r.size) ∅ List.nodup_range (by simp) (by simp))
  simp [checkInvariants, hranks]

theorem inv_empty : ({} : Rep).Inv := by
  have hnode : ∀ i, ({} : Rep).node i = default := fun i => node_of_size_le (Nat.zero_le i)
  have hsize : ({} : Rep).size = 0 := rfl
  refine ⟨⟨?_, ?_, ?_, ?_, ?_⟩, ⟨?_, ?_, ?_, ?_, ?_, ?_, ?_⟩⟩
  · intro i hi; rw [hsize] at hi; omega
  · intro i hi
    simp only [hsize, Set.mem_ofPred_eq] at hi
    omega
  · intro u v
    rw [hnode, hnode]
    exact iff_of_false (ValidNodeSet.notMem_empty v) (ValidNodeSet.notMem_empty u)
  · intro u v h
    exact absurd h.left_lt (by simp [hsize])
  · intro i; rw [hnode]; rfl
  · simp [hsize]
  · exact fun b => ⟨[], rfl, fun i => by simp [hnode, default]⟩
  · intro i j p hi
    rw [hnode] at hi
    cases hi
  · intro i hi; rw [hsize] at hi; omega
  · intro i hi; rw [hsize] at hi; omega
  · exact List.nodup_nil
  · intro i hi; cases hi

end Rep
end CppGuard
