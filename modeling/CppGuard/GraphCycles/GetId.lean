import CppGuard.GraphCycles.Identity

/-!
# Correctness of `GetId`

For a pointer with an id, `GetId` only looks it up. Otherwise it appends a node or takes
one from the free list; `Prepared` is what the two have in common, and `Registered` is what
follows for ids.
-/
namespace CppGuard
namespace Rep

/-- `r'` is `r` with the pointer `p` registered under a fresh `id`. -/
structure Registered (p : Addr) (id : GraphId) (r r' : Rep) : Prop where
  inv : r'.Inv
  live : ∀ a q, r'.Live a q ↔ r.Live a q ∨ a = id ∧ q = p
  retired : ∀ a, r.Retired a → r'.Retired a
  outSet : ∀ u w, w ∈ (r'.node u).outSet ↔ w ∈ (r.node u).outSet
  snapshot : ∀ i, i ≠ nodeIndex id → (r'.node i).snapshot = (r.node i).snapshot
  priority : (r'.node (nodeIndex id)).priority = 0

/-- `r'` is `r` with the node `i` prepared for the pointer `p`, either a new node or one
from the free list. -/
structure Prepared (p : Addr) (i : Nat) (r r' : Rep) : Prop where
  size : r.size ≤ r'.size
  size_le : r'.size ≤ vecMaxSize
  lt : i < r'.size
  lt_of_ne : ∀ j < r'.size, j ≠ i → j < r.size
  freeNodes : r'.freeNodes.Sublist r.freeNodes
  notMem : i ∉ r'.freeNodes
  ptrmap : r'.ptrmap = r.ptrmap
  node : ∀ j, j ≠ i → r'.node j = r.node j
  old : (r.node i).maskedPtr = none
  maskedPtr : (r'.node i).maskedPtr = some p
  version_pos : 0 < (r'.node i).version
  version_le : (r'.node i).version ≤ maxVersion
  recycled : i < r.size → i ∈ r.freeNodes ∧ (r'.node i).version = (r.node i).version
  inSet : (r'.node i).inSet = (r.node i).inSet
  outSet : (r'.node i).outSet = (r.node i).outSet
  visited : (r'.node i).visited = (r.node i).visited
  priority : (r'.node i).priority = 0
  rank_lt : ∀ j < r'.size, r'.rank j < r'.size
  rank_inj : Set.InjOn r'.rank {j | j < r'.size}
  rank : ∀ j < r.size, r'.rank j = r.rank j

section Prepared

variable {p : Addr} {i : Nat} {r r' : Rep} (h : Prepared p i r r')
include h

/-- A field of a node that preparing `i` does not change. -/
theorem Prepared.field {α : Type*} (g : Node → α) (hi : g (r'.node i) = g (r.node i)) (j : Nat) :
    g (r'.node j) = g (r.node j) := by
  by_cases hj : j = i
  · rw [hj, hi]
  · rw [h.node j hj]

theorem Prepared.maskedPtr_eq (j : Nat) : (r'.node j).maskedPtr =
    Function.update (fun j => (r.node j).maskedPtr) i (some p) j := by
  by_cases hj : j = i
  · rw [hj, Function.update_self, h.maskedPtr]
  · rw [Function.update_of_ne hj, h.node j hj]

theorem Prepared.hashed (hr : r.Indexed) :
    (r'.add p i).Hashed fun j => ((r'.add p i).node j).maskedPtr := by
  have hold : r'.Hashed fun j => (r.node j).maskedPtr := by
    intro b
    obtain ⟨l, hl, hmem⟩ := hr.chains b
    refine ⟨l, ?_, hmem⟩
    rw [h.ptrmap]
    refine hl.congr fun j hj => ?_
    obtain ⟨q, hq, _⟩ := (hmem j).mp hj
    rw [h.node j]
    rintro rfl
    cases h.old.symm.trans hq
  have heq : (fun j => ((r'.add p i).node j).maskedPtr) =
      Function.update (fun j => (r.node j).maskedPtr) i (some p) :=
    funext fun j => ((sameButLinks_add r' p i).maskedPtr j).trans (h.maskedPtr_eq j)
  rw [heq]
  exact hashed_add hold h.lt h.old p

theorem Prepared.indexed (hr : r.Indexed) (unregistered : ∀ j, (r.node j).maskedPtr ≠ some p) :
    (r'.add p i).Indexed := by
  have hlinks := sameButLinks_add r' p i
  have hversion : ∀ j, ((r'.add p i).node j).version = (r'.node j).version :=
    hlinks.field Node.version fun _ => rfl
  have hmasked : ∀ j, j ≠ i → ((r'.add p i).node j).maskedPtr = (r.node j).maskedPtr :=
    fun j hj => (hlinks.maskedPtr j).trans (by rw [h.node j hj])
  have hself : ((r'.add p i).node i).maskedPtr = some p := (hlinks.maskedPtr i).trans h.maskedPtr
  refine ⟨hlinks.size.trans_le h.size_le, h.hashed hr, ?_, ?_, ?_, ?_, ?_⟩
  · intro j k q hj hk
    by_cases hji : j = i <;> by_cases hki : k = i
    · rw [hji, hki]
    · rw [hji, hself] at hj
      rw [hmasked k hki, ← hj] at hk
      exact absurd hk (unregistered k)
    · rw [hki, hself] at hk
      rw [hmasked j hji, ← hk] at hj
      exact absurd hj (unregistered j)
    · rw [hmasked j hji] at hj
      rw [hmasked k hki] at hk
      exact hr.ptr_inj j k q hj hk
  · intro j hj
    rw [hversion]
    by_cases hji : j = i
    · exact hji ▸ h.version_pos
    · rw [h.node j hji]
      exact hr.version_pos j (h.lt_of_ne j (hlinks.size ▸ hj) hji)
  · intro j hj
    rw [hversion]
    by_cases hji : j = i
    · exact hji ▸ h.version_le
    · rw [h.node j hji]
      exact hr.version_le j (h.lt_of_ne j (hlinks.size ▸ hj) hji)
  · exact hlinks.freeNodes ▸ hr.free_nodup.sublist h.freeNodes
  · intro j hj
    have hj' : j ∈ r'.freeNodes := hlinks.freeNodes ▸ hj
    have hji : j ≠ i := fun hji => h.notMem (hji ▸ hj')
    obtain ⟨hlt, hnone⟩ := hr.free j (h.freeNodes.subset hj')
    exact ⟨(hlt.trans_le h.size).trans_eq hlinks.size.symm, (hmasked j hji).trans hnone⟩

theorem Prepared.ordered (hr : r.Ordered) : (r'.add p i).Ordered := by
  have hlinks := sameButLinks_add r' p i
  have hrank : ∀ j, (r'.add p i).rank j = r'.rank j := hlinks.field Node.rank fun _ => rfl
  have hin : ∀ j, ((r'.add p i).node j).inSet = (r.node j).inSet := fun j =>
    (hlinks.field Node.inSet (fun _ => rfl) j).trans (h.field Node.inSet h.inSet j)
  have hout : ∀ j, ((r'.add p i).node j).outSet = (r.node j).outSet := fun j =>
    (hlinks.field Node.outSet (fun _ => rfl) j).trans (h.field Node.outSet h.outSet j)
  refine ⟨?_, ?_, ?_, ?_, ?_⟩
  · intro j hj
    rw [hrank, hlinks.size]
    exact h.rank_lt j (hlinks.size ▸ hj)
  · intro j hj k hk hjk
    rw [hrank, hrank] at hjk
    exact h.rank_inj (hlinks.size ▸ hj) (hlinks.size ▸ hk) hjk
  · intro u v
    rw [hin, hout]
    exact hr.symm u v
  · intro u v huv
    rw [Edge, hout] at huv
    have huv : r.Edge u v := huv
    rw [hrank, hrank, h.rank u huv.left_lt, h.rank v (hr.right_lt huv)]
    exact hr.ranked u v huv
  · intro j
    exact (hlinks.field Node.visited (fun _ => rfl) j).trans
      ((h.field Node.visited h.visited j).trans (hr.unvisited j))

theorem Prepared.registered (hr : r.Inv) (unregistered : ∀ j, (r.node j).maskedPtr ≠ some p) :
    Registered p (r'.idOf i) r (r'.add p i) := by
  have hlinks := sameButLinks_add r' p i
  have hidx := h.indexed hr.toIndexed unregistered
  have hid : ∀ j, (r'.add p i).idOf j = r'.idOf j := fun j =>
    congrArg (makeId j) (hlinks.field Node.version (fun _ => rfl) j)
  have hid_of_ne : ∀ j, j ≠ i → r'.idOf j = r.idOf j := fun j hj => by rw [idOf, h.node j hj, idOf]
  have hindex : nodeIndex (r'.idOf i) = i := by
    rw [← hid]
    exact (hidx.idOf_spec (hlinks.size ▸ h.lt)).1
  have hmasked : ∀ j, ((r'.add p i).node j).maskedPtr =
      Function.update (fun j => (r.node j).maskedPtr) i (some p) j :=
    fun j => (hlinks.maskedPtr j).trans (h.maskedPtr_eq j)
  refine ⟨⟨h.ordered hr.toOrdered, hidx⟩, ?_, ?_, ?_, ?_, ?_⟩
  · intro a q
    constructor
    · rintro ⟨j, hj, rfl⟩
      rw [hmasked] at hj
      rw [hid]
      by_cases hji : j = i
      · rw [hji, Function.update_self] at hj
        exact Or.inr ⟨by rw [hji], (Option.some.inj hj).symm⟩
      · rw [Function.update_of_ne hji] at hj
        exact Or.inl ⟨j, hj, hid_of_ne j hji⟩
    · rintro (⟨j, hj, rfl⟩ | ⟨rfl, rfl⟩)
      · have hji : j ≠ i := by
          rintro rfl
          cases h.old.symm.trans hj
        refine ⟨j, ?_, ?_⟩
        · rw [hmasked, Function.update_of_ne hji, hj]
        · rw [hid, hid_of_ne j hji]
      · exact ⟨i, by rw [hmasked, Function.update_self], (hid i).symm⟩
  · rintro a ⟨hlt, ha⟩
    refine ⟨(hlt.trans_le h.size).trans_eq hlinks.size.symm, ?_⟩
    rw [hlinks.field Node.version (fun _ => rfl), hmasked, hlinks.freeNodes]
    by_cases hai : nodeIndex a = i
    · rw [hai] at hlt ha ⊢
      obtain ⟨hfree, hversion⟩ := h.recycled hlt
      rw [hversion]
      rcases ha with ha | ⟨_, _, ha⟩
      · exact Or.inl ha
      · exact absurd hfree ha
    · rw [h.node _ hai, Function.update_of_ne hai]
      exact ha.imp_right fun hold =>
        ⟨hold.1, hold.2.1, fun hmem => hold.2.2 (h.freeNodes.subset hmem)⟩
  · intro u w
    rw [hlinks.field Node.outSet (fun _ => rfl), h.field Node.outSet h.outSet]
  · intro j hj
    rw [hindex] at hj
    rw [hlinks.field Node.snapshot (fun _ => rfl), h.node j hj]
  · rw [hindex, hlinks.field Node.priority (fun _ => rfl), h.priority]

end Prepared

theorem node_append (r : Rep) (n : Node) (j : Nat) :
    ({ r with nodes := r.nodes ++ [n] } : Rep).node j = if j = r.size then n else r.node j := by
  simp only [node, size, List.getD_eq_getElem?_getD]
  rcases Nat.lt_trichotomy j r.nodes.length with hj | rfl | hj
  · rw [List.getElem?_append_left hj, if_neg hj.ne]
  · simp
  · rw [List.getElem?_append_right hj.le, if_neg hj.ne', List.getElem?_eq_none (by simp; omega),
      List.getElem?_eq_none hj.le]

/-- The node that `GetId` appends. -/
theorem prepared_new {r : Rep} (hr : r.Inv) (p : Addr) (hfree : r.freeNodes = [])
    (hsize : r.size < vecMaxSize) {n : Node} (version : n.version = 1) (rank : n.rank = r.size)
    (maskedPtr : n.maskedPtr = some p) (inSet : n.inSet = ∅) (outSet : n.outSet = ∅)
    (visited : n.visited = false) (priority : n.priority = 0) :
    Prepared p r.size r { r with nodes := r.nodes ++ [n] } := by
  have hlen : ({ r with nodes := r.nodes ++ [n] } : Rep).size = r.size + 1 := by simp [size]
  have hself := (node_append r n r.size).trans (if_pos rfl)
  have hother : ∀ j, j ≠ r.size → ({ r with nodes := r.nodes ++ [n] } : Rep).node j = r.node j :=
    fun j hj => (node_append r n j).trans (if_neg hj)
  have hold : r.node r.size = default := node_of_size_le le_rfl
  have hrank : ∀ j, ({ r with nodes := r.nodes ++ [n] } : Rep).rank j =
      if j = r.size then r.size else r.rank j := by
    intro j
    rw [Rep.rank, node_append]
    split_ifs
    · exact rank
    · rfl
  refine ⟨?_, ?_, ?_, ?_, ?_, ?_, rfl, hother, ?_, ?_, ?_, ?_, ?_, ?_, ?_, ?_, ?_, ?_, ?_, ?_⟩
  · omega
  · omega
  · omega
  · omega
  · exact List.Sublist.refl _
  · simp [hfree]
  · rw [hold]; rfl
  · rw [hself, maskedPtr]
  · rw [hself, version]; decide
  · rw [hself, version]; decide
  · omega
  · rw [hself, hold, inSet]; rfl
  · rw [hself, hold, outSet]; rfl
  · rw [hself, hold, visited]; rfl
  · rw [hself, priority]
  · intro j hj
    rw [hrank]
    split_ifs with h
    · omega
    · have := hr.rank_lt j (by omega)
      omega
  · intro j hj k hk hjk
    rw [hrank, hrank] at hjk
    simp only [Set.mem_ofPred_eq, hlen] at hj hk
    split_ifs at hjk with h₁ h₂ h₂
    · omega
    · have := hr.rank_lt k (by omega)
      omega
    · have := hr.rank_lt j (by omega)
      omega
    · exact hr.rank_inj (show j < r.size by omega) (show k < r.size by omega) hjk
  · intro j hj
    rw [hrank, if_neg (by omega)]

/-- The node that `GetId` takes from the free list. -/
theorem prepared_recycled {r : Rep} (hr : r.Inv) (p : Addr) {i : Nat} {freeNodes : List Nat}
    (hfree : r.freeNodes = i :: freeNodes) :
    Prepared p i r ({ r with freeNodes }.modify i fun n =>
      { n with maskedPtr := some p, priority := 0, threadId := none, holdLocksCount := 0 }) := by
  obtain ⟨hlt, hnone⟩ := hr.free i (by simp [hfree])
  have hlt' : i < ({ r with freeNodes } : Rep).size := hlt
  have hself := node_modify_self (fun n =>
    { n with maskedPtr := some p, priority := 0, threadId := none, holdLocksCount := 0 }) hlt'
  have hrank := modify_field Node.rank (f := fun n =>
    { n with maskedPtr := some p, priority := 0, threadId := none, holdLocksCount := 0 })
    (fun _ => rfl) { r with freeNodes } i
  have nodup := hr.free_nodup
  rw [hfree] at nodup
  refine ⟨?_, ?_, ?_, ?_, ?_, ?_, rfl, fun j hj => node_modify_of_ne _ hj, hnone, ?_, ?_, ?_, ?_,
    ?_, ?_, ?_, ?_, ?_, ?_, ?_⟩
  · exact (size_modify ..).ge
  · exact (size_modify ..).trans_le hr.size_le
  · exact hlt.trans_eq (size_modify ..).symm
  · intro j hj _
    exact hj.trans_eq (size_modify ..)
  · rw [hfree]
    exact List.sublist_cons_self ..
  · exact (List.nodup_cons.mp nodup).1
  · rw [hself]
  · rw [hself]
    exact hr.version_pos i hlt
  · rw [hself]
    exact hr.version_le i hlt
  · intro _
    rw [hself]
    exact ⟨by simp [hfree], rfl⟩
  · rw [hself]; rfl
  · rw [hself]; rfl
  · rw [hself]; rfl
  · rw [hself]
  · intro j hj
    rw [size_modify] at hj ⊢
    exact (hrank j).trans_lt (hr.rank_lt j hj)
  · rw [size_modify]
    intro j hj k hk hjk
    exact hr.rank_inj hj hk ((hrank j).symm.trans (hjk.trans (hrank k)))
  · exact fun j _ => hrank j

theorem unregistered_iff {r : Rep} {p : Addr} :
    (∀ id, ¬ r.Live id p) ↔ ∀ i, (r.node i).maskedPtr ≠ some p :=
  ⟨fun h i hi => h _ ⟨i, hi, rfl⟩, fun h _ ⟨i, hi, _⟩ => h i hi⟩

theorem getId_live {r : Rep} (hr : r.Indexed) {id : GraphId} {p : Addr} (h : r.Live id p)
    (maxLocks : Nat) (thread : ThreadId) : r.getId maxLocks thread p = some (id, r) := by
  obtain ⟨i, hi, rfl⟩ := h
  simp [getId, hr.find_eq_some hi, idOf]

/-- `GetId` takes the first node of the free list. -/
theorem getId_recycled {r : Rep} (hr : r.Inv) {p : Addr} (h : ∀ id, ¬ r.Live id p) {i : Nat}
    {freeNodes : List Nat} (hfree : r.freeNodes = i :: freeNodes) (maxLocks : Nat)
    (thread : ThreadId) :
    ∃ r', r.getId maxLocks thread p = some (r'.idOf i, r'.add p i) ∧ Prepared p i r r' ∧
      r'.size = r.size ∧ r'.freeNodes = freeNodes := by
  have hfind := hr.toIndexed.find_eq_none (unregistered_iff.mp h)
  have hversion := modify_field Node.version (f := fun n =>
    { n with maskedPtr := some p, priority := 0, threadId := none, holdLocksCount := 0 })
    (fun _ => rfl) { r with freeNodes } i i
  refine ⟨_, ?_, prepared_recycled hr p hfree, size_modify .., rfl⟩
  simp [getId, hfind, hfree, idOf, hversion]
  rfl

/-- `GetId` prepares a node for a pointer without an id and adds it to the map: `none` says that
`nodes_` cannot grow any more. -/
theorem getId_prepared {r : Rep} (hr : r.Inv) {p : Addr} (h : ∀ id, ¬ r.Live id p)
    (maxLocks : Nat) (thread : ThreadId) :
    (r.getId maxLocks thread p = none ∧ r.size = vecMaxSize ∧ r.freeNodes = []) ∨
      ∃ i r', r.getId maxLocks thread p = some (r'.idOf i, r'.add p i) ∧ Prepared p i r r' := by
  have hfind := hr.toIndexed.find_eq_none (unregistered_iff.mp h)
  cases hfree : r.freeNodes with
  | nil =>
    by_cases hsize : r.size < vecMaxSize
    · have hprep := prepared_new hr p hfree hsize (n :=
        { version := 1, rank := r.size, maskedPtr := some p, threadId := some thread
          holdLocks := List.replicate maxLocks {} }) rfl rfl rfl rfl rfl rfl rfl
      refine Or.inr ⟨_, _, ?_, hprep⟩
      rw [idOf, node_append, if_pos rfl]
      simp [getId, hfind, hfree, guard, hsize]
    · refine Or.inl ⟨?_, by have := hr.size_le; omega, rfl⟩
      simp [getId, hfind, hfree, guard, hsize]
  | cons i freeNodes =>
    obtain ⟨r', hget, hprep, -⟩ := getId_recycled hr h hfree maxLocks thread
    exact Or.inr ⟨i, r', hget, hprep⟩

theorem getId_fresh {r : Rep} (hr : r.Inv) {p : Addr} (h : ∀ id, ¬ r.Live id p)
    (maxLocks : Nat) (thread : ThreadId) :
    (r.getId maxLocks thread p = none ∧ r.size = vecMaxSize ∧ r.freeNodes = []) ∨
      ∃ id r', r.getId maxLocks thread p = some (id, r') ∧ Registered p id r r' := by
  obtain hfull | ⟨i, r', hget, hprep⟩ := getId_prepared hr h maxLocks thread
  · exact Or.inl hfull
  · exact Or.inr ⟨_, _, hget, hprep.registered hr (unregistered_iff.mp h)⟩

end Rep
end CppGuard
