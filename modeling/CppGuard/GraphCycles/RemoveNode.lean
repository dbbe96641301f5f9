import CppGuard.GraphCycles.GetId

/-!
# Correctness of `RemoveNode`

The node leaves its hash chain (`remove_present`), its edges go (`dropEdges`) and its slot
is given up (`vacate`). `Removed` is what follows for ids and edges.
-/
namespace CppGuard
namespace Rep

section Fold

variable (f : Node → Node)

theorem foldl_modify_fields (r : Rep) (ys : List Nat) :
    (ys.foldl (fun r y => r.modify y f) r).size = r.size ∧
      (ys.foldl (fun r y => r.modify y f) r).freeNodes = r.freeNodes ∧
      (ys.foldl (fun r y => r.modify y f) r).ptrmap = r.ptrmap := by
  induction ys generalizing r with
  | nil => exact ⟨rfl, rfl, rfl⟩
  | cons y ys ih =>
    rw [List.foldl_cons]
    simpa using ih (r.modify y f)

variable {f}

theorem foldl_modify_field {α : Type*} (g : Node → α) (hf : ∀ n, g (f n) = g n) (r : Rep)
    (ys : List Nat) (j : Nat) :
    g ((ys.foldl (fun r y => r.modify y f) r).node j) = g (r.node j) := by
  induction ys generalizing r with
  | nil => rfl
  | cons y ys ih =>
    rw [List.foldl_cons, ih, modify_field g hf]

/-- Erasing `i` from one of the edge sets of the nodes `ys`. -/
theorem mem_foldl_erase (g : Node → ValidNodeSet) {i : Nat} (hf : ∀ n, g (f n) = (g n).erase i)
    {r : Rep} {ys : List Nat} (lt : ∀ y ∈ ys, y < r.size) (u w : Nat) :
    u ∈ g ((ys.foldl (fun r y => r.modify y f) r).node w) ↔
      u ∈ g (r.node w) ∧ ¬ (u = i ∧ w ∈ ys) := by
  induction ys generalizing r with
  | nil => simp
  | cons y ys ih =>
    have hy : y < r.size := lt y (by simp)
    rw [List.foldl_cons, ih fun z hz => (lt z (by simp [hz])).trans_eq (size_modify r y f).symm,
      node_modify f hy]
    split_ifs with hw
    · rw [hf, ValidNodeSet.mem_erase]
      subst hw
      simp
      tauto
    · simp [hw]

end Fold

/-- `r'` is `r` with the node of `id` removed. -/
structure Removed (id : GraphId) (r r' : Rep) : Prop where
  inv : r'.Inv
  live : ∀ a q, r'.Live a q ↔ r.Live a q ∧ a ≠ id
  retired_self : r'.Retired id
  retired : ∀ a, r.Retired a → r'.Retired a
  outSet : ∀ u w, w ∈ (r'.node u).outSet ↔
    w ∈ (r.node u).outSet ∧ u ≠ nodeIndex id ∧ w ≠ nodeIndex id
  snapshot : ∀ i, (r'.node i).snapshot = (r.node i).snapshot

/-- `RemoveNode` behind `PointerMap::Remove`: drop the edges of the node `i`. -/
def dropEdges (r : Rep) (i : Nat) : Rep :=
  let r := (r.node i).outSet.elems.foldl
    (fun r y => r.modify y fun n => { n with inSet := n.inSet.erase i }) r
  let r := (r.node i).inSet.elems.foldl
    (fun r y => r.modify y fun n => { n with outSet := n.outSet.erase i }) r
  r.modify i fun n => { n with inSet := ∅, outSet := ∅, maskedPtr := none }

theorem removeNode_absent {r : Rep} (hr : r.Indexed) {p : Addr} (h : ∀ id, ¬ r.Live id p) :
    r.removeNode p = some r := by
  simp [removeNode, remove_absent hr (unregistered_iff.mp h)]

/-- A field other than the pointer and the edges is kept. -/
theorem dropEdges_field {α : Type*} (g : Node → α)
    (hg : ∀ n inSet outSet maskedPtr, g { n with inSet, outSet, maskedPtr } = g n) (r : Rep)
    (i j : Nat) : g ((r.dropEdges i).node j) = g (r.node j) := by
  rw [dropEdges, modify_field g (by exact fun n => hg n ..),
    foldl_modify_field g (by exact fun n => hg n ..),
    foldl_modify_field g (by exact fun n => hg n ..)]

theorem dropEdges_fields (r : Rep) (i : Nat) :
    (r.dropEdges i).size = r.size ∧ (r.dropEdges i).freeNodes = r.freeNodes ∧
      (r.dropEdges i).ptrmap = r.ptrmap := by
  obtain ⟨hsize₁, hfree₁, hmap₁⟩ := foldl_modify_fields
    (fun n => { n with inSet := n.inSet.erase i }) r (r.node i).outSet.elems
  set r₁ := (r.node i).outSet.elems.foldl
    (fun r y => r.modify y fun n => { n with inSet := n.inSet.erase i }) r with h₁
  obtain ⟨hsize₂, hfree₂, hmap₂⟩ := foldl_modify_fields
    (fun n => { n with outSet := n.outSet.erase i }) r₁ (r₁.node i).inSet.elems
  refine ⟨?_, hfree₂.trans hfree₁, hmap₂.trans hmap₁⟩
  rw [dropEdges, size_modify, ← h₁, hsize₂, hsize₁]

theorem dropEdges_maskedPtr {r : Rep} {i : Nat} (hi : i < r.size) (j : Nat) :
    ((r.dropEdges i).node j).maskedPtr =
      Function.update (fun j => (r.node j).maskedPtr) i none j := by
  rw [dropEdges,
    node_modify _ (by rwa [(foldl_modify_fields _ _ _).1, (foldl_modify_fields _ _ _).1])]
  split_ifs with h
  · rw [h, Function.update_self]
  · rw [Function.update_of_ne h, foldl_modify_field Node.maskedPtr (by exact fun _ => rfl),
      foldl_modify_field Node.maskedPtr (by exact fun _ => rfl)]

theorem dropEdges_sets {r : Rep} (hr : r.Ordered) {i : Nat} (hi : i < r.size) (u w : Nat) :
    (w ∈ ((r.dropEdges i).node u).outSet ↔ w ∈ (r.node u).outSet ∧ u ≠ i ∧ w ≠ i) ∧
      (u ∈ ((r.dropEdges i).node w).inSet ↔ u ∈ (r.node w).inSet ∧ u ≠ i ∧ w ≠ i) := by
  rw [dropEdges]
  set r₁ := (r.node i).outSet.elems.foldl
    (fun r y => r.modify y fun n => { n with inSet := n.inSet.erase i }) r with h₁
  have hsize : r₁.size = r.size := (foldl_modify_fields _ _ _).1
  have hout₁ : ∀ j, (r₁.node j).outSet = (r.node j).outSet :=
    foldl_modify_field Node.outSet (by exact fun _ => rfl) r _
  have hin₁ : ∀ u w, u ∈ (r₁.node w).inSet ↔
      u ∈ (r.node w).inSet ∧ ¬ (u = i ∧ w ∈ (r.node i).outSet) := by
    intro u w
    rw [mem_foldl_erase Node.inSet (by exact fun _ => rfl)
      fun y hy => hr.right_lt (ValidNodeSet.mem_elems.mp hy), ValidNodeSet.mem_elems]
  set r₂ := (r₁.node i).inSet.elems.foldl
    (fun r y => r.modify y fun n => { n with outSet := n.outSet.erase i }) r₁ with h₂
  have hsize₂ : r₂.size = r.size := ((foldl_modify_fields _ _ _).1).trans hsize
  have hin₂ : ∀ j, (r₂.node j).inSet = (r₁.node j).inSet :=
    foldl_modify_field Node.inSet (by exact fun _ => rfl) r₁ _
  have hout₂ : ∀ u w, w ∈ (r₂.node u).outSet ↔
      w ∈ (r.node u).outSet ∧ ¬ (w = i ∧ u ∈ (r₁.node i).inSet) := by
    intro u w
    rw [mem_foldl_erase Node.outSet (by exact fun _ => rfl), hout₁, ValidNodeSet.mem_elems]
    intro y hy
    have hyi := ((hin₁ y i).mp (ValidNodeSet.mem_elems.mp hy)).1
    exact (Edge.left_lt ((hr.symm y i).mpr hyi)).trans_eq hsize.symm
  have hsymm := hr.symm
  constructor
  · rw [node_modify _ (hi.trans_eq hsize₂.symm)]
    split_ifs with hu
    · simp [hu]
    · rw [hout₂, hin₁]
      grind
  · rw [node_modify _ (hi.trans_eq hsize₂.symm)]
    split_ifs with hw
    · simp [hw]
    · rw [hin₂, hin₁]
      grind

/-- The two ways a slot is left: retired at the largest version, or free at the next one. -/
def Vacated (i : Nat) (r r' : Rep) : Prop :=
  ((r.node i).version = maxVersion ∧ (r'.node i).version = (r.node i).version ∧
      r'.freeNodes = r.freeNodes) ∨
    ((r.node i).version < maxVersion ∧ (r'.node i).version = (r.node i).version + 1 ∧
      r'.freeNodes = i :: r.freeNodes)

section Removed

variable {r r' : Rep} (hr : r.Inv) {i : Nat} {p : Addr} (hi : (r.node i).maskedPtr = some p)
  (size : r'.size = r.size)
  (maskedPtr : ∀ j, (r'.node j).maskedPtr =
    Function.update (fun j => (r.node j).maskedPtr) i none j)
  (version : ∀ j, j ≠ i → (r'.node j).version = (r.node j).version)
  (vacated : Vacated i r r')
include hr hi size maskedPtr version vacated

theorem indexed_of_vacated (hashed : r'.Hashed fun j => (r'.node j).maskedPtr) : r'.Indexed := by
  have old : ∀ j q, (r'.node j).maskedPtr = some q → (r.node j).maskedPtr = some q := by
    intro j q hj
    rw [maskedPtr] at hj
    by_cases hji : j = i
    · rw [hji, Function.update_self] at hj
      cases hj
    · rwa [Function.update_of_ne hji] at hj
  have hlt := lt_size_of_maskedPtr hi
  have hpos := hr.version_pos i hlt
  refine ⟨size.trans_le hr.size_le, hashed, ?_, ?_, ?_, ?_, ?_⟩
  · exact fun j k q hj hk => hr.ptr_inj j k q (old j q hj) (old k q hk)
  · intro j hj
    by_cases hji : j = i
    · subst hji
      rcases vacated with ⟨_, hv, _⟩ | ⟨_, hv, _⟩ <;> omega
    · rw [version j hji]
      exact hr.version_pos j (size ▸ hj)
  · intro j hj
    by_cases hji : j = i
    · subst hji
      rcases vacated with ⟨_, hv, _⟩ | ⟨_, hv, _⟩ <;> omega
    · rw [version j hji]
      exact hr.version_le j (size ▸ hj)
  · rcases vacated with ⟨_, _, hfree⟩ | ⟨_, _, hfree⟩
    · exact hfree ▸ hr.free_nodup
    · rw [hfree]
      refine List.nodup_cons.mpr ⟨fun hmem => ?_, hr.free_nodup⟩
      cases (hr.free i hmem).2.symm.trans hi
  · have hself : (r'.node i).maskedPtr = none := by rw [maskedPtr, Function.update_self]
    intro j hj
    by_cases hji : j = i
    · exact ⟨by omega, hji ▸ hself⟩
    · have hmem : j ∈ r.freeNodes := by
        rcases vacated with ⟨_, _, hfree⟩ | ⟨_, _, hfree⟩
        · rwa [hfree] at hj
        · simpa [hfree, hji] using hj
      obtain ⟨hjlt, hnone⟩ := hr.free j hmem
      exact ⟨size ▸ hjlt, by rw [maskedPtr, Function.update_of_ne hji, hnone]⟩

omit size vacated in
theorem live_of_vacated (a : GraphId) (q : Addr) :
    r'.Live a q ↔ r.Live a q ∧ a ≠ r.idOf i := by
  have hid : ∀ j, j ≠ i → r'.idOf j = r.idOf j := fun j hj => congrArg (makeId j) (version j hj)
  constructor
  · rintro ⟨j, hj, rfl⟩
    rw [maskedPtr] at hj
    by_cases hji : j = i
    · rw [hji, Function.update_self] at hj
      cases hj
    · rw [Function.update_of_ne hji] at hj
      refine ⟨⟨j, hj, hid j hji⟩, fun heq => hji ?_⟩
      have := congrArg nodeIndex ((hid j hji).symm.trans heq)
      rwa [(hr.idOf_spec (lt_size_of_maskedPtr hj)).1,
        (hr.idOf_spec (lt_size_of_maskedPtr hi)).1] at this
  · rintro ⟨⟨j, hj, rfl⟩, hne⟩
    have hji : j ≠ i := fun hji => hne (by rw [hji])
    exact ⟨j, by rw [maskedPtr, Function.update_of_ne hji, hj], (hid j hji).symm⟩

theorem retired_of_vacated :
    r'.Retired (r.idOf i) ∧ ∀ a, r.Retired a → r'.Retired a := by
  have hlt := lt_size_of_maskedPtr hi
  obtain ⟨hindex, hversion, _⟩ := hr.idOf_spec hlt
  have hself : (r'.node i).maskedPtr = none := by rw [maskedPtr, Function.update_self]
  constructor
  · refine ⟨by rw [hindex, size]; exact hlt, ?_⟩
    rw [hindex, hversion, hself]
    rcases vacated with ⟨_, hv, hfree⟩ | ⟨_, hv, _⟩
    · refine Or.inr ⟨hv.symm, rfl, fun hmem => ?_⟩
      cases (hr.free i (hfree ▸ hmem)).2.symm.trans hi
    · exact Or.inl (by omega)
  · rintro a ⟨halt, ha⟩
    refine ⟨halt.trans_eq size.symm, ?_⟩
    by_cases hai : nodeIndex a = i
    · rw [hai] at ha ⊢
      rcases ha with ha | ⟨_, hnone, _⟩
      · rcases vacated with ⟨_, hv, _⟩ | ⟨_, hv, _⟩ <;> exact Or.inl (by omega)
      · cases hnone.symm.trans hi
    · rw [version _ hai, maskedPtr, Function.update_of_ne hai]
      refine ha.imp_right fun ⟨h₁, h₂, h₃⟩ => ⟨h₁, h₂, fun hmem => h₃ ?_⟩
      rcases vacated with ⟨_, _, hfree⟩ | ⟨_, _, hfree⟩
      · rwa [hfree] at hmem
      · simpa [hfree, hai] using hmem

end Removed

theorem SameButLinks.ordered {r r' : Rep} (h : SameButLinks r r') (hr : r.Ordered) :
    r'.Ordered := by
  have hout := h.field Node.outSet fun _ => rfl
  have hin := h.field Node.inSet fun _ => rfl
  refine hr.of_subgraph h.size (h.field Node.rank fun _ => rfl)
    (h.field Node.visited fun _ => rfl) ?_ ?_
  · intro u v
    rw [hout, hin]
    exact hr.symm u v
  · intro u v huv
    rw [Edge, hout] at huv
    exact huv

/-- `RemoveNode` behind `dropEdges`: give the slot a new version, unless there is none. -/
def vacate (r : Rep) (i : Nat) : Rep :=
  if (r.node i).version = maxVersion then r
  else
    let r := r.modify i fun n => { n with version := n.version + 1 }
    { r with freeNodes := i :: r.freeNodes }

theorem vacate_field {α : Type*} (g : Node → α)
    (hg : ∀ n version, g { n with version } = g n) (r : Rep) (i j : Nat) :
    g ((r.vacate i).node j) = g (r.node j) := by
  rw [vacate]
  split_ifs
  · rfl
  · exact modify_field g (by exact fun n => hg n _) r i j

theorem vacate_ptrmap (r : Rep) (i : Nat) : (r.vacate i).ptrmap = r.ptrmap := by
  rw [vacate]
  split_ifs <;> rfl

theorem vacate_spec {r : Rep} {i : Nat} (hi : i < r.size)
    (hv : (r.node i).version ≤ maxVersion) :
    (r.vacate i).size = r.size ∧
      (∀ j, j ≠ i → ((r.vacate i).node j).version = (r.node j).version) ∧
      Vacated i r (r.vacate i) := by
  rw [vacate]
  split_ifs with h
  · exact ⟨rfl, fun _ _ => rfl, Or.inl ⟨h, rfl, rfl⟩⟩
  · refine ⟨size_modify .., fun j hj => ?_, Or.inr ⟨by omega, ?_, rfl⟩⟩
    · exact congrArg Node.version (node_modify_of_ne _ hj)
    · exact congrArg Node.version (node_modify_self (fun n =>
        { n with version := n.version + 1 }) hi)

/-- The steps of `RemoveNode` for a pointer with a node. -/
theorem removeNode_eq {r : Rep} (hr : r.Indexed) {i : Nat} {p : Addr}
    (hi : (r.node i).maskedPtr = some p) :
    ∃ r₁, r.removeNode p = some ((r₁.dropEdges i).vacate i) ∧ SameButLinks r r₁ ∧
      r₁.Hashed (Function.update (fun j => (r.node j).maskedPtr) i none) := by
  obtain ⟨r₁, hremove, hlinks, hhashed⟩ := remove_present hr hi
  refine ⟨r₁, ?_, hlinks, hhashed⟩
  rw [removeNode, hremove, vacate, apply_ite some]
  rfl

/-- The versions behind `RemoveNode`. -/
theorem vacated_of_removeNode {r r₁ : Rep} (hr : r.Indexed) {i : Nat} {p : Addr}
    (hi : (r.node i).maskedPtr = some p) (hlinks : SameButLinks r r₁) :
    ((r₁.dropEdges i).vacate i).size = r.size ∧
      (∀ j, j ≠ i → (((r₁.dropEdges i).vacate i).node j).version = (r.node j).version) ∧
      Vacated i r ((r₁.dropEdges i).vacate i) := by
  have hlt := lt_size_of_maskedPtr hi
  obtain ⟨hsize₂, hfree₂, -⟩ := dropEdges_fields r₁ i
  have hversion₂ : ∀ j, ((r₁.dropEdges i).node j).version = (r.node j).version := fun j =>
    (dropEdges_field Node.version (by exact fun _ _ _ _ => rfl) r₁ i j).trans
      (hlinks.field Node.version (fun _ => rfl) j)
  obtain ⟨hsize₃, hversion₃, hvacated⟩ := vacate_spec (r := r₁.dropEdges i) (i := i)
    (by rw [hsize₂, hlinks.size]; exact hlt) ((hversion₂ i).trans_le (hr.version_le i hlt))
  refine ⟨hsize₃.trans (hsize₂.trans hlinks.size),
    fun j hj => (hversion₃ j hj).trans (hversion₂ j), ?_⟩
  simpa only [Vacated, hversion₂, hfree₂.trans hlinks.freeNodes] using hvacated

theorem removeNode_present {r : Rep} (hr : r.Inv) {id : GraphId} {p : Addr} (h : r.Live id p) :
    ∃ r', r.removeNode p = some r' ∧ Removed id r r' := by
  obtain ⟨i, hi, rfl⟩ := h
  have hlt := lt_size_of_maskedPtr hi
  obtain ⟨r₁, hremove, hlinks, hhashed⟩ := removeNode_eq hr.toIndexed hi
  obtain ⟨hsize, hversion, vacated⟩ := vacated_of_removeNode hr.toIndexed hi hlinks
  have hlt₁ : i < r₁.size := hlinks.size ▸ hlt
  set r₂ := r₁.dropEdges i with h₂
  set r₃ := r₂.vacate i with h₃
  have field : ∀ {α : Type} (g : Node → α), (∀ n, g n.unlinked = g n) →
      (∀ n inSet outSet maskedPtr, g { n with inSet, outSet, maskedPtr } = g n) →
      (∀ n version, g { n with version } = g n) → ∀ j, g (r₃.node j) = g (r.node j) :=
    fun g hg hg' hg'' j => (vacate_field g hg'' r₂ i j).trans
      ((dropEdges_field g hg' r₁ i j).trans (hlinks.field g hg j))
  have hout : ∀ u w, w ∈ (r₃.node u).outSet ↔ w ∈ (r.node u).outSet ∧ u ≠ i ∧ w ≠ i := by
    intro u w
    rw [vacate_field Node.outSet (by exact fun _ _ => rfl),
      (dropEdges_sets (hlinks.ordered hr.toOrdered) hlt₁ u w).1,
      hlinks.field Node.outSet fun _ => rfl]
  have hin : ∀ u w, u ∈ (r₃.node w).inSet ↔ u ∈ (r.node w).inSet ∧ u ≠ i ∧ w ≠ i := by
    intro u w
    rw [vacate_field Node.inSet (by exact fun _ _ => rfl),
      (dropEdges_sets (hlinks.ordered hr.toOrdered) hlt₁ u w).2,
      hlinks.field Node.inSet fun _ => rfl]
  have hmasked : ∀ j, (r₃.node j).maskedPtr =
      Function.update (fun j => (r.node j).maskedPtr) i none j := by
    intro j
    rw [vacate_field Node.maskedPtr (by exact fun _ _ => rfl), dropEdges_maskedPtr hlt₁,
      funext hlinks.maskedPtr]
  have hashed : r₃.Hashed fun j => (r₃.node j).maskedPtr := by
    have hnext : ∀ j, (r₃.node j).nextHash = (r₁.node j).nextHash := fun j =>
      (vacate_field Node.nextHash (by exact fun _ _ => rfl) r₂ i j).trans
        (dropEdges_field Node.nextHash (by exact fun _ _ _ _ => rfl) r₁ i j)
    have hmap : r₃.ptrmap = r₁.ptrmap := (vacate_ptrmap r₂ i).trans (dropEdges_fields r₁ i).2.2
    simp only [Hashed, hnext, hmap, hmasked]
    exact hhashed
  have ordered : r₃.Ordered := by
    refine hr.toOrdered.of_subgraph hsize ?_ ?_ ?_ fun u v huv => ((hout u v).mp huv).1
    · exact field Node.rank (fun _ => rfl) (fun _ _ _ _ => rfl) (fun _ _ => rfl)
    · exact field Node.visited (fun _ => rfl) (fun _ _ _ _ => rfl) (fun _ _ => rfl)
    · intro u v
      rw [hout, hin, hr.symm]
  obtain ⟨hself, hretired⟩ := retired_of_vacated hr hi hsize hmasked hversion vacated
  have hindex : nodeIndex (r.idOf i) = i := (hr.idOf_spec hlt).1
  refine ⟨r₃, hremove, ⟨⟨ordered, indexed_of_vacated hr hi hsize hmasked hversion vacated hashed⟩,
    live_of_vacated hr hi hmasked hversion, hself, hretired, ?_, ?_⟩⟩
  · rw [hindex]
    exact hout
  · exact field Node.snapshot (fun _ => rfl) (fun _ _ _ _ => rfl) (fun _ _ => rfl)

end Rep
end CppGuard
