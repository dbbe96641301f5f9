import CppGuard.GraphCycles.PointerMap

/-!
# Live and retired ids

An id that `GetId` has returned is `Live` until its pointer is removed and `Retired` from
then on. No operation revives a retired id: a slot comes back with a larger version, and a
slot at the largest version does not come back.
-/
namespace CppGuard

/-- What `UpdateStackTrace` records in a node. -/
def Node.snapshot (n : Node) : Node :=
  { priority := n.priority, holdLocksCount := n.holdLocksCount, holdLocks := n.holdLocks
    threadId := n.threadId }

namespace Rep

def Live (r : Rep) (id : GraphId) (p : Addr) : Prop :=
  ∃ i, (r.node i).maskedPtr = some p ∧ id = r.idOf i

def Retired (r : Rep) (id : GraphId) : Prop :=
  nodeIndex id < r.size ∧
    (nodeVersion id < (r.node (nodeIndex id)).version ∨
      nodeVersion id = (r.node (nodeIndex id)).version ∧
        (r.node (nodeIndex id)).maskedPtr = none ∧ nodeIndex id ∉ r.freeNodes)

section Indexed

variable {r : Rep} (hr : r.Indexed) {id id' : GraphId} {p q : Addr}
include hr

theorem Indexed.idOf_spec {i : Nat} (hi : i < r.size) :
    nodeIndex (r.idOf i) = i ∧ nodeVersion (r.idOf i) = (r.node i).version ∧
      r.idOf i ≠ invalidGraphId :=
  ⟨nodeIndex_makeId (hi.trans_le hr.size_le), nodeVersion_makeId (hr.version_le i hi),
    makeId_ne_zero (hr.version_le i hi) (hr.version_pos i hi)⟩

theorem Live.at_index (h : r.Live id p) :
    (r.node (nodeIndex id)).maskedPtr = some p ∧ id = r.idOf (nodeIndex id) := by
  obtain ⟨i, hi, rfl⟩ := h
  rw [(hr.idOf_spec (lt_size_of_maskedPtr hi)).1]
  exact ⟨hi, rfl⟩

theorem Live.findNode (h : r.Live id p) : r.findNode id = some (nodeIndex id) := by
  obtain ⟨i, hi, rfl⟩ := h
  have hlt := lt_size_of_maskedPtr hi
  rw [(hr.idOf_spec hlt).1]
  exact findNode_makeId hlt hr.size_le (hr.version_le i hlt)

theorem Live.ptr_eq (h : r.Live id p) : r.ptr id = some p := by
  simp [ptr, h.findNode hr, (h.at_index hr).1]

theorem Live.ne_invalid (h : r.Live id p) : id ≠ invalidGraphId := by
  obtain ⟨i, hi, rfl⟩ := h
  exact (hr.idOf_spec (lt_size_of_maskedPtr hi)).2.2

theorem Live.addr_inj (h : r.Live id p) (h' : r.Live id q) : p = q :=
  Option.some.inj ((h.ptr_eq hr).symm.trans (h'.ptr_eq hr))

theorem Live.id_inj (h : r.Live id p) (h' : r.Live id' p) : id = id' := by
  obtain ⟨i, hi, rfl⟩ := h
  obtain ⟨j, hj, rfl⟩ := h'
  rw [hr.ptr_inj i j p hi hj]

omit hr in
theorem Retired.ptr_eq (h : r.Retired id) : r.ptr id = none := by
  obtain ⟨_, hlt | ⟨_, hnone, _⟩⟩ := h
  · have : r.findNode id = none := by
      rw [Rep.findNode, if_neg]
      rintro ⟨_, heq⟩
      omega
    simp [ptr, this]
  · cases hf : r.findNode id with
    | none => simp [ptr, hf]
    | some i =>
      obtain ⟨rfl, _⟩ := findNode_eq_some.mp hf
      simp [ptr, hf, hnone]

theorem Retired.not_live (h : r.Retired id) : ¬ r.Live id p := by
  intro hl
  have := h.ptr_eq.symm.trans (hl.ptr_eq hr)
  cases this

end Indexed

theorem SameIndex.live {r r' : Rep} (h : SameIndex r r') (id : GraphId) (p : Addr) :
    r'.Live id p ↔ r.Live id p := by
  simp only [Live, idOf, h.maskedPtr, h.version]

theorem SameIndex.retired {r r' : Rep} (h : SameIndex r r') (id : GraphId) :
    r'.Retired id ↔ r.Retired id := by
  simp only [Retired, h.size, h.maskedPtr, h.version, h.freeNodes]

end Rep
end CppGuard
