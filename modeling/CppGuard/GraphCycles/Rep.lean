import CppGuard.SynchLocksHeld
import CppGuard.GraphCycles.NodeSet.Valid

/-!
# The representation of the lock graph

`Node`, `PointerMap` and `GraphCycles::Rep`. Node indices, ranks and versions are
natural numbers; the widths of the packed graph id are explicit in `makeId` and its
projections. An index that is `-1` in the source is `none`.

The scratch vectors of `Rep` (`deltaf_`, `deltab_`, `list_`, `merged_`, `stack_`) are
cleared before every use, so the searches pass them as values. `free_nodes_` and the
search stacks are lists with the back of the vector at the head. Of the vectors only `nodes_`
has a limit here; `Bounded` has the operations with the limits of all vectors and node tables.
-/
namespace CppGuard

structure Node where
  /-- Rank number assigned by the Pearce-Kelly algorithm. -/
  rank : Nat := 0
  version : Nat := 0
  nextHash : Option Nat := none
  /-- Temporary marker used by depth-first-search. -/
  visited : Bool := false
  maskedPtr : Option Addr := none
  inSet : ValidNodeSet := ∅
  outSet : ValidNodeSet := ∅
  /-- Priority of the recorded snapshot. -/
  priority : Nat := 0
  holdLocksCount : Nat := 0
  holdLocks : List LockT := []
  threadId : Option ThreadId := none

instance : Inhabited Node := ⟨{}⟩

structure Rep where
  nodes : List Node := []
  freeNodes : List Nat := []
  /-- The bucket heads of `ptrmap_`. -/
  ptrmap : Nat → Option Nat := fun _ => none

namespace Rep

def size (r : Rep) : Nat := r.nodes.length

def node (r : Rep) (i : Nat) : Node := r.nodes.getD i default

def modify (r : Rep) (i : Nat) (f : Node → Node) : Rep :=
  { r with nodes := r.nodes.modify i f }

@[simp] theorem size_modify (r : Rep) (i : Nat) (f : Node → Node) :
    (r.modify i f).size = r.size := by
  simp [size, modify]

@[simp] theorem freeNodes_modify (r : Rep) (i : Nat) (f : Node → Node) :
    (r.modify i f).freeNodes = r.freeNodes := rfl

@[simp] theorem ptrmap_modify (r : Rep) (i : Nat) (f : Node → Node) :
    (r.modify i f).ptrmap = r.ptrmap := rfl

theorem node_of_size_le {r : Rep} {i : Nat} (h : r.size ≤ i) : r.node i = default := by
  rw [node, List.getD_eq_getElem?_getD, List.getElem?_eq_none h, Option.getD_none]

theorem node_modify_self {r : Rep} {i : Nat} (f : Node → Node) (h : i < r.size) :
    (r.modify i f).node i = f (r.node i) := by
  simp [node, modify, List.getD_eq_getElem?_getD, List.getElem?_eq_getElem h]

theorem node_modify_of_ne {r : Rep} {i j : Nat} (f : Node → Node) (h : j ≠ i) :
    (r.modify i f).node j = r.node j := by
  simp [node, modify, List.getD_eq_getElem?_getD, Ne.symm h]

theorem node_modify {r : Rep} {i : Nat} (f : Node → Node) (hi : i < r.size) (j : Nat) :
    (r.modify i f).node j = if j = i then f (r.node j) else r.node j := by
  split_ifs with h
  · rw [h, node_modify_self f hi]
  · exact node_modify_of_ne f h

/-- A field that `f` keeps is kept by `modify`. -/
theorem modify_field {α : Type*} (g : Node → α) {f : Node → Node} (hf : ∀ n, g (f n) = g n)
    (r : Rep) (i j : Nat) : g ((r.modify i f).node j) = g (r.node j) := by
  by_cases h : j = i
  · by_cases hi : i < r.size
    · rw [h, node_modify_self f hi, hf]
    · subst h
      rw [node_of_size_le (by simpa using hi), node_of_size_le (Nat.le_of_not_lt hi)]
  · rw [node_modify_of_ne f h]

end Rep

/-! ## Graph ids -/

/-- A node index and a version in one id: `version << 32 | index`. -/
def makeId (index version : Nat) : GraphId := version % 2 ^ 32 * 2 ^ 32 + index % 2 ^ 32

def nodeIndex (id : GraphId) : Nat := id % 2 ^ 32

def nodeVersion (id : GraphId) : Nat := id / 2 ^ 32 % 2 ^ 32

/-- The largest `version`; a node that reaches it is never used again. -/
def maxVersion : Nat := 2 ^ 32 - 1

/-- A `Vec` cannot hold more elements: `Grow` doubles a `uint32_t` capacity, which wraps
to 0 behind this size, and then its loop does not end. -/
def vecMaxSize : Nat := 2 ^ 31

theorem nodeIndex_makeId {index version : Nat} (h : index < vecMaxSize) :
    nodeIndex (makeId index version) = index := by
  simp only [nodeIndex, makeId, vecMaxSize] at *; omega

theorem nodeVersion_makeId {index version : Nat} (hv : version ≤ maxVersion) :
    nodeVersion (makeId index version) = version := by
  simp only [nodeVersion, makeId, maxVersion] at *; omega

theorem makeId_ne_zero {index version : Nat} (hv : version ≤ maxVersion) (pos : 0 < version) :
    makeId index version ≠ invalidGraphId := by
  have : 0 < version % 2 ^ 32 := by rw [maxVersion] at hv; omega
  exact Nat.ne_of_gt (Nat.add_pos_left (Nat.mul_pos this (by decide)) _)

/-- `FindNode`: the node of an id, unless the id is stale. Ids come from `GetId`, so the
index is in range; the test for it only makes the function total. -/
def Rep.findNode (r : Rep) (id : GraphId) : Option Nat :=
  if nodeIndex id < r.size ∧ (r.node (nodeIndex id)).version = nodeVersion id
  then some (nodeIndex id) else none

theorem Rep.findNode_eq_some {r : Rep} {id : GraphId} {i : Nat} :
    r.findNode id = some i ↔
      nodeIndex id = i ∧ i < r.size ∧ (r.node i).version = nodeVersion id := by
  simp only [findNode]
  split_ifs with h
  · constructor
    · intro e
      obtain rfl := Option.some.inj e
      exact ⟨rfl, h.1, h.2⟩
    · rintro ⟨rfl, _⟩
      rfl
  · constructor
    · intro e; cases e
    · rintro ⟨rfl, h1, h2⟩
      exact absurd ⟨h1, h2⟩ h

theorem Rep.findNode_makeId {r : Rep} {i : Nat} (hi : i < r.size) (hsize : r.size ≤ vecMaxSize)
    (hv : (r.node i).version ≤ maxVersion) :
    r.findNode (makeId i (r.node i).version) = some i :=
  findNode_eq_some.mpr ⟨nodeIndex_makeId (by omega), hi, (nodeVersion_makeId hv).symm⟩

/-! ## `PointerMap` -/

def kHashTableSize : Nat := 8171

def ptrHash (ptr : Addr) : Nat := ptr % kHashTableSize

namespace Rep

/-- The loop of `PointerMap::Find`, entered with the index `i`. -/
def findFrom (r : Rep) (ptr : Addr) : Nat → Option Nat → Option (Option Nat)
  | _, none => some none
  | 0, some _ => none
  | fuel + 1, some i =>
    if (r.node i).maskedPtr = some ptr then some (some i)
    else r.findFrom ptr fuel (r.node i).nextHash

def find (r : Rep) (ptr : Addr) : Option (Option Nat) :=
  r.findFrom ptr r.size (r.ptrmap (ptrHash ptr))

def add (r : Rep) (ptr : Addr) (i : Nat) : Rep :=
  let r' := r.modify i fun n => { n with nextHash := r.ptrmap (ptrHash ptr) }
  { r' with ptrmap := Function.update r.ptrmap (ptrHash ptr) (some i) }

/-- A cell that holds a link of the hash chains. -/
inductive Link where
  | head (bucket : Nat)
  | after (index : Nat)

def readLink (r : Rep) : Link → Option Nat
  | .head bucket => r.ptrmap bucket
  | .after index => (r.node index).nextHash

def writeLink (r : Rep) (l : Link) (i : Option Nat) : Rep :=
  match l with
  | .head bucket => { r with ptrmap := Function.update r.ptrmap bucket i }
  | .after index => r.modify index fun n => { n with nextHash := i }

/-- The loop of `PointerMap::Remove`; `slot` is the link that points to the current entry. -/
def removeFrom (r : Rep) (ptr : Addr) (fuel : Nat) (slot : Link) : Option (Option Nat × Rep) :=
  match r.readLink slot with
  | none => some (none, r)
  | some index =>
    match fuel with
    | 0 => none
    | fuel + 1 =>
      if (r.node index).maskedPtr = some ptr then
        let r' := r.writeLink slot (r.node index).nextHash
        some (some index, r'.modify index fun n => { n with nextHash := none })
      else r.removeFrom ptr fuel (.after index)

def remove (r : Rep) (ptr : Addr) : Option (Option Nat × Rep) :=
  r.removeFrom ptr r.size (.head (ptrHash ptr))

end Rep

end CppGuard
