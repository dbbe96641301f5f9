import CppGuard.GraphCycles.StaleIds

/-!
# How many nodes the graph has

A slot of `nodes_` is registered, free or spent, and `nodes_` grows only when no slot is free. So
there are as many slots as pointers were ever registered at the same time, and the spent ones. Every
spent slot has gone through all the versions, and each of these took a `RemoveNode`.
-/
namespace CppGuard
namespace Rep
open Transition

/-! ## What a call does to the slots -/

/-- The slot `i` has the pointer `ptr` and the version `version` in `r'`, and is free if `free`.
The other slots are those of `r`. -/
structure SlotSet (i : Nat) (ptr : Option Addr) (version : Nat) (free : Prop) (r r' : Rep) :
    Prop where
  size : r'.size = max r.size (i + 1)
  maskedPtr : ∀ j, (r'.node j).maskedPtr = if j = i then ptr else (r.node j).maskedPtr
  version : ∀ j, (r'.node j).version = if j = i then version else (r.node j).version
  freeNodes : ∀ j, j ∈ r'.freeNodes ↔ if j = i then free else j ∈ r.freeNodes

variable {r r' : Rep} {p : Addr}

theorem Prepared.slotSet {i : Nat} (h : Prepared p i r r') (size : r'.size = max r.size (i + 1))
    (freeNodes : ∀ j, j ≠ i → (j ∈ r'.freeNodes ↔ j ∈ r.freeNodes)) :
    SlotSet i (some p) (r'.node i).version False r (r'.add p i) := by
  have hlinks := sameButLinks_add r' p i
  refine ⟨hlinks.size.trans size, fun j => ?_, fun j => ?_, fun j => ?_⟩
  · rw [hlinks.maskedPtr]
    split_ifs with hj
    · rw [hj, h.maskedPtr]
    · rw [h.node j hj]
  · rw [hlinks.field Node.version fun _ => rfl]
    split_ifs with hj
    · rw [hj]
    · rw [h.node j hj]
  · rw [hlinks.freeNodes]
    split_ifs with hj
    · simp [hj, h.notMem]
    · exact freeNodes j hj

/-- `GetId` of a new pointer takes a free slot if there is one, and appends one otherwise. -/
theorem getId_slots (hr : r.Inv) (h : ∀ id, ¬ r.Live id p) (maxLocks : Nat) (thread : ThreadId) :
    (r.getId maxLocks thread p = none ∧ r.freeNodes = [] ∧ r.size = vecMaxSize) ∨
      ∃ i id r', r.getId maxLocks thread p = some (id, r') ∧
        ((r.freeNodes = [] ∧ i = r.size ∧ SlotSet i (some p) 1 False r r') ∨
          (i ∈ r.freeNodes ∧ SlotSet i (some p) (r.node i).version False r r')) := by
  have hfind := hr.toIndexed.find_eq_none (unregistered_iff.mp h)
  cases hfree : r.freeNodes with
  | nil =>
    by_cases hsize : r.size < vecMaxSize
    · have hprep := prepared_new hr p hfree hsize (n :=
        { version := 1, rank := r.size, maskedPtr := some p, threadId := some thread
          holdLocks := List.replicate maxLocks {} }) rfl rfl rfl rfl rfl rfl rfl
      have hslots := hprep.slotSet (by simp [Rep.size]) fun _ _ => Iff.rfl
      rw [node_append, if_pos rfl] at hslots
      refine Or.inr ⟨r.size, makeId r.size 1, _, ?_, Or.inl ⟨rfl, rfl, hslots⟩⟩
      simp [getId, hfind, hfree, guard, hsize]
    · refine Or.inl ⟨?_, rfl, by have := hr.size_le; omega⟩
      simp [getId, hfind, hfree, guard, hsize]
  | cons i freeNodes =>
    obtain ⟨r', hget, hprep, hsize, hfree'⟩ := getId_recycled hr h hfree maxLocks thread
    have hi := (hr.free i (by simp [hfree])).1
    have hslots := hprep.slotSet (by omega) fun j hj => by simp [hfree', hfree, hj]
    rw [(hprep.recycled hi).2] at hslots
    exact Or.inr ⟨i, _, _, hget, Or.inr ⟨by simp, hslots⟩⟩

/-- `RemoveNode` leaves a slot of a pointer free, with the next version, or spent. -/
theorem removeNode_slots (hr : r.Inv) {id : GraphId} (h : r.Live id p) :
    ∃ i r', r.removeNode p = some r' ∧ (r.node i).maskedPtr = some p ∧
      (((r.node i).version = maxVersion ∧
          SlotSet i none maxVersion (i ∈ r.freeNodes) r r') ∨
        ((r.node i).version < maxVersion ∧
          SlotSet i none ((r.node i).version + 1) True r r')) := by
  obtain ⟨i, hi, -⟩ := h
  have hlt := lt_size_of_maskedPtr hi
  obtain ⟨r₁, heq, hlinks, -⟩ := removeNode_eq hr.toIndexed hi
  obtain ⟨hsize, hversion, hvacated⟩ := vacated_of_removeNode hr.toIndexed hi hlinks
  have hmasked : ∀ j, (((r₁.dropEdges i).vacate i).node j).maskedPtr =
      if j = i then none else (r.node j).maskedPtr := by
    intro j
    rw [vacate_field Node.maskedPtr (by exact fun _ _ => rfl),
      dropEdges_maskedPtr (hlinks.size.symm ▸ hlt), Function.update_apply, hlinks.maskedPtr]
  refine ⟨i, _, heq, hi, ?_⟩
  obtain ⟨hmax, hsame, hfree⟩ | ⟨hmax, hnext, hfree⟩ := hvacated
  · refine Or.inl ⟨hmax, ⟨by omega, hmasked, fun j => ?_, fun j => ?_⟩⟩
    · split_ifs with hj
      · rw [hj, hsame, hmax]
      · exact hversion j hj
    · rw [hfree]
      split_ifs with hj
      · rw [hj]
      · rfl
  · refine Or.inr ⟨hmax, ⟨by omega, hmasked, fun j => ?_, fun j => ?_⟩⟩
    · split_ifs with hj
      · rw [hj, hnext]
      · exact hversion j hj
    · rw [hfree, List.mem_cons]
      split_ifs with hj
      · simp [hj]
      · simp [hj]

/-! ## The slots of a state -/

/-- No pointer is registered in the slot, and `GetId` does not take it any more. -/
def Spent (r : Rep) (i : Nat) : Prop := (r.node i).maskedPtr = none ∧ i ∉ r.freeNodes

instance (r : Rep) : DecidablePred r.Spent := fun _ => inferInstanceAs (Decidable (_ ∧ _))

def spent (r : Rep) : Finset Nat := (Finset.range r.size).filter r.Spent

/-- How often a pointer was removed from the slot. -/
def vacations (r : Rep) (i : Nat) : Nat :=
  (r.node i).version - 1 + if r.Spent i then 1 else 0

/-- The pointers `s` are registered, at most `peak` ones at the same time, and there were `removed`
calls of `RemoveNode`. -/
structure Balanced (r : Rep) (s : Finset Addr) (peak removed : Nat) : Prop where
  inv : r.Inv
  registered : ∀ p, p ∈ s ↔ ∃ id, r.Live id p
  version : ∀ i ∈ r.spent, (r.node i).version = maxVersion
  vacations_le : ∑ i ∈ Finset.range r.size, r.vacations i ≤ removed
  size_le : r.size ≤ peak + r.spent.card
  le_size : peak ≤ r.size

theorem mem_spent {i : Nat} : i ∈ r.spent ↔ i < r.size ∧ r.Spent i := by
  simp [spent]

/-- A slot is registered, free or spent. -/
theorem card_slots (hr : r.Inv) {s : Finset Addr} (h : ∀ p, p ∈ s ↔ ∃ id, r.Live id p) :
    r.size = s.card + r.freeNodes.length + r.spent.card := by
  set used := (Finset.range r.size).filter fun i => ((r.node i).maskedPtr).isSome = true with hused
  set rest := (Finset.range r.size).filter fun i => ¬ ((r.node i).maskedPtr).isSome = true
    with hrest
  have hsplit : used.card + rest.card = r.size := by
    rw [hused, hrest, Finset.card_filter_add_card_filter_not, Finset.card_range]
  have hs : used.card = s.card := by
    refine Finset.card_nbij (fun i => ((r.node i).maskedPtr).getD 0) ?_ ?_ ?_
    · intro i hi
      obtain ⟨-, hsome⟩ := Finset.mem_filter.mp hi
      obtain ⟨q, hq⟩ := Option.isSome_iff_exists.mp hsome
      simp only [hq, Option.getD_some]
      exact (h q).mpr ⟨_, i, hq, rfl⟩
    · intro i hi j hj hij
      obtain ⟨q, hq⟩ := Option.isSome_iff_exists.mp (Finset.mem_filter.mp hi).2
      obtain ⟨q', hq'⟩ := Option.isSome_iff_exists.mp (Finset.mem_filter.mp hj).2
      simp only [hq, hq', Option.getD_some] at hij
      exact hr.ptr_inj i j q hq (hij ▸ hq')
    · intro q hq
      obtain ⟨_, i, hi, -⟩ := (h q).mp hq
      refine ⟨i, ?_, by simp [hi]⟩
      simp [hused, hi, lt_size_of_maskedPtr hi]
  have hfree : rest.card = r.freeNodes.length + r.spent.card := by
    rw [← List.toFinset_card_of_nodup hr.free_nodup, ← Finset.card_union_of_disjoint]
    · congr 1
      ext i
      simp only [hrest, Finset.mem_filter, Finset.mem_range, Finset.mem_union, List.mem_toFinset,
        mem_spent, Spent, Option.not_isSome_iff_eq_none]
      constructor
      · rintro ⟨hi, hnone⟩
        by_cases hmem : i ∈ r.freeNodes
        · exact Or.inl hmem
        · exact Or.inr ⟨hi, hnone, hmem⟩
      · rintro (hmem | ⟨hi, hnone, -⟩)
        · exact hr.free i hmem
        · exact ⟨hi, hnone⟩
    · rw [Finset.disjoint_left]
      intro i hi hspent
      exact (mem_spent.mp hspent).2.2 (List.mem_toFinset.mp hi)
  omega

/-- A spent slot has gone through all the versions. -/
theorem Balanced.spent_mul_le {s : Finset Addr} {peak removed : Nat}
    (h : Balanced r s peak removed) : r.spent.card * maxVersion ≤ removed := by
  have hterm : ∀ i ∈ r.spent, r.vacations i = maxVersion := by
    intro i hi
    rw [vacations, h.version i hi, if_pos (mem_spent.mp hi).2]
    rfl
  calc r.spent.card * maxVersion = ∑ i ∈ r.spent, r.vacations i := by
        rw [Finset.sum_congr rfl hterm, Finset.sum_const, smul_eq_mul]
    _ ≤ ∑ i ∈ Finset.range r.size, r.vacations i :=
        Finset.sum_le_sum_of_subset (Finset.filter_subset _ _)
    _ ≤ removed := h.vacations_le

theorem Balanced.version_le {s : Finset Addr} {peak removed i : Nat}
    (h : Balanced r s peak removed) (hi : i < r.size) : (r.node i).version ≤ removed + 1 := by
  have hterm := Finset.single_le_sum (f := r.vacations) (fun _ _ => Nat.zero_le _)
    (Finset.mem_range.mpr hi)
  have := h.vacations_le
  rw [vacations] at hterm
  omega

/-! ## Steps -/

/-- The registered pointers behind a call. -/
def register (s : Finset Addr) : Op → Finset Addr
  | .getId _ ptr => insert ptr s
  | .removeNode ptr => s.erase ptr
  | _ => s

def Op.isRemoveNode : Op → Bool
  | .removeNode _ => true
  | _ => false

theorem exists_live_iff : (∃ id, r.Live id p) ↔ ∃ i, (r.node i).maskedPtr = some p :=
  ⟨fun ⟨_, i, hi, _⟩ => ⟨i, hi⟩, fun ⟨i, hi⟩ => ⟨_, i, hi, rfl⟩⟩

section SlotSet

variable {i v : Nat} {ptr : Option Addr} {free : Prop} (h : SlotSet i ptr v free r r')
include h

theorem SlotSet.spent_iff (j : Nat) :
    r'.Spent j ↔ if j = i then ptr = none ∧ ¬ free else r.Spent j := by
  rw [Spent, h.maskedPtr, h.freeNodes]
  split_ifs <;> rfl

theorem SlotSet.vacations_of_ne {j : Nat} (hj : j ≠ i) : r'.vacations j = r.vacations j := by
  simp only [vacations, h.version, h.spent_iff, if_neg hj]

theorem SlotSet.spent_self : r'.Spent i ↔ ptr = none ∧ ¬ free := by
  rw [h.spent_iff, if_pos rfl]

theorem SlotSet.version_self : (r'.node i).version = v := by
  rw [h.version, if_pos rfl]

/-- A slot that was there is set. -/
theorem SlotSet.sum_le (hi : i < r.size) {d : Nat} (hd : r'.vacations i ≤ r.vacations i + d) :
    ∑ j ∈ Finset.range r'.size, r'.vacations j ≤
      ∑ j ∈ Finset.range r.size, r.vacations j + d := by
  have hsize : r'.size = r.size := by have := h.size; omega
  calc ∑ j ∈ Finset.range r'.size, r'.vacations j
      ≤ ∑ j ∈ Finset.range r.size, (r.vacations j + if j = i then d else 0) := by
        rw [hsize]
        refine Finset.sum_le_sum fun j _ => ?_
        split_ifs with hj
        · rw [hj]
          exact hd
        · exact (h.vacations_of_ne hj).le
    _ = ∑ j ∈ Finset.range r.size, r.vacations j + d := by
        simp [Finset.sum_add_distrib, hi]

/-- Registering a pointer, in a slot that is free or new. -/
theorem SlotSet.registered {s : Finset Addr} {p : Addr} (hptr : ptr = some p)
    (hold : (r.node i).maskedPtr = none) (hs : ∀ q, q ∈ s ↔ ∃ id, r.Live id q) (q : Addr) :
    q ∈ insert p s ↔ ∃ id, r'.Live id q := by
  rw [Finset.mem_insert, hs, exists_live_iff, exists_live_iff]
  constructor
  · rintro (rfl | ⟨j, hj⟩)
    · exact ⟨i, by rw [h.maskedPtr, if_pos rfl, hptr]⟩
    · have hji : j ≠ i := by
        rintro rfl
        cases hold.symm.trans hj
      exact ⟨j, by rw [h.maskedPtr, if_neg hji, hj]⟩
  · rintro ⟨j, hj⟩
    rw [h.maskedPtr] at hj
    split_ifs at hj with hji
    · exact Or.inl (Option.some.inj (hj.symm.trans hptr))
    · exact Or.inr ⟨j, hj⟩

theorem SlotSet.unregistered (hr : r.Inv) {s : Finset Addr} {p : Addr} (hptr : ptr = none)
    (hold : (r.node i).maskedPtr = some p) (hs : ∀ q, q ∈ s ↔ ∃ id, r.Live id q) (q : Addr) :
    q ∈ s.erase p ↔ ∃ id, r'.Live id q := by
  rw [Finset.mem_erase, hs, exists_live_iff, exists_live_iff]
  constructor
  · rintro ⟨hq, j, hj⟩
    have hji : j ≠ i := by
      rintro rfl
      exact hq (Option.some.inj (hj.symm.trans hold))
    exact ⟨j, by rw [h.maskedPtr, if_neg hji, hj]⟩
  · rintro ⟨j, hj⟩
    rw [h.maskedPtr] at hj
    split_ifs at hj with hji
    · cases hj.symm.trans hptr
    · refine ⟨?_, j, hj⟩
      rintro rfl
      exact hji (hr.ptr_inj j i q hj hold)

end SlotSet

namespace Balanced

variable {s : Finset Addr} {peak removed : Nat} (h : Balanced r s peak removed)
include h

theorem card_le : s.card ≤ r.size := by
  have := card_slots h.inv h.registered
  omega

theorem mono {removed' : Nat} (hle : removed ≤ removed') : Balanced r s peak removed' :=
  ⟨h.inv, h.registered, h.version, h.vacations_le.trans hle, h.size_le, h.le_size⟩

/-- The calls that do not change the slots. -/
theorem same (hr' : r'.Inv) (hsame : SameIndex r r') : Balanced r' s (max peak s.card) removed := by
  have hiff (j : Nat) : r'.Spent j ↔ r.Spent j := by
    simp only [Spent, hsame.maskedPtr, hsame.freeNodes]
  have hspent : r'.spent = r.spent := by
    ext j
    simp only [mem_spent, hsame.size, hiff]
  have hvacations : r'.vacations = r.vacations := by
    funext j
    simp only [vacations, hsame.version, hiff]
  refine ⟨hr', fun p => ?_, fun i hi => ?_, ?_, ?_, ?_⟩
  · simp only [h.registered, hsame.live]
  · rw [hsame.version]
    exact h.version i (hspent ▸ hi)
  · rw [hsame.size, hvacations]
    exact h.vacations_le
  · rw [hsame.size, hspent]
    exact h.size_le.trans (by omega)
  · rw [hsame.size]
    exact max_le h.le_size h.card_le

/-- A free slot is taken. -/
theorem recycled {i : Nat} {p : Addr} (hr' : r'.Inv) (hi : i ∈ r.freeNodes)
    (hslot : SlotSet i (some p) (r.node i).version False r r') :
    Balanced r' (insert p s) (max peak (insert p s).card) removed := by
  obtain ⟨hlt, hold⟩ := h.inv.free i hi
  have hsize : r'.size = r.size := by have := hslot.size; omega
  have hspent : r'.spent = r.spent := by
    ext j
    simp only [mem_spent, hsize, hslot.spent_iff]
    by_cases hj : j = i
    · simp [hj, Spent, hi]
    · simp [hj]
  have hregistered := hslot.registered rfl hold h.registered
  refine ⟨hr', hregistered, fun j hj => ?_, ?_, ?_, ?_⟩
  · have hj' := hspent ▸ hj
    rw [hslot.version]
    split_ifs with hji
    · exact h.version i (hji ▸ hj')
    · exact h.version j hj'
  · refine (hslot.sum_le hlt (d := 0) ?_).trans h.vacations_le
    have hno : ¬ r'.Spent i := fun hs => absurd (hslot.spent_self.mp hs).1 (by simp)
    rw [vacations, if_neg hno, hslot.version_self, vacations]
    omega
  · rw [hsize, hspent]
    exact h.size_le.trans (by omega)
  · have := card_slots hr' hregistered
    have := h.le_size
    omega

/-- No slot was free, and a new one is appended. -/
theorem appended {i : Nat} {p : Addr} (hr' : r'.Inv) (hfree : r.freeNodes = []) (hi : i = r.size)
    (hslot : SlotSet i (some p) 1 False r r') :
    Balanced r' (insert p s) (max peak (insert p s).card) removed := by
  have hsize : r'.size = r.size + 1 := by have := hslot.size; omega
  have hold : (r.node i).maskedPtr = none := by
    rw [hi, node_of_size_le le_rfl]
    rfl
  have hfree' : r'.freeNodes = [] := by
    refine List.eq_nil_iff_forall_not_mem.mpr fun j hj => ?_
    have := (hslot.freeNodes j).mp hj
    simp [hfree] at this
  have hspent : r'.spent = r.spent := by
    ext j
    simp only [mem_spent, hsize, hslot.spent_iff]
    by_cases hj : j = i
    · simp [hj, hi]
    · have : j < r.size + 1 ↔ j < r.size := by omega
      simp [hj, this]
  have hregistered := hslot.registered rfl hold h.registered
  have hcard := card_slots hr' hregistered
  refine ⟨hr', hregistered, fun j hj => ?_, ?_, ?_, ?_⟩
  · have hj' := hspent ▸ hj
    have hji : j ≠ i := by have := (mem_spent.mp hj').1; omega
    rw [hslot.version, if_neg hji]
    exact h.version j hj'
  · have hzero : r'.vacations r.size = 0 := by
      simp [← hi, vacations, hslot.version_self, hslot.spent_self]
    rw [hsize, Finset.sum_range_succ, hzero, Nat.add_zero]
    refine (Finset.sum_le_sum fun j hj => ?_).trans h.vacations_le
    exact (hslot.vacations_of_ne (by have := Finset.mem_range.mp hj; omega)).le
  · simp only [hfree', List.length_nil] at hcard
    omega
  · have := h.le_size
    omega

/-- A slot is left. -/
theorem vacated {i : Nat} {p : Addr} (hr' : r'.Inv) (hi : (r.node i).maskedPtr = some p)
    (hslot : ((r.node i).version = maxVersion ∧ SlotSet i none maxVersion (i ∈ r.freeNodes) r r') ∨
      ((r.node i).version < maxVersion ∧ SlotSet i none ((r.node i).version + 1) True r r')) :
    Balanced r' (s.erase p) (max peak (s.erase p).card) (removed + 1) := by
  have hlt := lt_size_of_maskedPtr hi
  have hnotSpent : ¬ r.Spent i := by simp [Spent, hi]
  have hnotFree : i ∉ r.freeNodes := by
    intro hmem
    cases (h.inv.free i hmem).2.symm.trans hi
  obtain ⟨v, free, hset, hv, hd, hspent⟩ : ∃ v free, SlotSet i none v free r r' ∧
      (¬ free → v = maxVersion) ∧ r'.vacations i ≤ r.vacations i + 1 ∧
      ∀ j, r.Spent j → r'.Spent j := by
    obtain ⟨hmax, hset⟩ | ⟨-, hset⟩ := hslot
    · refine ⟨_, _, hset, fun _ => rfl, ?_, fun j hj => ?_⟩
      · simp [vacations, hset.version_self, hset.spent_self, hnotFree, hnotSpent, hmax]
      · have hji : j ≠ i := fun heq => hnotSpent (heq ▸ hj)
        rwa [hset.spent_iff, if_neg hji]
    · have hpos := h.inv.version_pos i hlt
      refine ⟨_, _, hset, fun hno => absurd trivial hno, ?_, fun j hj => ?_⟩
      · simp [vacations, hset.version_self, hset.spent_self, hnotSpent]
        omega
      · have hji : j ≠ i := fun heq => hnotSpent (heq ▸ hj)
        rwa [hset.spent_iff, if_neg hji]
  have hsize : r'.size = r.size := by have := hset.size; omega
  have hregistered := hset.unregistered h.inv rfl hi h.registered
  refine ⟨hr', hregistered, fun j hj => ?_, ?_, ?_, ?_⟩
  · obtain ⟨hjlt, hj⟩ := mem_spent.mp hj
    rw [hset.spent_iff] at hj
    rw [hset.version]
    split_ifs at hj ⊢ with hji
    · exact hv hj.2
    · exact h.version j (mem_spent.mpr ⟨hsize ▸ hjlt, hj⟩)
  · exact (hset.sum_le hlt hd).trans (Nat.add_le_add_right h.vacations_le 1)
  · have hsub : r.spent ⊆ r'.spent := fun j hj => by
      obtain ⟨hjlt, hj⟩ := mem_spent.mp hj
      exact mem_spent.mpr ⟨hsize.symm ▸ hjlt, hspent j hj⟩
    have := Finset.card_le_card hsub
    have := h.size_le
    omega
  · have := card_slots hr' hregistered
    have := h.le_size
    omega

end Balanced

/-! ## Runs -/

/-- The pointers that are registered behind a sequence of calls. -/
def registered (ops : List Op) : Finset Addr := ops.foldl register ∅

/-- The largest number of pointers that are registered at the same time. -/
def peak (ops : List Op) : Nat :=
  (Finset.range (ops.length + 1)).sup fun n => (registered (ops.take n)).card

theorem registered_concat (ops : List Op) (op : Op) :
    registered (ops ++ [op]) = register (registered ops) op := by
  simp [registered]

theorem peak_concat (ops : List Op) (op : Op) :
    peak (ops ++ [op]) = max (peak ops) (registered (ops ++ [op])).card := by
  have hsame : ∀ n ∈ Finset.range (ops.length + 1),
      (registered ((ops ++ [op]).take n)).card = (registered (ops.take n)).card := by
    intro n hn
    rw [List.take_append_of_le_length (by have := Finset.mem_range.mp hn; omega)]
  rw [peak, List.length_append, List.length_singleton, Finset.range_add_one, Finset.sup_insert,
    Finset.sup_congr rfl hsame, List.take_of_length_le (by simp), ← peak]
  exact max_comm _ _

/-- A call returns, unless it is a `GetId` that needs a slot when there are as many as a vector can
hold. -/
theorem Balanced.step {s : Finset Addr} {peak removed : Nat} (h : Balanced r s peak removed)
    (maxLocks : Nat) (op : Op) :
    (Rep.step maxLocks r op = none ∧
        vecMaxSize < max peak (register s op).card + r.spent.card) ∨
      ∃ r', Rep.step maxLocks r op = some r' ∧
        Balanced r' (register s op) (max peak (register s op).card)
          (removed + if op.isRemoveNode then 1 else 0) := by
  have hr := h.inv
  cases op with
  | getId thread ptr =>
    by_cases hp : ∃ id, r.Live id ptr
    · obtain ⟨id, hid⟩ := hp
      have hmem : register s (.getId thread ptr) = s :=
        Finset.insert_eq_of_mem ((h.registered ptr).mpr ⟨id, hid⟩)
      refine Or.inr ⟨r, by simp [Rep.step, getId_live hr.toIndexed hid], ?_⟩
      rw [hmem]
      exact h.same hr (SameIdent.refl r).sameIndex
    · have hno := not_exists.mp hp
      obtain ⟨hnone, hfree, hsize⟩ | ⟨i, id, r', hget, hslot⟩ :=
        getId_slots hr hno maxLocks thread
      · have hcard := card_slots hr h.registered
        have hnew : (register s (.getId thread ptr)).card = s.card + 1 :=
          Finset.card_insert_of_notMem fun hmem => hp ((h.registered ptr).mp hmem)
        rw [hfree, List.length_nil] at hcard
        exact Or.inl ⟨by simp [Rep.step, hnone], by omega⟩
      · have hr' := (getId_spec hr hget).2.inv
        refine Or.inr ⟨r', by simp [Rep.step, hget], ?_⟩
        obtain ⟨hfree, hi, hslot⟩ | ⟨hi, hslot⟩ := hslot
        · exact h.appended hr' hfree hi hslot
        · exact h.recycled hr' hi hslot
  | removeNode ptr =>
    by_cases hp : ∃ id, r.Live id ptr
    · obtain ⟨id, hid⟩ := hp
      obtain ⟨i, r', hremove, hi, hslot⟩ := removeNode_slots hr hid
      have hstep : Rep.step maxLocks r (.removeNode ptr) = some r' := hremove
      exact Or.inr ⟨r', hstep, h.vacated (step_spec hr hstep).inv hi hslot⟩
    · have hmem : register s (.removeNode ptr) = s :=
        Finset.erase_eq_of_notMem fun hmem => hp ((h.registered ptr).mp hmem)
      refine Or.inr ⟨r, removeNode_absent hr.toIndexed (not_exists.mp hp), ?_⟩
      rw [hmem]
      exact (h.same hr (SameIdent.refl r).sameIndex).mono (Nat.le_add_right _ _)
  | insertEdge x y =>
    obtain ⟨ok, r', hinsert, hr', hsame⟩ := insertEdge_inv hr x y
    exact Or.inr ⟨r', by simp [Rep.step, hinsert], h.same hr' hsame.sameIndex⟩
  | removeEdge x y =>
    obtain ⟨hr', hsame⟩ := removeEdge_inv hr x y
    exact Or.inr ⟨_, rfl, h.same hr' hsame.sameIndex⟩
  | findPath x y maxPathLen =>
    obtain ⟨-, _, _, hget, -⟩ | ⟨r', hstep, -⟩ :=
      @step_returns maxLocks r hr (.findPath x y maxPathLen)
    · cases hget
    · obtain ⟨_, -, rfl⟩ := Option.map_eq_some_iff.mp hstep
      exact Or.inr ⟨_, hstep, h.same hr (SameIdent.refl r).sameIndex⟩
  | updateStackTrace id thread allLocks =>
    exact Or.inr ⟨_, rfl, h.same (updateStackTrace_inv hr id thread allLocks)
      (updateStackTrace_node r id thread allLocks).1⟩

theorem balanced_empty : Balanced {} ∅ 0 0 := by
  refine ⟨inv_empty, fun p => ?_, fun i hi => ?_, ?_, ?_, ?_⟩
  · rw [exists_live_iff]
    refine iff_of_false (Finset.notMem_empty p) ?_
    rintro ⟨i, hi⟩
    exact absurd (lt_size_of_maskedPtr hi) (Nat.not_lt_zero i)
  · exact absurd (mem_spent.mp hi).1 (Nat.not_lt_zero i)
  · rfl
  · exact Nat.zero_le _
  · exact Nat.zero_le _

theorem exec_balanced {maxLocks : Nat} {ops : List Op} (h : exec (step maxLocks) {} ops = some r) :
    Balanced r (registered ops) (peak ops) (ops.countP Op.isRemoveNode) := by
  induction ops using List.reverseRecOn generalizing r with
  | nil =>
    obtain rfl := Option.some.inj h
    exact balanced_empty
  | append_singleton ops op ih =>
    obtain ⟨r₁, h₁, hstep⟩ := exec_concat.mp h
    obtain ⟨hnone, -⟩ | ⟨r', hsome, hbalanced⟩ := (ih h₁).step maxLocks op
    · cases hnone.symm.trans hstep
    · obtain rfl := Option.some.inj (hsome.symm.trans hstep)
      rw [peak_concat, registered_concat, List.countP_append, List.countP_singleton]
      exact hbalanced

end Rep
end CppGuard
