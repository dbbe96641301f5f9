import Mathlib

/-!
# `Vec`, a resizable array with inlined storage

A small array lies in the object itself, a larger one in a block of the allocator. Sizes and
capacities are `uint32_t`. `none` is the loop of `Grow` that does not end: a capacity that is
doubled beyond `2 ^ 31` becomes 0.
-/
namespace CppGuard

/-- Number of inlined elements in `Vec`, a power of two. -/
def kInline : Nat := 8

/-- `ptr_` points to `space_`, or to the block in `heap`. -/
structure Vec (α : Type) where
  space : List α
  heap : Option (List α) := none
  size : Nat := 0
  capacity : Nat := kInline
  deriving DecidableEq, Repr

namespace Vec

variable {α : Type}

/-- The storage that `ptr_` points to. -/
def ptr (v : Vec α) : List α := v.heap.getD v.space

/-- The elements, `ptr_[0..size_-1]`. -/
def elems (v : Vec α) : List α := v.ptr.take v.size

def write (v : Vec α) (cells : List α) : Vec α :=
  match v.heap with
  | none => { v with space := cells }
  | some _ => { v with heap := some cells }

def set (v : Vec α) (i : Nat) (x : α) : Vec α := v.write (v.ptr.set i x)

/-- The cells of new storage, which is not initialised. -/
def uninitialised (fresh : Nat → α) (n : Nat) : List α := (List.range n).map fresh

/-- The constructor. -/
def new (fresh : Nat → α) : Vec α where
  space := uninitialised fresh kInline

/-- `Discard` and `Init`. -/
def clear (v : Vec α) : Vec α where
  space := v.space

/-- The loop of `Grow`, with a bound for the number of its turns. -/
def growCapacity (n : Nat) : Nat → Nat → Option Nat
  | 0, _ => none
  | turns + 1, capacity =>
    if capacity < n then growCapacity n turns (capacity * 2 % 2 ^ 32) else some capacity

/-- `Grow`: the elements are copied to a new block. -/
def grow (fresh : Nat → α) (v : Vec α) (n : Nat) : Option (Vec α) := do
  let capacity ← growCapacity n 33 v.capacity
  return { v with
    heap := some (v.elems ++ (uninitialised fresh capacity).drop v.size)
    capacity := capacity }

def resize (fresh : Nat → α) (v : Vec α) (n : Nat) : Option (Vec α) :=
  (if v.capacity < n then v.grow fresh n else some v).map ({ · with size := n })

def pushBack (fresh : Nat → α) (v : Vec α) (x : α) : Option (Vec α) :=
  (if v.size = v.capacity then v.grow fresh (v.size + 1) else some v).map fun v =>
    { v.set v.size x with size := v.size + 1 }

def fill (v : Vec α) (x : α) : Vec α := (List.range v.size).foldl (fun v i => v.set i x) v

/-- The result is `*this` and `*src`. A block is handed over, inlined elements are copied. -/
def moveFrom (fresh : Nat → α) (v src : Vec α) : Option (Vec α × Vec α) :=
  match src.heap with
  | none => do
    let v ← v.resize fresh src.size
    return (v.write (src.elems ++ v.ptr.drop src.size), { src with size := 0 })
  | some block =>
    some ({ v with heap := some block, size := src.size, capacity := src.capacity }, src.clear)

/-! ## What the operations do -/

/-- The storage has the capacity, which is a power of two. -/
structure WellFormed (v : Vec α) : Prop where
  space : v.space.length = kInline
  length : v.ptr.length = v.capacity
  size_le : v.size ≤ v.capacity
  capacity : ∃ a ≤ 31, v.capacity = 2 ^ a

variable {v src : Vec α} {fresh : Nat → α} {n i : Nat} {x : α}

@[simp] theorem length_uninitialised : (uninitialised fresh n).length = n := by
  simp [uninitialised]

@[simp] theorem size_write (cells : List α) : (v.write cells).size = v.size := by
  unfold write
  split <;> rfl

@[simp] theorem capacity_write (cells : List α) : (v.write cells).capacity = v.capacity := by
  unfold write
  split <;> rfl

@[simp] theorem ptr_write (cells : List α) : (v.write cells).ptr = cells := by
  unfold write
  split <;> simp_all [ptr]

@[simp] theorem size_set : (v.set i x).size = v.size := size_write _

@[simp] theorem elems_set : (v.set i x).elems = v.elems.set i x := by
  simp [elems, set, List.take_set]

theorem WellFormed.length_elems (h : v.WellFormed) : v.elems.length = v.size := by
  rw [elems, List.length_take, h.length]
  exact Nat.min_eq_left h.size_le

theorem WellFormed.write (h : v.WellFormed) {cells : List α} (hlength : cells.length = v.capacity) :
    (v.write cells).WellFormed where
  space := by
    cases hheap : v.heap with
    | none =>
      have hptr : v.ptr = v.space := by simp [ptr, hheap]
      simp only [Vec.write, hheap, hlength, ← h.length, hptr]
      exact h.space
    | some block =>
      simp only [Vec.write, hheap]
      exact h.space
  length := by simp [hlength]
  size_le := by simpa using h.size_le
  capacity := by simpa using h.capacity

theorem WellFormed.set (h : v.WellFormed) (i : Nat) (x : α) : (v.set i x).WellFormed :=
  h.write (by rw [List.length_set, h.length])

/-- Without a block the inlined cells are the storage. -/
theorem wellFormed_inlined {space : List α} (hspace : space.length = kInline)
    (hn : n ≤ kInline) : WellFormed { space := space, size := n } :=
  ⟨hspace, hspace, hn, 3, by decide, rfl⟩

theorem WellFormed.clear (h : v.WellFormed) : v.clear.WellFormed :=
  wellFormed_inlined h.space (Nat.zero_le _)

theorem new_wellFormed (fresh : Nat → α) : (new fresh).WellFormed :=
  wellFormed_inlined length_uninitialised (Nat.zero_le _)

/-- The capacity is doubled until it is large enough. The induction is on the turns; there are
enough of them for every capacity up to `2 ^ 31`. -/
theorem growCapacity_eq_some (turns : Nat) (hn : n ≤ 2 ^ 31) {a : Nat} (ha : a ≤ 31)
    (hturns : 31 < turns + a) :
    ∃ b ≤ 31, growCapacity n turns (2 ^ a) = some (2 ^ b) ∧ n ≤ 2 ^ b := by
  induction turns generalizing a with
  | zero => omega
  | succ turns ih =>
    rw [growCapacity]
    split_ifs with hlt
    · have hne : a ≠ 31 := by
        rintro rfl
        exact absurd hlt (Nat.not_lt.mpr hn)
      have hdouble : 2 ^ a * 2 % 2 ^ 32 = 2 ^ (a + 1) := by
        rw [← Nat.pow_succ]
        exact Nat.mod_eq_of_lt (Nat.pow_lt_pow_right (by decide) (by omega))
      rw [hdouble]
      exact ih (by omega) (by omega)
    · exact ⟨a, ha, rfl, Nat.not_lt.mp hlt⟩

/-- Behind `2 ^ 31` the capacity is 0 and stays it. -/
theorem growCapacity_eq_none (turns : Nat) (hn : 2 ^ 31 < n) {capacity : Nat}
    (hcapacity : capacity = 0 ∨ ∃ a ≤ 31, capacity = 2 ^ a) :
    growCapacity n turns capacity = none := by
  induction turns generalizing capacity with
  | zero => rfl
  | succ turns ih =>
    obtain rfl | ⟨a, ha, rfl⟩ := hcapacity
    · rw [growCapacity, if_pos (by omega)]
      exact ih (Or.inl rfl)
    · have hle : 2 ^ a ≤ 2 ^ 31 := Nat.pow_le_pow_right (by decide) ha
      rw [growCapacity, if_pos (by omega), ← Nat.pow_succ]
      obtain rfl | hlt := Nat.eq_or_lt_of_le ha
      · exact ih (Or.inl rfl)
      · rw [Nat.mod_eq_of_lt (Nat.pow_lt_pow_right (by decide) (by omega))]
        exact ih (Or.inr ⟨a + 1, by omega, rfl⟩)

theorem WellFormed.grow (h : v.WellFormed) (fresh : Nat → α) (hlt : v.capacity < n)
    (hn : n ≤ 2 ^ 31) : ∃ v', v.grow fresh n = some v' ∧ v'.WellFormed ∧ n ≤ v'.capacity ∧
      v'.elems = v.elems ∧ v'.size = v.size := by
  obtain ⟨a, ha, hcapacity⟩ := h.capacity
  obtain ⟨b, hb, hgrow, hle⟩ := growCapacity_eq_some 33 hn ha (by omega)
  rw [← hcapacity] at hgrow
  have hsize : v.size ≤ 2 ^ b := by
    have := h.size_le
    omega
  refine ⟨_, Option.bind_eq_some_iff.mpr ⟨_, hgrow, rfl⟩, ⟨h.space, ?_, hsize, b, hb, rfl⟩, hle,
    ?_, rfl⟩
  · simp only [ptr, Option.getD_some, List.length_append, h.length_elems, List.length_drop,
      length_uninitialised]
    exact Nat.add_sub_of_le hsize
  · exact List.take_left' h.length_elems

theorem WellFormed.resize (h : v.WellFormed) (fresh : Nat → α) (hn : n ≤ 2 ^ 31) :
    ∃ v', v.resize fresh n = some v' ∧ v'.WellFormed ∧ v'.size = n := by
  unfold Vec.resize
  split_ifs with hlt
  · obtain ⟨v', hgrow, hwf, hle, -⟩ := h.grow fresh hlt hn
    refine ⟨{ v' with size := n }, ?_, ⟨hwf.space, hwf.length, hle, hwf.capacity⟩, rfl⟩
    rw [hgrow, Option.map_some]
  · exact ⟨_, rfl, ⟨h.space, h.length, Nat.not_lt.mp hlt, h.capacity⟩, rfl⟩

/-- Behind the last element there is room. -/
theorem WellFormed.append (h : v.WellFormed) (hroom : v.size < v.capacity) (x : α) :
    WellFormed { v.set v.size x with size := v.size + 1 } ∧
      elems { v.set v.size x with size := v.size + 1 } = v.elems ++ [x] := by
  have hset := h.set v.size x
  have hptr : (v.set v.size x).ptr = v.ptr.set v.size x := ptr_write _
  have hlength : v.size < v.ptr.length := h.length ▸ hroom
  refine ⟨⟨hset.space, hset.length, ?_, hset.capacity⟩, ?_⟩
  · exact (capacity_write _).symm ▸ hroom
  · calc (v.set v.size x).ptr.take (v.size + 1)
        = (v.ptr.set v.size x).take (v.size + 1) := by rw [hptr]
      _ = v.elems ++ [x] := by
        rw [List.take_succ_eq_append_getElem (by simpa using hlength), List.take_set_of_le le_rfl,
          List.getElem_set_self, elems]

/-- `push_back` appends the element, or its `Grow` does not end. -/
theorem WellFormed.pushBack (h : v.WellFormed) (fresh : Nat → α) (x : α) :
    (v.size < 2 ^ 31 ∧ ∃ v', v.pushBack fresh x = some v' ∧ v'.WellFormed ∧
      v'.elems = v.elems ++ [x]) ∨ (v.size = 2 ^ 31 ∧ v.pushBack fresh x = none) := by
  unfold Vec.pushBack
  obtain ⟨a, ha, hcapacity⟩ := h.capacity
  have hle : 2 ^ a ≤ 2 ^ 31 := Nat.pow_le_pow_right (by decide) ha
  have hsize := h.size_le
  by_cases hfull : v.size = v.capacity
  · rw [if_pos hfull]
    by_cases hlt : v.size < 2 ^ 31
    · obtain ⟨v', hgrow, hwf, hroom, helems, hsame⟩ :=
        h.grow fresh (n := v.size + 1) (by omega) (by omega)
      obtain ⟨hwf', helems'⟩ := hwf.append (by omega) x
      exact Or.inl ⟨hlt, _, by rw [hgrow, Option.map_some], hwf', helems'.trans (helems ▸ rfl)⟩
    · have hnone := growCapacity_eq_none 33 (n := v.size + 1) (by omega)
        (Or.inr ⟨a, ha, hcapacity⟩)
      exact Or.inr ⟨by omega, by rw [Vec.grow, hnone]; rfl⟩
  · rw [if_neg hfull]
    obtain ⟨hwf, helems⟩ := h.append (by omega) x
    exact Or.inl ⟨by omega, _, rfl, hwf, helems⟩

/-- The loop of `fill` after `k` turns. -/
theorem foldl_set (h : v.WellFormed) (x : α) (k : Nat) (hk : k ≤ v.size) :
    ∃ v', (List.range k).foldl (fun v i => v.set i x) v = v' ∧ v'.WellFormed ∧
      v'.size = v.size ∧ v'.elems = List.replicate k x ++ v.elems.drop k := by
  induction k with
  | zero => exact ⟨v, rfl, h, rfl, by simp⟩
  | succ k ih =>
    obtain ⟨v', hfold, hwf, hsize, helems⟩ := ih (by omega)
    refine ⟨v'.set k x, by simp [List.range_succ, hfold], hwf.set k x, by simpa using hsize, ?_⟩
    have hlt : k < v.elems.length := by
      rw [h.length_elems]
      exact hk
    have hend : (v.elems.drop k).set 0 x = x :: v.elems.drop (k + 1) := by
      rw [List.drop_eq_getElem_cons hlt]
      rfl
    rw [elems_set, helems, List.set_append_right _ _ (by simp)]
    simp [List.replicate_succ', hend]

theorem WellFormed.fill (h : v.WellFormed) (x : α) :
    (v.fill x).WellFormed ∧ (v.fill x).elems = List.replicate v.size x := by
  obtain ⟨v', hfold, hwf, -, helems⟩ := foldl_set h x v.size (Nat.le_refl _)
  rw [Vec.fill, hfold]
  refine ⟨hwf, ?_⟩
  rw [helems, ← h.length_elems, List.drop_length, List.append_nil]

theorem WellFormed.moveFrom (hsrc : src.WellFormed) (h : v.WellFormed) (fresh : Nat → α) :
    ∃ v' src', v.moveFrom fresh src = some (v', src') ∧ v'.WellFormed ∧ src'.WellFormed ∧
      v'.elems = src.elems ∧ v'.size = src.size := by
  unfold Vec.moveFrom
  cases hheap : src.heap with
  | some block =>
    have hptr : src.ptr = block := by simp [ptr, hheap]
    refine ⟨_, _, rfl, ⟨h.space, ?_, hsrc.size_le, hsrc.capacity⟩, hsrc.clear, ?_, rfl⟩
    · exact hptr ▸ hsrc.length
    · simp [elems, ptr, hheap]
  | none =>
    have hle : src.size ≤ 2 ^ 31 := by
      obtain ⟨a, ha, hcapacity⟩ := hsrc.capacity
      have hsize := hsrc.size_le
      rw [hcapacity] at hsize
      exact Nat.le_trans hsize (Nat.pow_le_pow_right (by decide) ha)
    obtain ⟨v', hresize, hwf, hsize⟩ := h.resize fresh hle
    have hlength : src.elems.length = src.size := hsrc.length_elems
    have hroom := hwf.size_le
    refine ⟨_, _, by simp only [hresize]; rfl, hwf.write ?_, ?_, ?_, ?_⟩
    · rw [List.length_append, hlength, List.length_drop, hwf.length]
      omega
    · refine ⟨hsrc.space, ?_, Nat.zero_le _, hsrc.capacity⟩
      simpa [ptr, hheap] using hsrc.length
    · simp only [elems, ptr_write, size_write, hsize]
      rw [← elems, List.take_append_of_le_length (by omega), List.take_of_length_le (by omega)]
    · simpa using hsize

end Vec
end CppGuard
