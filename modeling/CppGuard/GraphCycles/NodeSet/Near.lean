import CppGuard.GraphCycles.NodeSet.Growth
import CppGuard.Library.Worklist

/-!
# `NodeSet` for few values

Only the cells near the home of a value are ever used, whatever is inserted and erased: an insertion
takes a vacant cell only if all cells on the way hold other values. So the table of a set of values
below `n` does not outgrow `n * n`, however many insertions there are.
-/
namespace CppGuard
open LinearProbing

namespace NodeSet

variable {s s' : NodeSet} {v i n : Nat} {b : Bool}

/-! ## Vacant cells -/

/-- Behind a deleted cell the probe loop does not end at a vacant one. -/
theorem probe_deleted {table : List (Cell Nat)} {fuel j del : Nat}
    (h : probe table v fuel i (some del) = some j) :
    j = del ∨ table[j]? = some (.full v) := by
  induction fuel generalizing i with
  | zero => cases h
  | succ fuel ih =>
    simp only [probe] at h
    split at h
    · split_ifs at h with hv
      · obtain rfl := Option.some.inj h
        subst hv
        exact Or.inr ‹_›
      · exact ih h
    · exact Or.inl (Option.some.inj h).symm
    · exact ih h
    · cases h

/-- If the probe loop ends at a vacant cell, then all cells before it hold other values. -/
theorem Core.probe_vacant (h : s.Core) (fuel d : Nat)
    (hprobe : probe s.table v fuel (probeAt s.table.length (hash v) d) none = some i)
    (hi : s.table[i]? = some kEmpty)
    (before : ∀ e < d, ∃ w, w ≠ v ∧ s.table[probeAt s.table.length (hash v) e]? = some (.full w)) :
    ∃ c < d + fuel, i = probeAt s.table.length (hash v) c ∧
      ∀ e < c, ∃ w, w ≠ v ∧ s.table[probeAt s.table.length (hash v) e]? = some (.full w) := by
  induction fuel generalizing d with
  | zero => cases hprobe
  | succ fuel ih =>
    simp only [probe, h.mask, probeAt_succ] at hprobe
    split at hprobe
    · rename_i w hcell
      split_ifs at hprobe with hv
      · obtain rfl := Option.some.inj hprobe
        cases hcell.symm.trans hi
      · obtain ⟨c, hc, hic, hbefore⟩ := ih (d + 1) hprobe fun e he => by
          obtain he | rfl := Nat.lt_succ_iff_lt_or_eq.mp he
          · exact before e he
          · exact ⟨w, Ne.symm hv, hcell⟩
        exact ⟨c, by omega, hic, hbefore⟩
    · rename_i hcell
      exact ⟨d, by omega, (Option.some.inj hprobe).symm, before⟩
    · rename_i hcell
      obtain rfl | hfull := probe_deleted hprobe
      · cases hcell.symm.trans hi
      · cases hfull.symm.trans hi
    · cases hprobe

theorem Core.findIndex_vacant (h : s.Core) (hfind : s.findIndex v = some i)
    (hi : s.table[i]? = some kEmpty) :
    ∃ c < s.table.length, i = probeAt s.table.length (hash v) c ∧
      ∀ e < c, ∃ w, w ≠ v ∧ s.table[probeAt s.table.length (hash v) e]? = some (.full w) := by
  have hstart : hash v &&& (s.table.length - 1) = probeAt s.table.length (hash v) 0 := by
    rw [h.mask, probeAt, Nat.add_zero]
  rw [findIndex, hstart] at hfind
  simpa using h.probe_vacant _ 0 hfind hi (by simp)

/-! ## Sets of values below `n` -/

/-- The values are below `n`, and no cell was used that is far from all of them. -/
structure Near (n : Nat) (s : NodeSet) : Prop where
  below : ∀ v, Cell.full v ∈ s.table → v < n
  near : LinearProbing.Near hash (Finset.range n) s.table

theorem Near.used_le (h : s.Near n) : used s.table ≤ n * n := by
  simpa using h.near.used_le

theorem near_replicate (n size : Nat) : Near n ⟨List.replicate size kEmpty, 0⟩ where
  below v hv := by simp at hv
  near := LinearProbing.Near.replicate hash (Finset.range n) size

theorem Near.store (h : s.Near n) (hs : s.Valid) (hv : v < n) (hfind : s.findIndex v = some i) :
    (s.store i v).Near n := by
  have hwritten : s.table[i]? ≠ some kEmpty ∨ ∃ a ∈ Finset.range n, ∃ d < (Finset.range n).card,
      i = probeAt s.table.length (hash a) d := by
    by_cases hi : s.table[i]? = some kEmpty
    · obtain ⟨c, hc, hic, hbefore⟩ := hs.toCore.findIndex_vacant hfind hi
      refine Or.inr ⟨v, Finset.mem_range.mpr hv, c, ?_, hic⟩
      have hle : c ≤ ((Finset.range n).erase v).card := by
        refine hs.placed.walk_le_card (a := v) hc.le fun e he => ?_
        obtain ⟨w, hne, hcell⟩ := hbefore e he
        have hw := h.below w (List.mem_of_getElem? hcell)
        exact ⟨w, Finset.mem_erase.mpr ⟨hne, Finset.mem_range.mpr hw⟩, hcell⟩
      rw [Finset.card_erase_of_mem (Finset.mem_range.mpr hv), Finset.card_range] at hle
      rw [Finset.card_range]
      omega
    · exact Or.inl hi
  refine ⟨fun w hw => ?_, h.near.set _ hwritten⟩
  obtain hw | hw := List.mem_or_eq_of_mem_set hw
  · exact h.below w hw
  · cases hw
    exact hv

/-- An insertion that does not call `Grow`. -/
theorem Near.insertWith_none (h : s.Near n) (hs : s.Valid) (hv : v < n)
    (hinsert : insertWith (fun _ => none) s v = some (b, s')) : s'.Near n ∧ s'.Valid := by
  obtain ⟨i, hi, spot⟩ := findIndex_of_valid hs v
  simp only [insertWith, hi, Option.bind_eq_bind, Option.bind_some] at hinsert
  split_ifs at hinsert with hfound hgrow
  · obtain ⟨-, rfl⟩ := Prod.mk.inj (Option.some.inj hinsert)
    exact ⟨h, hs⟩
  · cases hinsert
  · obtain ⟨-, rfl⟩ := Prod.mk.inj (Option.some.inj hinsert)
    have hfresh : Cell.full v ∉ s.table := fun hmem => hfound (spot.found_iff.mpr hmem)
    obtain ⟨hcore, hlength, -⟩ := hs.store spot hfresh
    exact ⟨h.store hs hv hi, hcore, by rw [hlength]; omega⟩

theorem Near.reinsert {vs : List Nat} (h : s.Near n) (hs : s.Valid) (hvs : ∀ v ∈ vs, v < n)
    (hfold : vs.foldlM
      (fun t v => do let r ← insertWith (fun _ => none) t v; return r.2) s = some s') :
    s'.Near n := by
  induction vs generalizing s with
  | nil =>
    obtain rfl := Option.some.inj hfold
    exact h
  | cons v vs ih =>
    simp only [List.foldlM_cons, Option.bind_eq_bind, Option.bind_eq_some_iff] at hfold
    obtain ⟨t, ⟨⟨b, t'⟩, hinsert, ht⟩, hrest⟩ := hfold
    obtain rfl : t' = t := Option.some.inj ht
    obtain ⟨hnear, hvalid⟩ := h.insertWith_none hs (hvs v (by simp)) hinsert
    exact ih hnear hvalid (fun w hw => hvs w (by simp [hw])) hrest

/-- The table is filled anew. -/
theorem Near.growAt (h : s.Near n) (hs : s.Core) (hgrow : growAt 1 s = some s') : s'.Near n := by
  have hnone : NodeSet.growAt 0 = fun _ => none := funext fun _ => rfl
  rw [NodeSet.growAt, hnone] at hgrow
  refine (near_replicate n _).reinsert hs.doubled_valid (fun v hv => h.below v ?_) hgrow
  exact mem_elems.mp (elems_eq s ▸ hv)

/-- The values are below `n`, and the table is not too large for them. -/
structure Small (n : Nat) (s : NodeSet) : Prop extends Near n s where
  length_le : 3 * s.table.length ≤ 8 * max 3 (n * n)

/-- The table is doubled only if it is nearly full, and the values can fill a small table only. -/
theorem Small.insert (h : s.Small n) (hs : s.Valid) (hv : v < n)
    (hinsert : s.insert v = some (b, s')) : s'.Small n := by
  obtain ⟨i, hi, spot⟩ := findIndex_of_valid hs v
  simp only [NodeSet.insert, insertWith, hi, Option.bind_eq_bind, Option.bind_some] at hinsert
  split_ifs at hinsert with hfound hgrow
  · obtain ⟨-, rfl⟩ := Prod.mk.inj (Option.some.inj hinsert)
    exact h
  · obtain ⟨t, ht, hinsert⟩ := Option.bind_eq_some_iff.mp hinsert
    obtain ⟨-, rfl⟩ := Prod.mk.inj (Option.some.inj hinsert)
    have hfresh : Cell.full v ∉ s.table := fun hmem => hfound (spot.found_iff.mpr hmem)
    obtain ⟨hcore, hlength, -⟩ := hs.store spot hfresh
    have hnear := h.toNear.store hs hv hi
    have hused := hnear.used_le
    rw [← hcore.counted] at hused
    have hsize := (growAt_one ht).2
    exact ⟨hnear.growAt hcore ht, by omega⟩
  · obtain ⟨-, rfl⟩ := Prod.mk.inj (Option.some.inj hinsert)
    refine ⟨h.toNear.store hs hv hi, ?_⟩
    simpa [NodeSet.store] using h.length_le

theorem Small.erase (h : s.Small n) (hs : s.Valid) (herase : s.erase v = some s') :
    s'.Small n := by
  obtain ⟨t, -, ht, hmem⟩ := erase_of_valid hs v
  obtain rfl := Option.some.inj (ht.symm.trans herase)
  obtain ⟨-, hlength⟩ := erase_size herase
  refine ⟨⟨fun w hw => h.below w ((hmem w).mp hw).2, ?_⟩, by rw [hlength]; exact h.length_le⟩
  obtain ⟨i, -, herase⟩ := Option.bind_eq_some_iff.mp herase
  split_ifs at herase with hfound
  · obtain rfl := Option.some.inj herase
    exact h.near.set _ (Or.inl (by simp [hfound]))
  · obtain rfl := Option.some.inj herase
    exact h.near

theorem small_init (n : Nat) : init.Small n := ⟨near_replicate n kInline, by
    simp only [init, kInline, List.length_replicate]
    omega⟩

end NodeSet

/-! ## The sets of the graph -/

namespace ValidNodeSet

variable {s : ValidNodeSet} {v n : Nat}

/-- The values are below `n`, and the table is not too large for them. -/
def Small (n : Nat) (s : ValidNodeSet) : Prop := s.val.Small n

theorem small_empty (n : Nat) : Small n ∅ := NodeSet.small_init n

theorem Small.insert (h : s.Small n) (hv : v < n) : (s.insert v).2.Small n := by
  obtain ⟨s', hs'⟩ := Option.isSome_iff_exists.mp (s.insert_isSome v)
  refine NodeSet.Small.insert h s.2 hv (b := (s.insert v).1) ?_
  simp [ValidNodeSet.insert]

theorem Small.erase (h : s.Small n) (v : Nat) : (s.erase v).Small n := by
  refine NodeSet.Small.erase h s.2 (v := v) ?_
  simp [ValidNodeSet.erase]

theorem Small.lt (h : s.Small n) (hv : v ∈ s) : v < n := h.below v hv

theorem Small.length_elems_le (h : s.Small n) : s.elems.length ≤ n :=
  Worklist.length_le_of_nodup s.nodup_elems fun _ hv => h.lt (mem_elems.mp hv)

end ValidNodeSet
end CppGuard
