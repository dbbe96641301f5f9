import Mathlib

/-!
# Tiles

A list of intervals of natural numbers, given by their starts and lengths, tiles a set if no two
of them overlap and together they are the set. Tiles are split, merged, and added.
-/

/-- The interval that begins at `t.1` and has the length `t.2`. -/
def extent (t : Nat × Nat) : Set Nat := Set.Ico t.1 (t.1 + t.2)

theorem mem_extent {t : Nat × Nat} {x : Nat} : x ∈ extent t ↔ t.1 ≤ x ∧ x < t.1 + t.2 := Iff.rfl

theorem disjoint_extent {s t : Nat × Nat} :
    Disjoint (extent s) (extent t) ↔ ∀ x, x ∈ extent s → x ∉ extent t :=
  Set.disjoint_left

/-- The lengths are positive, so the intervals do not overlap if one ends before the other. -/
theorem le_of_disjoint_extent {s t : Nat × Nat} (h : Disjoint (extent s) (extent t))
    (ht : 0 < t.2) (hle : s.1 ≤ t.1) : s.1 + s.2 ≤ t.1 := by
  by_contra hlt
  exact disjoint_extent.mp h t.1 ⟨hle, Nat.not_le.mp hlt⟩ ⟨Nat.le_refl _, by omega⟩

/-- The points of the intervals. -/
def covered (ts : List (Nat × Nat)) : Set Nat := { x | ∃ t ∈ ts, x ∈ extent t }

@[simp] theorem covered_nil : covered [] = ∅ := by
  simp [covered]

@[simp] theorem covered_cons (t : Nat × Nat) (ts : List (Nat × Nat)) :
    covered (t :: ts) = extent t ∪ covered ts := by
  ext x
  simp [covered]

@[simp] theorem covered_append (ts us : List (Nat × Nat)) :
    covered (ts ++ us) = covered ts ∪ covered us := by
  ext x
  simp [covered, or_and_right, exists_or]

structure Tiles (ts : List (Nat × Nat)) (region : Set Nat) : Prop where
  disjoint : ts.Pairwise fun s t => Disjoint (extent s) (extent t)
  mem_iff : ∀ x, x ∈ region ↔ ∃ t ∈ ts, x ∈ extent t

namespace Tiles

variable {ts us : List (Nat × Nat)} {region : Set Nat} {s t : Nat × Nat} {a r n x : Nat}

theorem nil : Tiles [] ∅ := ⟨List.Pairwise.nil, by simp⟩

theorem perm (h : Tiles ts region) (hperm : ts.Perm us) : Tiles us region where
  disjoint := (hperm.pairwise_iff fun hst => hst.symm).mp h.disjoint
  mem_iff x := by
    rw [h.mem_iff]
    exact exists_congr fun t => and_congr_left' hperm.mem_iff

/-- Two tiles with a common point are the same. -/
theorem eq_of_mem (h : Tiles ts region) (hs : s ∈ ts) (ht : t ∈ ts) (hxs : x ∈ extent s)
    (hxt : x ∈ extent t) : s = t := by
  by_contra hne
  have : Std.Symm fun s t : Nat × Nat => Disjoint (extent s) (extent t) := ⟨fun _ _ h => h.symm⟩
  have hdisjoint := h.disjoint.forall hs ht hne
  exact disjoint_extent.mp hdisjoint x hxs hxt

theorem mem_region (h : Tiles ts region) (ht : t ∈ ts) (hx : x ∈ extent t) : x ∈ region :=
  (h.mem_iff x).mpr ⟨t, ht, hx⟩

/-- The extents of two adjacent intervals. -/
theorem extent_add : extent (a, r + n) = extent (a, r) ∪ extent (a + r, n) := by
  ext x
  simp only [mem_extent, Set.mem_union]
  omega

theorem split_iff :
    Tiles ((a, r + n) :: ts) region ↔ Tiles ((a, r) :: (a + r, n) :: ts) region := by
  have hadjacent : Disjoint (extent (a, r)) (extent (a + r, n)) := by
    refine disjoint_extent.mpr fun x hx hx' => ?_
    exact absurd hx.2 (Nat.not_lt.mpr hx'.1)
  have hmem : ∀ x, (∃ t ∈ (a, r + n) :: ts, x ∈ extent t) ↔
      ∃ t ∈ (a, r) :: (a + r, n) :: ts, x ∈ extent t := by
    intro x
    simp only [List.mem_cons, exists_eq_or_imp, extent_add, Set.mem_union, or_assoc]
  constructor
  · rintro ⟨hdisjoint, hcovers⟩
    obtain ⟨hhead, htail⟩ := List.pairwise_cons.mp hdisjoint
    refine ⟨List.pairwise_cons.mpr ⟨?_, List.pairwise_cons.mpr ⟨fun t ht => ?_, htail⟩⟩,
      fun x => (hcovers x).trans (hmem x)⟩
    · refine List.forall_mem_cons.mpr ⟨hadjacent, fun t ht => ?_⟩
      have := hhead t ht
      rw [extent_add, Set.disjoint_union_left] at this
      exact this.1
    · have := hhead t ht
      rw [extent_add, Set.disjoint_union_left] at this
      exact this.2
  · rintro ⟨hdisjoint, hcovers⟩
    simp only [List.pairwise_cons, List.forall_mem_cons] at hdisjoint
    obtain ⟨⟨-, hleft⟩, hright, htail⟩ := hdisjoint
    refine ⟨List.pairwise_cons.mpr ⟨fun t ht => ?_, htail⟩,
      fun x => (hcovers x).trans (hmem x).symm⟩
    rw [extent_add, Set.disjoint_union_left]
    exact ⟨hleft t ht, hright t ht⟩

/-- A tile outside of the region. -/
theorem cons (h : Tiles ts region) (ht : Disjoint (extent t) region) :
    Tiles (t :: ts) (extent t ∪ region) where
  disjoint := by
    refine List.pairwise_cons.mpr ⟨fun s hs => ?_, h.disjoint⟩
    exact ht.mono_right fun x hx => h.mem_region hs hx
  mem_iff x := by
    simp only [Set.mem_union, List.mem_cons, exists_eq_or_imp, h.mem_iff]

/-- The tiles that are in order of their starts do not overlap. -/
theorem pairwise_le (h : Tiles ts region) {us : List (Nat × Nat)} (hsub : us.Sublist ts)
    (hpos : ∀ t ∈ us, 0 < t.2) (hsorted : us.Pairwise fun s t => s.1 < t.1) :
    us.Pairwise fun s t => s.1 + s.2 ≤ t.1 := by
  have hdisjoint := h.disjoint.sublist hsub
  refine (hdisjoint.and hsorted).imp_of_mem fun _ ht hst => ?_
  exact le_of_disjoint_extent hst.1 (hpos _ ht) (Nat.le_of_lt hst.2)

/-- Of two intervals that are apart in a list, either may be the first. -/
theorem apart_of_mem (h : ts.Pairwise fun s t => s.1 + s.2 < t.1) (hs : s ∈ ts) (ht : t ∈ ts)
    (hne : t ≠ s) : s.1 + s.2 < t.1 ∨ t.1 + t.2 < s.1 := by
  have : Std.Symm fun s t : Nat × Nat => s.1 + s.2 < t.1 ∨ t.1 + t.2 < s.1 :=
    ⟨fun _ _ => Or.symm⟩
  have hor : ts.Pairwise fun s t : Nat × Nat => s.1 + s.2 < t.1 ∨ t.1 + t.2 < s.1 := h.imp Or.inl
  exact hor.forall hs ht hne.symm

/-- An interval in a union of intervals that do not touch lies in one of them. -/
theorem exists_extent_subset (h : ts.Pairwise fun s t => s.1 + s.2 < t.1) (hn : 0 < n)
    (hsub : extent (a, n) ⊆ covered ts) : ∃ t ∈ ts, extent (a, n) ⊆ extent t := by
  obtain ⟨t, ht, hbegin, hend⟩ := hsub ⟨Nat.le_refl a, by simp only; omega⟩
  refine ⟨t, ht, fun x hx => ⟨hbegin.trans hx.1, ?_⟩⟩
  by_contra hx'
  -- the end of the tile is in the interval, but in no tile
  obtain ⟨u, hu, hu'⟩ := hsub (⟨by omega, by have := hx.2; omega⟩ : t.1 + t.2 ∈ extent (a, n))
  rw [mem_extent] at hu'
  obtain rfl | hne := eq_or_ne u t
  · omega
  · have := apart_of_mem h ht hu hne
    omega

/-! ## Counting -/

theorem ncard_extent (t : Nat × Nat) : (extent t).ncard = t.2 := by
  rw [extent, ← Finset.coe_Ico, Set.ncard_coe_finset, Nat.card_Ico, Nat.add_sub_cancel_left]

theorem finite_covered (ts : List (Nat × Nat)) : (covered ts).Finite := by
  induction ts with
  | nil => simp
  | cons t ts ih => simpa using ⟨Set.finite_Ico _ _, ih⟩

/-- The region has as many points as its tiles together. -/
theorem ncard (h : Tiles ts region) : region.ncard = (ts.map Prod.snd).sum := by
  have hregion : region = covered ts := Set.ext h.mem_iff
  subst hregion
  have hdisjoint := h.disjoint
  clear h
  induction ts with
  | nil => simp
  | cons t ts ih =>
    obtain ⟨ht, hts⟩ := List.pairwise_cons.mp hdisjoint
    have hout : Disjoint (extent t) (covered ts) := by
      refine Set.disjoint_left.mpr ?_
      rintro x hx ⟨s, hs, hxs⟩
      exact disjoint_extent.mp (ht s hs) x hx hxs
    rw [covered_cons, Set.ncard_union_eq hout (Set.finite_Ico _ _) (finite_covered ts),
      ncard_extent, ih hts, List.map_cons, List.sum_cons]

variable {fs bs ks : List (Nat × Nat)}

/-- Where a tile ends that touches no other of the tiles `fs`, a tile of `bs` begins or an
interval of the region ends. -/
theorem end_mem (h : Tiles (fs ++ bs) (covered ks))
    (hapart : ∀ u ∈ fs, u ≠ t → t.1 + t.2 < u.1 ∨ u.1 + u.2 < t.1) (ht : t ∈ fs)
    (hpos : 0 < t.2) :
    t.1 + t.2 ∈ bs.map Prod.fst ++ ks.map fun k => k.1 + k.2 := by
  have hlast : t.1 + t.2 - 1 ∈ extent t := ⟨by omega, by omega⟩
  have hmem := List.mem_append_left bs ht
  by_cases hcovered : t.1 + t.2 ∈ covered ks
  · obtain ⟨u, hu, hbegin, hend⟩ := (h.mem_iff _).mp hcovered
    have hne : u ≠ t := by
      rintro rfl
      exact Nat.lt_irrefl _ hend
    obtain hu' | hu' := List.mem_append.mp hu
    · have := hapart u hu' hne
      omega
    · refine List.mem_append_left _ (List.mem_map.mpr ⟨u, hu', ?_⟩)
      by_contra hbefore
      exact hne (h.eq_of_mem hu hmem ⟨by omega, by omega⟩ hlast)
  · obtain ⟨k, hk, hbegin, hend⟩ := h.mem_region hmem hlast
    have hout : t.1 + t.2 ∉ extent k := fun hin => hcovered ⟨k, hk, hin⟩
    rw [mem_extent] at hout
    exact List.mem_append_right _ (List.mem_map.mpr ⟨k, hk, by omega⟩)

/-- There are no more tiles that do not touch than others and intervals of the region. -/
theorem length_le (h : Tiles (fs ++ bs) (covered ks))
    (hapart : fs.Pairwise fun s t => s.1 + s.2 < t.1) (hpos : ∀ t ∈ fs, 0 < t.2) :
    fs.length ≤ bs.length + ks.length := by
  have hnodup : (fs.map fun t => t.1 + t.2).Nodup := by
    refine List.pairwise_map.mpr (hapart.imp fun hst => ?_)
    omega
  have hsub : (fs.map fun t => t.1 + t.2) ⊆ bs.map Prod.fst ++ ks.map fun k => k.1 + k.2 := by
    intro e he
    obtain ⟨t, ht, rfl⟩ := List.mem_map.mp he
    exact h.end_mem (fun u hu hne => apart_of_mem hapart ht hu hne) ht (hpos t ht)
  simpa using (hnodup.subperm hsub).length_le

end Tiles
