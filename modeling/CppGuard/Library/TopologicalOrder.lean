import Mathlib.Data.List.Sort
import Mathlib.Logic.Relation
import Mathlib.Data.Set.Card
import Mathlib.Data.Set.Function

/-!
# Repairing a topological order after one insertion

An acyclic relation with a rank function that grows along its edges gets a new edge
`x → y` with `rank y < rank x`. If no path leads from `y` to `x`, the order is repaired
locally: the affected vertices are those reachable from `y` of rank below `rank x`
(`forth`) and those reaching `x` of rank above `rank y` (`back`); the ranks they occupy
are handed out again in increasing order, first to `back`, then to `forth`, each sorted
by the old rank. `Reassigned.topological` is the correctness of this repair.
-/
namespace TopologicalOrder
open Relation

/-! ## Sorted lists and their sublists -/

theorem getElem_le_of_sublist {s t : List Nat} (hs : s.Pairwise (· < ·)) (h : t.Sublist s)
    (k : Nat) (hk : k < t.length) (hk' : k < s.length) : s[k] ≤ t[k] := by
  induction h generalizing k with
  | slnil => cases hk
  | @cons t s a h ih =>
    have hk₁ : k < s.length := hk.trans_le h.length_le
    refine le_trans ?_ (ih (List.pairwise_cons.mp hs).2 k hk hk₁)
    have hlt := List.pairwise_iff_getElem.mp hs k (k + 1) hk' (by simpa using hk₁)
      (Nat.lt_succ_self k)
    simpa using hlt.le
  | cons_cons a h ih =>
    cases k with
    | zero => simp
    | succ k =>
      simpa using ih (List.pairwise_cons.mp hs).2 k (by simpa using hk) (by simpa using hk')

theorem le_getElem_of_sublist {s t : List Nat} (hs : s.Pairwise (· < ·)) (h : t.Sublist s)
    (k j : Nat) (hk : k < t.length) (hj : j < s.length) (hkj : j = s.length - t.length + k) :
    t[k] ≤ s[j] := by
  induction h generalizing k j with
  | slnil => cases hk
  | @cons t s a h ih =>
    have hle := h.length_le
    obtain ⟨i, rfl⟩ : ∃ i, j = i + 1 :=
      ⟨s.length - t.length + k, by rw [hkj, List.length_cons]; omega⟩
    rw [List.getElem_cons_succ]
    refine ih (List.pairwise_cons.mp hs).2 k i hk _ ?_
    rw [List.length_cons] at hkj
    omega
  | @cons_cons t s a h ih =>
    simp only [List.length_cons] at hkj hk hj
    cases k with
    | zero =>
      rcases Nat.eq_zero_or_pos j with rfl | hpos
      · simp
      · have hlt := List.pairwise_iff_getElem.mp hs 0 j (by simp) (by simpa using hj) hpos
        simpa using hlt.le
    | succ k =>
      obtain ⟨i, rfl⟩ : ∃ i, j = i + 1 := ⟨s.length - t.length + k, by omega⟩
      simp only [List.getElem_cons_succ]
      exact ih (List.pairwise_cons.mp hs).2 k i (by omega) (by omega) (by omega)

/-! ## The reassignment -/

variable {V : Type*}

/-- The effect of handing the ranks of `back ++ forth` out again. -/
structure Reassigned (rank rank' : V → Nat) (back forth : List V) : Prop where
  back_le : ∀ v ∈ back, rank' v ≤ rank v
  le_forth : ∀ v ∈ forth, rank v ≤ rank' v
  back_mono : ∀ u ∈ back, ∀ v ∈ back, rank u < rank v → rank' u < rank' v
  forth_mono : ∀ u ∈ forth, ∀ v ∈ forth, rank u < rank v → rank' u < rank' v
  back_forth : ∀ u ∈ back, ∀ v ∈ forth, rank' u < rank' v
  perm : ((back ++ forth).map rank').Perm ((back ++ forth).map rank)
  other : ∀ v, v ∉ back ++ forth → rank' v = rank v

/-- Assigning the sorted `pool` of all ranks along `back ++ forth` is a reassignment. -/
theorem Reassigned.of_pool {rank rank' : V → Nat} {back forth : List V} {pool : List Nat}
    (hback : (back.map rank).Pairwise (· < ·)) (hforth : (forth.map rank).Pairwise (· < ·))
    (hpool : pool.Pairwise (· < ·)) (perm : pool.Perm ((back ++ forth).map rank))
    (assigned : (back ++ forth).map rank' = pool)
    (other : ∀ v, v ∉ back ++ forth → rank' v = rank v) :
    Reassigned rank rank' back forth := by
  have hlen : pool.length = back.length + forth.length := by simpa using perm.length_eq
  rw [List.map_append] at perm assigned
  have subBack : (back.map rank).Sublist pool := List.sublist_of_subperm_of_pairwise
    ((List.sublist_append_left _ _).subperm.trans perm.symm.subperm) hback hpool
  have subForth : (forth.map rank).Sublist pool := List.sublist_of_subperm_of_pairwise
    ((List.sublist_append_right _ _).subperm.trans perm.symm.subperm) hforth hpool
  have atBack : ∀ k (hk : k < back.length), rank' back[k] = pool[k] := by
    intro k hk
    simp only [← assigned]
    rw [List.getElem_append_left (by simpa using hk), List.getElem_map]
  have atForth : ∀ k (hk : k < forth.length), rank' forth[k] = pool[back.length + k] := by
    intro k hk
    simp only [← assigned]
    rw [List.getElem_append_right (by simp)]
    simp
  have sorted := List.pairwise_iff_getElem.mp hpool
  have index : ∀ {l : List V}, (l.map rank).Pairwise (· < ·) → ∀ i j (hi : i < l.length)
      (hj : j < l.length), rank l[i] < rank l[j] → i < j := by
    intro l hl i j hi hj hlt
    by_contra hge
    rcases Nat.lt_or_ge j i with hji | hij
    · have := List.pairwise_iff_getElem.mp hl j i (by simpa using hj) (by simpa using hi) hji
      simp only [List.getElem_map] at this
      omega
    · obtain rfl : i = j := by omega
      exact lt_irrefl _ hlt
  refine ⟨?_, ?_, ?_, ?_, ?_, by rw [List.map_append, List.map_append, assigned]; exact perm,
    other⟩
  · intro v hv
    obtain ⟨k, hk, rfl⟩ := List.getElem_of_mem hv
    have := getElem_le_of_sublist hpool subBack k (by simpa using hk) (by omega)
    simpa [atBack k hk] using this
  · intro v hv
    obtain ⟨k, hk, rfl⟩ := List.getElem_of_mem hv
    have := le_getElem_of_sublist hpool subForth k (back.length + k) (by simpa using hk)
      (by omega) (by simp; omega)
    simpa [atForth k hk] using this
  · intro u hu v hv huv
    obtain ⟨i, hi, rfl⟩ := List.getElem_of_mem hu
    obtain ⟨j, hj, rfl⟩ := List.getElem_of_mem hv
    rw [atBack i hi, atBack j hj]
    exact sorted i j _ _ (index hback i j hi hj huv)
  · intro u hu v hv huv
    obtain ⟨i, hi, rfl⟩ := List.getElem_of_mem hu
    obtain ⟨j, hj, rfl⟩ := List.getElem_of_mem hv
    rw [atForth i hi, atForth j hj]
    exact sorted _ _ _ _ (Nat.add_lt_add_left (index hforth i j hi hj huv) _)
  · intro u hu v hv
    obtain ⟨i, hi, rfl⟩ := List.getElem_of_mem hu
    obtain ⟨j, hj, rfl⟩ := List.getElem_of_mem hv
    rw [atBack i hi, atForth j hj]
    exact sorted _ _ _ _ (by omega)

namespace Reassigned

variable {rank rank' : V → Nat} {back forth : List V}

/-- The order of the two lists does not matter. -/
theorem of_perm (h : Reassigned rank rank' back forth) {back' forth' : List V}
    (hback : back.Perm back') (hforth : forth.Perm forth') :
    Reassigned rank rank' back' forth' := by
  have hperm : (back ++ forth).Perm (back' ++ forth') := hback.append hforth
  constructor
  · exact fun v hv => h.back_le v (hback.mem_iff.mpr hv)
  · exact fun v hv => h.le_forth v (hforth.mem_iff.mpr hv)
  · exact fun u hu v hv => h.back_mono u (hback.mem_iff.mpr hu) v (hback.mem_iff.mpr hv)
  · exact fun u hu v hv => h.forth_mono u (hforth.mem_iff.mpr hu) v (hforth.mem_iff.mpr hv)
  · exact fun u hu v hv => h.back_forth u (hback.mem_iff.mpr hu) v (hforth.mem_iff.mpr hv)
  · exact ((hperm.map rank').symm.trans h.perm).trans (hperm.map rank)
  · exact fun v hv => h.other v fun hmem => hv (hperm.mem_iff.mp hmem)

theorem exists_old (h : Reassigned rank rank' back forth) {v : V} (hv : v ∈ back ++ forth) :
    ∃ u ∈ back ++ forth, rank u = rank' v := by
  exact List.mem_map.mp (h.perm.mem_iff.mp (List.mem_map_of_mem hv))

/-- Ranks stay distinct. -/
theorem injOn (h : Reassigned rank rank' back forth) {s : Set V} (hs : Set.InjOn rank s)
    (hback : ∀ v ∈ back, v ∈ s) (hforth : ∀ v ∈ forth, v ∈ s) : Set.InjOn rank' s := by
  have hall : ∀ v ∈ back ++ forth, v ∈ s := fun v hv =>
    (List.mem_append.mp hv).elim (hback v) (hforth v)
  have order : ∀ u ∈ back ++ forth, ∀ v ∈ back ++ forth, rank u < rank v →
      rank' u ≠ rank' v := by
    intro u hu v hv huv
    rcases List.mem_append.mp hu with hu | hu <;> rcases List.mem_append.mp hv with hv | hv
    · exact (h.back_mono u hu v hv huv).ne
    · exact (h.back_forth u hu v hv).ne
    · exact (h.back_forth v hv u hu).ne'
    · exact (h.forth_mono u hu v hv huv).ne
  intro u hu v hv huv
  by_cases mu : u ∈ back ++ forth <;> by_cases mv : v ∈ back ++ forth
  · rcases lt_trichotomy (rank u) (rank v) with hlt | heq | hlt
    · exact absurd huv (order u mu v mv hlt)
    · exact hs hu hv heq
    · exact absurd huv.symm (order v mv u mu hlt)
  · obtain ⟨w, hw, heq⟩ := h.exists_old mu
    rw [h.other v mv] at huv
    exact absurd (hs (hall w hw) hv (heq.trans huv) ▸ hw) mv
  · obtain ⟨w, hw, heq⟩ := h.exists_old mv
    rw [h.other u mu] at huv
    exact absurd (hs (hall w hw) hu (heq.trans huv.symm) ▸ hw) mu
  · rw [h.other u mu, h.other v mv] at huv
    exact hs hu hv huv

/-- Different ranks keep their order in both directions. -/
theorem lt_iff_lt {l : List V}
    (mono : ∀ u ∈ l, ∀ v ∈ l, rank u < rank v → rank' u < rank' v)
    (inj : ∀ u ∈ l, ∀ v ∈ l, rank u = rank v → u = v) {u v : V} (hu : u ∈ l) (hv : v ∈ l) :
    rank' u < rank' v ↔ rank u < rank v := by
  refine ⟨fun hlt => ?_, mono u hu v hv⟩
  rcases lt_trichotomy (rank u) (rank v) with h | h | h
  · exact h
  · rw [inj u hu v hv h] at hlt
    exact absurd hlt (lt_irrefl _)
  · exact absurd hlt (mono v hv u hu h).asymm

/-- The ranks that are handed out again lie between those of `y` and `x`. -/
theorem mem_range {edge : V → V → Prop} {x y : V} (h : Reassigned rank rank' back forth)
    (ranked : ∀ u v, edge u v → rank u < rank v)
    (mem_back : ∀ v, v ∈ back ↔ ReflTransGen edge v x ∧ rank y < rank v)
    (mem_forth : ∀ v, v ∈ forth ↔ ReflTransGen edge y v ∧ rank v < rank x) :
    ∀ v ∈ back ++ forth, rank y ≤ rank' v ∧ rank' v ≤ rank x := by
  have up : ∀ {a b}, ReflTransGen edge a b → rank a ≤ rank b := by
    intro a b hab
    induction hab with
    | refl => exact le_rfl
    | tail _ hbc ih => exact ih.trans (ranked _ _ hbc).le
  intro v hv
  obtain ⟨z, hz, heq⟩ := h.exists_old hv
  rw [← heq]
  rcases List.mem_append.mp hz with hz | hz
  · obtain ⟨hzx, hyz⟩ := (mem_back z).mp hz
    exact ⟨hyz.le, up hzx⟩
  · obtain ⟨hyz, hzx⟩ := (mem_forth z).mp hz
    exact ⟨up hyz, hzx.le⟩

/-- The repaired ranks grow along every old edge and along the new one. -/
theorem topological {edge : V → V → Prop} {s : Set V} {x y : V}
    (h : Reassigned rank rank' back forth)
    (inj : Set.InjOn rank s) (edge_mem : ∀ u v, edge u v → u ∈ s ∧ v ∈ s)
    (ranked : ∀ u v, edge u v → rank u < rank v)
    (hx : x ∈ s) (hy : y ∈ s) (hlt : rank y < rank x) (acyclic : ¬ ReflTransGen edge y x)
    (mem_back : ∀ v, v ∈ back ↔ ReflTransGen edge v x ∧ rank y < rank v)
    (mem_forth : ∀ v, v ∈ forth ↔ ReflTransGen edge y v ∧ rank v < rank x)
    {u v : V} (huv : edge u v ∨ u = x ∧ v = y) : rank' u < rank' v := by
  have range := h.mem_range ranked mem_back mem_forth
  rcases huv with huv | ⟨rfl, rfl⟩
  · have hr := ranked u v huv
    obtain ⟨hus, hvs⟩ := edge_mem u v huv
    by_cases ub : u ∈ back
    · by_cases vb : v ∈ back
      · exact h.back_mono u ub v vb hr
      by_cases vf : v ∈ forth
      · exact h.back_forth u ub v vf
      · rw [h.other v (by simp [vb, vf])]
        exact (h.back_le u ub).trans_lt hr
    by_cases uf : u ∈ forth
    · have hyv := ((mem_forth u).mp uf).1.tail huv
      by_cases vf : v ∈ forth
      · exact h.forth_mono u uf v vf hr
      by_cases vb : v ∈ back
      · exact absurd (hyv.trans ((mem_back v).mp vb).1) acyclic
      · -- `v` is reachable from `y` but not below `x`
        rw [h.other v (by simp [vb, vf])]
        have hxv : rank x ≤ rank v := by
          by_contra hlt'
          exact vf ((mem_forth v).mpr ⟨hyv, by omega⟩)
        rcases hxv.lt_or_eq with hxv | hxv
        · exact (range u (by simp [uf])).2.trans_lt hxv
        · exact absurd (inj hx hvs hxv ▸ hyv) acyclic
    · rw [h.other u (by simp [ub, uf])]
      by_cases vf : v ∈ forth
      · exact hr.trans_le (h.le_forth v vf)
      by_cases vb : v ∈ back
      · -- `u` reaches `x` but is not above `y`
        have hux := ReflTransGen.head huv ((mem_back v).mp vb).1
        have huy : rank u ≤ rank y := by
          by_contra hlt'
          exact ub ((mem_back u).mpr ⟨hux, by omega⟩)
        rcases huy.lt_or_eq with huy | huy
        · exact huy.trans_le (range v (by simp [vb])).1
        · exact absurd (inj hus hy huy ▸ hux) acyclic
      · rw [h.other v (by simp [vb, vf])]
        exact hr
  · exact h.back_forth u ((mem_back u).mpr ⟨.refl, hlt⟩) v ((mem_forth v).mpr ⟨.refl, hlt⟩)

end Reassigned
/-! ## Ranks of an acyclic relation -/

/-- A relation on finitely many vertices that has no cycle grows along some rank: the number of
vertices from which a vertex can be reached. -/
theorem exists_rank {R : V → V → Prop} (finite : {u | ∃ v, R u v}.Finite)
    (acyclic : ∀ v, ¬ TransGen R v v) : ∃ rank : V → Nat, ∀ u v, R u v → rank u < rank v := by
  refine ⟨fun v => {u | TransGen R u v}.ncard, fun u v huv => ?_⟩
  apply Set.ncard_lt_ncard
  · refine ⟨fun w hw => TransGen.tail hw huv, fun hsub => ?_⟩
    exact acyclic u (hsub (TransGen.single huv))
  · refine finite.subset fun w hw => ?_
    obtain ⟨x, hwx, -⟩ := TransGen.head'_iff.mp hw
    exact ⟨x, hwx⟩

end TopologicalOrder
