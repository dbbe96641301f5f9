import CppGuard.GraphCycles.Search
import CppGuard.Library.TopologicalOrder

/-!
# Correctness of `Reorder`

`Reorder` clears the marks of both search spaces and hands the ranks they occupy out
again. The result differs from the graph before the searches in ranks only (`Reranked`),
and the new ranks are the reassignment that repairs a topological order.
-/
namespace CppGuard
namespace Rep
open TopologicalOrder

theorem node_modify_default {f : Node → Node} (hf : f default = default) (r : Rep) (i j : Nat) :
    (r.modify i f).node j = if j = i then f (r.node j) else r.node j := by
  by_cases hi : i < r.size
  · exact node_modify f hi j
  · split_ifs with hj
    · have hge : r.size ≤ j := by omega
      rw [node_of_size_le ((size_modify r i f).trans_le hge), node_of_size_le hge, hf]
    · exact node_modify_of_ne f hj

theorem node_clearVisited (r : Rep) (ws : List Nat) (i : Nat) :
    (r.clearVisited ws).node i =
      { r.node i with visited := (r.node i).visited && !decide (i ∈ ws) } := by
  induction ws generalizing r with
  | nil => simp [clearVisited]
  | cons w ws ih =>
    rw [clearVisited, List.foldl_cons, ← clearVisited, ih, node_modify_default rfl]
    by_cases hi : i = w <;> simp [hi]

theorem clearVisited_fields (r : Rep) (ws : List Nat) :
    (r.clearVisited ws).size = r.size ∧ (r.clearVisited ws).freeNodes = r.freeNodes ∧
      (r.clearVisited ws).ptrmap = r.ptrmap := by
  induction ws generalizing r with
  | nil => exact ⟨rfl, rfl, rfl⟩
  | cons w ws ih =>
    rw [clearVisited, List.foldl_cons, ← clearVisited]
    simpa using ih (r.modify w _)

/-- `r'` is `r` with the ranks `rank'`. -/
structure Reranked (r : Rep) (rank' : Nat → Nat) (r' : Rep) : Prop where
  size : r'.size = r.size
  freeNodes : r'.freeNodes = r.freeNodes
  ptrmap : r'.ptrmap = r.ptrmap
  node : ∀ i, r'.node i = { r.node i with rank := rank' i }

theorem assignRanks_spec {r : Rep} (list merged : List Nat) (nodup : list.Nodup)
    (lt : ∀ v ∈ list, v < r.size) (hlen : merged.length = list.length) :
    ∃ rank', Reranked r rank' (r.assignRanks list merged) ∧ list.map rank' = merged ∧
      ∀ v, v ∉ list → rank' v = r.rank v := by
  induction list generalizing r merged with
  | nil =>
    obtain rfl := List.eq_nil_of_length_eq_zero hlen
    exact ⟨r.rank, ⟨rfl, rfl, rfl, fun i => rfl⟩, rfl, fun _ _ => rfl⟩
  | cons v list ih =>
    obtain ⟨k, merged, rfl⟩ := List.exists_cons_of_length_eq_add_one hlen
    obtain ⟨hv, nodup⟩ := List.nodup_cons.mp nodup
    have hvlt : v < r.size := lt v (by simp)
    let r₁ := r.modify v fun n => { n with rank := k }
    have hnode : ∀ i, r₁.node i = if i = v then { r.node i with rank := k } else r.node i :=
      node_modify _ hvlt
    obtain ⟨rank', h, hmap, hother⟩ := ih (r := r₁) merged nodup
      (fun w hw => (lt w (by simp [hw])).trans_eq (size_modify ..).symm) (by simpa using hlen)
    have hk : rank' v = k := by rw [hother v hv, rank, hnode, if_pos rfl]
    refine ⟨rank', ⟨h.size.trans (size_modify ..), h.freeNodes, h.ptrmap, fun i => ?_⟩, ?_, ?_⟩
    · refine (h.node i).trans ?_
      rw [hnode]
      split_ifs <;> rfl
    · rw [List.map_cons, hk, hmap]
    · intro w hw
      obtain ⟨hwv, hw⟩ := not_or.mp (List.mem_cons.not.mp hw)
      rw [hother w hw, rank, hnode, if_neg hwv, rank]

theorem sort_perm (r : Rep) (l : List Nat) : (r.sort l).Perm l :=
  List.perm_insertionSort _ l

theorem mem_sort {r : Rep} {l : List Nat} {v : Nat} : v ∈ r.sort l ↔ v ∈ l :=
  (r.sort_perm l).mem_iff

/-- Distinct ranks make the sorted list strictly sorted. -/
theorem sort_sorted {r : Rep} {l : List Nat} (nodup : (l.map r.rank).Nodup) :
    ((r.sort l).map r.rank).Pairwise (· < ·) := by
  have total : Std.Total fun a b => (r.node a).rank ≤ (r.node b).rank := ⟨fun a b => le_total _ _⟩
  have trans : IsTrans Nat fun a b => (r.node a).rank ≤ (r.node b).rank :=
    ⟨fun a b c => le_trans⟩
  have hle : ((r.sort l).map r.rank).Pairwise (· ≤ ·) :=
    List.pairwise_map.mpr (List.pairwise_insertionSort _ l)
  have hne : ((r.sort l).map r.rank).Nodup := ((r.sort_perm l).map r.rank).nodup_iff.mpr nodup
  exact (hle.and hne).imp fun ⟨h, h'⟩ => lt_of_le_of_ne h h'

theorem mergeRanks_perm (xs ys : List Nat) : (mergeRanks xs ys).Perm (xs ++ ys) := by
  rw [mergeRanks_eq]
  exact List.merge_perm_append _

theorem mergeRanks_sorted {xs ys : List Nat} (hx : xs.Pairwise (· < ·)) (hy : ys.Pairwise (· < ·))
    (nodup : (xs ++ ys).Nodup) : (mergeRanks xs ys).Pairwise (· < ·) := by
  have hle : (mergeRanks xs ys).Pairwise (· ≤ ·) := by
    rw [mergeRanks_eq]
    refine (@List.pairwise_merge _ (fun a b => decide (a ≤ b)) ?_ ?_ xs ys ?_ ?_).imp ?_
    · simp only [decide_eq_true_eq]
      exact fun a b c => le_trans
    · simp only [Bool.or_eq_true, decide_eq_true_eq]
      exact le_total
    · exact hx.imp fun h => decide_eq_true h.le
    · exact hy.imp fun h => decide_eq_true h.le
    · exact fun h => by simpa using h
  exact (hle.and ((mergeRanks_perm xs ys).nodup_iff.mpr nodup)).imp
    fun ⟨h, h'⟩ => lt_of_le_of_ne h h'

/-- `Reorder`, after searches that marked `deltaf` and `deltab` on `r`. -/
theorem reorder_spec {r r' : Rep} {deltaf deltab : List Nat}
    (unvisited : ∀ i, (r.node i).visited = false) (hm : Marked r (deltaf ++ deltab) r')
    (lt : ∀ v ∈ deltaf ++ deltab, v < r.size)
    (nodup : ((deltab ++ deltaf).map r.rank).Nodup) :
    ∃ rank', Reranked r rank' (r'.reorder deltaf deltab) ∧
      Reassigned r.rank rank' (r.sort deltab) (r.sort deltaf) := by
  have hrank : r'.rank = r.rank := funext hm.rank
  have hsort : ∀ l, r'.sort l = r.sort l := by
    intro l
    simp only [sort, hm.rank]
  let back := r.sort deltab
  let forth := r.sort deltaf
  let r₁ := r'.clearVisited back
  let r₂ := r₁.clearVisited forth
  have perm : (back ++ forth).Perm (deltab ++ deltaf) :=
    (r.sort_perm deltab).append (r.sort_perm deltaf)
  have nodup' : ((back ++ forth).map r.rank).Nodup := (perm.map r.rank).nodup_iff.mpr nodup
  have cleared : ∀ i, r₂.node i = r.node i := by
    intro i
    have hi : i ∈ deltaf ++ deltab → i ∈ back ∨ i ∈ forth := by
      simp only [List.mem_append, back, forth, mem_sort]
      exact Or.symm
    have hmark : (decide (i ∈ deltaf ++ deltab) && !decide (i ∈ back) && !decide (i ∈ forth)) =
        (r.node i).visited := by
      rw [unvisited i]
      by_cases h : i ∈ deltaf ++ deltab
      · rcases hi h with h | h <;> simp [h]
      · simp only [h, decide_false, Bool.false_and]
    simp only [r₂, r₁, node_clearVisited, hm.node, hmark]
  have hsize : r₂.size = r.size :=
    ((clearVisited_fields ..).1.trans (clearVisited_fields ..).1).trans hm.size
  have hranks : (forth.map fun w => (r₁.node w).rank) = forth.map r.rank := by
    refine List.map_congr_left fun w _ => ?_
    rw [node_clearVisited]
    exact hm.rank w
  have hreorder : r'.reorder deltaf deltab = r₂.assignRanks (back ++ forth)
      (mergeRanks (back.map r.rank) (forth.map r.rank)) := by
    simp only [reorder, moveToList, hsort, ← hranks]
    congr 2
    exact List.map_congr_left fun w _ => hm.rank w
  have hperm : (mergeRanks (back.map r.rank) (forth.map r.rank)).Perm
      ((back ++ forth).map r.rank) := by
    rw [List.map_append]
    exact mergeRanks_perm _ _
  obtain ⟨rank', h, hmap, hother⟩ := assignRanks_spec (r := r₂) (back ++ forth)
    (mergeRanks (back.map r.rank) (forth.map r.rank)) nodup'.of_map
    (fun v hv => hsize ▸ lt v (by simpa [or_comm] using perm.mem_iff.mp hv))
    (by simpa using hperm.length_eq)
  rw [List.map_append] at nodup
  have hback := sort_sorted nodup.of_append_left
  have hforth := sort_sorted nodup.of_append_right
  refine ⟨rank', ?_, Reassigned.of_pool hback hforth ?_ hperm hmap fun v hv => ?_⟩
  · rw [hreorder]
    refine ⟨h.size.trans hsize, ?_, ?_, fun i => by rw [h.node, cleared]⟩
    · exact (h.freeNodes.trans (clearVisited_fields ..).2.1).trans
        ((clearVisited_fields ..).2.1.trans hm.freeNodes)
    · exact (h.ptrmap.trans (clearVisited_fields ..).2.2).trans
        ((clearVisited_fields ..).2.2.trans hm.ptrmap)
  · exact mergeRanks_sorted hback hforth (by rwa [← List.map_append])
  · rw [hother v hv, rank, cleared, rank]

end Rep
end CppGuard
