import CppGuard.GraphCycles.Runs

/-!
# Reordering is local

A new edge `x → y` against the ranks moves two sets of nodes only: those that `y` reaches below
the rank of `x`, and those that reach `x` above the rank of `y`. They exchange their ranks, and
each set keeps its order.
-/
namespace CppGuard
namespace Rep
open Relation Transition TopologicalOrder

/-- The searches of a successful `InsertEdge` against the ranks, and the ranks behind it. -/
theorem insertEdge_reorders {r r' : Rep} (hr : r.Inv) {idx idy : GraphId} {x y : Nat}
    (hx : r.findNode idx = some x) (hy : r.findNode idy = some y) (hlt : r.rank y < r.rank x)
    (h : r.insertEdge idx idy = some (true, r')) :
    ∃ deltaf r₂ deltab r₃,
      (r.storeEdge x y).forwardDFS y (r.rank x) = some (true, deltaf, r₂) ∧
      r₂.backwardDFS x (r.rank y) = some (deltab, r₃) ∧ r' = r₃.reorder deltaf deltab ∧
      (∀ v, v ∈ deltaf ↔ ReflTransGen r.Edge y v ∧ r.rank v < r.rank x) ∧
      (∀ v, v ∈ deltab ↔ ReflTransGen r.Edge v x ∧ r.rank y < r.rank v) ∧
      (deltab ++ deltaf).Nodup ∧
      (∀ v, v ∉ deltab ++ deltaf → r'.rank v = r.rank v) ∧
      ((deltab ++ deltaf).map r'.rank).Perm ((deltab ++ deltaf).map r.rank) ∧
      (∀ v ∈ deltab ++ deltaf, r.rank y ≤ r'.rank v ∧ r'.rank v ≤ r.rank x) ∧
      (∀ u ∈ deltab, ∀ v ∈ deltab, r'.rank u < r'.rank v ↔ r.rank u < r.rank v) ∧
      (∀ u ∈ deltaf, ∀ v ∈ deltaf, r'.rank u < r'.rank v ↔ r.rank u < r.rank v) := by
  obtain ⟨-, hxlt, -⟩ := findNode_eq_some.mp hx
  obtain ⟨-, hylt, -⟩ := findNode_eq_some.mp hy
  have ho := hr.toOrdered
  have hxy : x ≠ y := by
    rintro rfl
    exact lt_irrefl _ hlt
  have fresh : ¬ r.Edge x y := fun hedge => (ho.ranked x y hedge).asymm hlt
  have hstored := stored hxlt hylt
  obtain ⟨ok, deltaf, r₂, hf, hres⟩ := hstored.forwardDFS ho hylt
  rw [insertEdge_fresh hx hy hxy fresh, if_neg (Nat.not_le.mpr hlt), hf] at h
  cases ok with
  | false =>
    -- a cycle: the call has failed
    simp at h
  | true =>
    obtain ⟨deltab, r₃, hb, hrel, -⟩ := hstored.reorder ho hxlt hylt hlt hres
    have hry : r₂.rank y = r.rank y := (hres.marked.rank y).trans (hstored.rank y)
    obtain rfl : r₃.reorder deltaf deltab = r' := by simpa [hry, hb] using h
    have hmoved := hrel.reassigned
    have lt_size : ∀ v ∈ deltab ++ deltaf, v < r.size := by
      intro v hv
      rcases List.mem_append.mp hv with hv | hv
      · exact (ReflTransGen.cases_head ((hrel.back v).mp hv).1).elim (fun h => h ▸ hxlt)
          fun ⟨_, hedge, _⟩ => hedge.left_lt
      · exact (ReflTransGen.cases_tail ((hrel.forth v).mp hv).1).elim (fun h => h ▸ hylt)
          fun ⟨_, _, hedge⟩ => ho.right_lt hedge
    have inj : ∀ l, l ⊆ deltab ++ deltaf → ∀ u ∈ l, ∀ v ∈ l, r.rank u = r.rank v → u = v :=
      fun l hl u hu v hv heq => ho.rank_inj (lt_size u (hl hu)) (lt_size v (hl hv)) heq
    refine ⟨deltaf, r₂, deltab, r₃, hf, hb, rfl, hrel.forth, hrel.back, hrel.nodup, hmoved.other,
      hmoved.perm, hmoved.mem_range ho.ranked hrel.back hrel.forth, ?_, ?_⟩
    · intro u hu v hv
      exact Reassigned.lt_iff_lt hmoved.back_mono (inj _ (List.subset_append_left ..)) hu hv
    · intro u hu v hv
      exact Reassigned.lt_iff_lt hmoved.forth_mono (inj _ (List.subset_append_right ..)) hu hv

/-- Three locks in a row, and the edge from the third one to the first. -/
def rowOps : List Op :=
  [.getId 1 8, .getId 1 16, .getId 1 24, .insertEdge (makeId 0 1) (makeId 1 1)]

theorem insertEdge_reorders_sample : ∃ r r',
    exec (step 2) {} rowOps = some r ∧
    r.insertEdge (makeId 2 1) (makeId 0 1) = some (true, r') ∧
    ∃ deltaf r₂, (r.storeEdge 2 0).forwardDFS 0 (r.rank 2) = some (true, deltaf, r₂) ∧
      ∀ v, v ∈ deltaf ↔ ReflTransGen r.Edge 0 v ∧ r.rank v < r.rank 2 := by
  obtain ⟨r, hrun, hx, hy, hlt, hany⟩ : ∃ r, exec (step 2) {} rowOps = some r ∧
      r.findNode (makeId 2 1) = some 2 ∧ r.findNode (makeId 0 1) = some 0 ∧ r.rank 0 < r.rank 2 ∧
      (r.insertEdge (makeId 2 1) (makeId 0 1)).any Prod.fst = true :=
    exists_exec (by decide +kernel)
  obtain ⟨⟨ok, r'⟩, h, rfl⟩ := (Option.any_eq_true _ _).mp hany
  obtain ⟨deltaf, r₂, -, -, hf, -, -, hmem, -⟩ :=
    insertEdge_reorders (exec_inv inv_empty hrun) hx hy hlt h
  exact ⟨r, r', hrun, h, deltaf, r₂, hf, hmem⟩

end Rep
end CppGuard
