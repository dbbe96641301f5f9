import CppGuard.GraphCycles.Runs

/-!
# What `FindPath` answers

`FindPath` and `IsReachable` in terms of ids: a path is found if and only if there is one,
and the graph stays as it is.
-/
namespace CppGuard
namespace Rep
open Relation Transition

theorem makeId_parts {a : Nat} (ha : a < 2 ^ 64) : makeId (nodeIndex a) (nodeVersion a) = a := by
  change a / 2 ^ 32 % 2 ^ 32 % 2 ^ 32 * 2 ^ 32 + a % 2 ^ 32 % 2 ^ 32 = (a : Nat)
  omega

/-- The id of a node with a known id. -/
theorem idOf_nodeIndex {r : Rep} {id : GraphId} (hid : id < 2 ^ 64) (h : r.hasNode id = true) :
    r.idOf (nodeIndex id) = id := by
  obtain ⟨i, hi⟩ := Option.isSome_iff_exists.mp h
  obtain ⟨rfl, -, hv⟩ := findNode_eq_some.mp hi
  rw [idOf, hv]
  exact makeId_parts hid

theorem hasEdge_idOf {r : Rep} (hr : r.Inv) {u v : Nat} (h : r.Edge u v) :
    r.hasEdge (r.idOf u) (r.idOf v) = true := by
  have hu := h.left_lt
  have hv := hr.toOrdered.right_lt h
  have hfu : r.findNode (r.idOf u) = some u :=
    findNode_makeId hu hr.size_le (hr.version_le u hu)
  have hfv : r.findNode (r.idOf v) = some v :=
    findNode_makeId hv hr.size_le (hr.version_le v hv)
  have hindex : nodeIndex (r.idOf v) = v := (findNode_eq_some.mp hfv).1
  rw [hasEdge, hfu, hfv]
  change (r.node u).outSet.contains (nodeIndex (r.idOf v)) = true
  rw [hindex, ValidNodeSet.contains_eq]
  exact decide_eq_true h

theorem idOf_inj {r : Rep} (hr : r.Inv) {u v : Nat} (hu : u < r.size) (hv : v < r.size)
    (h : r.idOf u = r.idOf v) : u = v := by
  have hsize := hr.size_le
  rw [← nodeIndex_makeId (hu.trans_le hsize), ← nodeIndex_makeId (hv.trans_le hsize)]
  exact congrArg nodeIndex h

theorem IsPath.lt_size {r : Rep} (hr : r.Ordered) {x y : Nat} {nodes : List Nat}
    (h : r.IsPath x y nodes) (hx : x < r.size) : ∀ u ∈ nodes, u < r.size := by
  intro u hu
  obtain ⟨tail, rfl⟩ := List.head?_eq_some_iff.mp h.head
  obtain rfl | hu := List.mem_cons.mp hu
  · exact hx
  · obtain ⟨v, hv⟩ : ∃ v, r.Edge v u := by
      obtain ⟨front, back, rfl⟩ := List.append_of_mem hu
      have hchain := h.chain
      rw [← List.cons_append] at hchain
      obtain ⟨v, hv⟩ := Option.isSome_iff_exists.mp
        (List.getLast?_isSome.mpr (List.cons_ne_nil x front))
      exact ⟨v, (List.isChain_append.mp hchain).2.2 v hv u rfl⟩
    exact hr.right_lt hv

/-- A path from `x` to `y` in terms of ids. -/
structure IdPath (r : Rep) (x y : GraphId) (ids : List GraphId) : Prop where
  head : ids.head? = some x
  last : ids.getLast? = some y
  chain : ids.IsChain fun a b => r.hasEdge a b = true
  nodup : ids.Nodup
  length_le : ids.length ≤ r.size

theorem IsPath.idPath {r : Rep} (hr : r.Inv) {x y : GraphId} {nodes : List Nat} (hx : x < 2 ^ 64)
    (hy : y < 2 ^ 64) (hnx : r.hasNode x = true) (hny : r.hasNode y = true)
    (h : r.IsPath (nodeIndex x) (nodeIndex y) nodes) : r.IdPath x y (nodes.map r.idOf) := by
  obtain ⟨i, hi⟩ := Option.isSome_iff_exists.mp hnx
  obtain ⟨rfl, hlt, -⟩ := findNode_eq_some.mp hi
  have hsize := h.lt_size hr.toOrdered hlt
  have hnodup := h.nodup hr.toOrdered
  refine ⟨?_, ?_, ?_, ?_, ?_⟩
  · rw [List.head?_map, h.head, Option.map_some, idOf_nodeIndex hx hnx]
  · rw [List.getLast?_map, h.last, Option.map_some, idOf_nodeIndex hy hny]
  · exact (List.isChain_map _).mpr (h.chain.imp fun u v huv => hasEdge_idOf hr huv)
  · exact List.Nodup.map_on (fun u hu v hv => idOf_inj hr (hsize u hu) (hsize v hv)) hnodup
  · rw [List.length_map]
    exact Worklist.length_le_of_nodup hnodup hsize

/-- There is a path: both ids are valid, and they are equal or linked by edges. -/
def Connected (r : Rep) (x y : GraphId) : Prop :=
  r.hasNode x = true ∧ r.hasNode y = true ∧
    (x = y ∨ TransGen r.Edge (nodeIndex x) (nodeIndex y))

theorem connected_iff {r : Rep} {x y : GraphId} (hx : x < 2 ^ 64) (hy : y < 2 ^ 64)
    (hnx : r.hasNode x = true) (hny : r.hasNode y = true) :
    r.Connected x y ↔ ReflTransGen r.Edge (nodeIndex x) (nodeIndex y) := by
  rw [Connected, reflTransGen_iff_eq_or_transGen]
  constructor
  · rintro ⟨-, -, rfl | h⟩
    · exact Or.inl rfl
    · exact Or.inr h
  · rintro (h | h)
    · exact ⟨hnx, hny, Or.inl (findNode_inj hx hy hnx hny h.symm)⟩
    · exact ⟨hnx, hny, Or.inr h⟩

/-- `FindPath` returns for all ids: 0 exactly if there is no path, and otherwise the length of
a path without repetition whose first ids it has stored. -/
theorem findPath_answers {r : Rep} (hr : r.Inv) {x y : GraphId} (hx : x < 2 ^ 64)
    (hy : y < 2 ^ 64) (maxPathLen : Nat) (path : List GraphId)
    (room : maxPathLen ≤ path.length) :
    ∃ len path', r.findPath x y maxPathLen path = some (len, path') ∧
      (len = 0 ↔ ¬ r.Connected x y) ∧
      (len ≠ 0 → ∃ ids, r.IdPath x y ids ∧ ids.length = len ∧
        path'.take (min len maxPathLen) = ids.take maxPathLen) := by
  by_cases hnodes : r.hasNode x = true ∧ r.hasNode y = true
  · obtain ⟨hnx, hny⟩ := hnodes
    obtain ⟨i, hi⟩ := Option.isSome_iff_exists.mp hnx
    obtain ⟨j, hj⟩ := Option.isSome_iff_exists.mp hny
    obtain ⟨rfl, -, -⟩ := findNode_eq_some.mp hi
    obtain ⟨rfl, -, -⟩ := findNode_eq_some.mp hj
    obtain ⟨len, path', hfind, hresult⟩ := findPath_returns hr.toOrdered hi hj room
    refine ⟨len, path', hfind, ?_⟩
    rw [connected_iff hx hy hnx hny]
    obtain ⟨rfl, hno⟩ | ⟨nodes, hpath, rfl, hstored⟩ := hresult.found
    · exact ⟨iff_of_true rfl hno, fun h => absurd rfl h⟩
    · have hne : nodes ≠ [] := by
        rintro rfl
        cases hpath.head
      have hconnected : ReflTransGen r.Edge (nodeIndex x) (nodeIndex y) := by
        obtain ⟨tail, rfl⟩ := List.head?_eq_some_iff.mp hpath.head
        exact List.relationReflTransGen_of_exists_isChain_cons tail hpath.chain
          (by simpa [List.getLast?_eq_some_getLast] using hpath.last)
      refine ⟨iff_of_false (by simpa using hne) (not_not_intro hconnected), fun _ => ?_⟩
      refine ⟨_, hpath.idPath hr hx hy hnx hny, List.length_map .., ?_⟩
      have htake := List.prefix_iff_eq_take.mp hstored
      rw [htake, List.length_take, List.length_map, min_comm]
  · refine ⟨0, path, findPath_expired ?_ maxPathLen path, ?_, fun h => absurd rfl h⟩
    · rw [hasNode, hasNode] at hnodes
      cases hfx : r.findNode x with
      | none => exact Or.inl rfl
      | some i =>
        refine Or.inr (Option.not_isSome_iff_eq_none.mp fun hfy => hnodes ⟨?_, hfy⟩)
        rw [hfx, Option.isSome_some]
    · exact iff_of_true rfl fun h => hnodes ⟨h.1, h.2.1⟩

/-- `FindPath` and `IsReachable` decide reachability and leave the graph alone. -/
theorem findPath_decides {r : Rep} (hr : r.Inv) (x y : GraphId) (hx : x < 2 ^ 64)
    (hy : y < 2 ^ 64) (maxPathLen : Nat) (path : List GraphId)
    (room : maxPathLen ≤ path.length) :
    (∃ len path', r.findPath x y maxPathLen path = some (len, path') ∧
      (len = 0 ↔ ¬ r.Connected x y) ∧
      (len ≠ 0 → ∃ ids, r.IdPath x y ids ∧ ids.length = len ∧
        path'.take (min len maxPathLen) = ids.take maxPathLen)) ∧
    (∀ maxLocks, step maxLocks r (.findPath x y maxPathLen) = some r) ∧
    ∃ reachable, r.isReachable x y = some reachable ∧ (reachable = true ↔ r.Connected x y) := by
  refine ⟨findPath_answers hr hx hy maxPathLen path room, fun maxLocks => ?_, ?_⟩
  · obtain ⟨len, path', hfind, -⟩ := findPath_answers hr hx hy maxPathLen
      (List.replicate maxPathLen invalidGraphId) (by simp)
    simp only [step, hfind, Option.map_some]
  · obtain ⟨len, path', hfind, hzero, -⟩ := findPath_answers hr hx hy 0 [] le_rfl
    refine ⟨decide (0 < len), by simp [isReachable, hfind], ?_⟩
    rw [decide_eq_true_iff, Nat.pos_iff_ne_zero, ne_eq, hzero, not_not]

/-- Four locks in a row. -/
def chainOps : List Op :=
  [.getId 1 8, .getId 1 16, .getId 1 24, .getId 1 32, .insertEdge (makeId 0 1) (makeId 1 1),
    .insertEdge (makeId 1 1) (makeId 2 1), .insertEdge (makeId 2 1) (makeId 3 1)]

theorem findPath_decides_sample : ∃ r path' ids, exec (step 2) {} chainOps = some r ∧
    r.findPath (makeId 0 1) (makeId 3 1) 2 [0, 0] = some (4, path') ∧
    r.IdPath (makeId 0 1) (makeId 3 1) ids ∧ ids.length = 4 ∧ path'.take 2 = ids.take 2 ∧
    r.isReachable (makeId 0 1) (makeId 3 1) = some true := by
  obtain ⟨r, hrun, hlength⟩ : ∃ r, exec (step 2) {} chainOps = some r ∧
      (r.findPath (makeId 0 1) (makeId 3 1) 2 [0, 0]).map Prod.fst = some 4 :=
    exists_exec (by decide +kernel)
  obtain ⟨⟨len, path', hfind, hzero, hpath⟩, -, reachable, hreachable, hiff⟩ :=
    findPath_decides (exec_inv inv_empty hrun) (makeId 0 1) (makeId 3 1) (by decide) (by decide) 2
      [0, 0] (by decide)
  obtain rfl : len = 4 := by simpa [hfind] using hlength
  obtain ⟨ids, hids, hlen, htake⟩ := hpath (by decide)
  have hconnected : r.Connected (makeId 0 1) (makeId 3 1) := by
    by_contra hno
    exact absurd (hzero.mpr hno) (by decide)
  obtain rfl := hiff.mpr hconnected
  exact ⟨r, path', ids, hrun, hfind, hids, hlen, htake, hreachable⟩

end Rep
end CppGuard
