import CppGuard.GraphCycles.Invariant
import Mathlib.Data.List.Chain
import Mathlib.Data.List.ReduceOption

/-!
# Correctness of `FindPath`

The stack of `FindPath` is a sequence of frames, one for each node of the tentative path,
separated by markers. A node is pushed once, so every iteration takes from the number of
markers, of pending nodes and of unseen nodes.
-/
namespace CppGuard
namespace Rep
open Relation Worklist

structure IsPath (r : Rep) (x y : Nat) (nodes : List Nat) : Prop where
  chain : nodes.IsChain r.Edge
  head : nodes.head? = some x
  last : nodes.getLast? = some y

theorem IsPath.ranks {r : Rep} (hr : r.Ordered) {x y : Nat} {nodes : List Nat}
    (h : IsPath r x y nodes) : (nodes.map r.rank).Pairwise (· < ·) := by
  have hchain : nodes.IsChain fun u v => r.rank u < r.rank v :=
    h.chain.imp fun u v huv => hr.ranked u v huv
  have : IsTrans Nat fun u v => r.rank u < r.rank v := ⟨fun _ _ _ => lt_trans⟩
  exact List.pairwise_map.mpr (List.isChain_iff_pairwise.mp hchain)

/-- Ranks grow along a path, so no node repeats. -/
theorem IsPath.nodup {r : Rep} (hr : r.Ordered) {x y : Nat} {nodes : List Nat}
    (h : IsPath r x y nodes) : nodes.Nodup :=
  List.Nodup.of_map r.rank ((h.ranks hr).imp fun hlt => ne_of_lt hlt)

theorem prefix_set {α : Type*} {l path : List α} (h : l <+: path) (room : l.length < path.length)
    (a : α) : l ++ [a] <+: path.set l.length a := by
  obtain ⟨s, rfl⟩ := h
  cases s with
  | nil => simp at room
  | cons b s => exact ⟨s, by simp⟩

/-- What `FindPath` returns for the nodes `x` and `y`. -/
structure PathResult (r : Rep) (x y maxPathLen : Nat) (path : List GraphId) (len : Nat)
    (path' : List GraphId) : Prop where
  room : path'.length = path.length
  found : (len = 0 ∧ ¬ ReflTransGen r.Edge x y) ∨
    ∃ nodes, IsPath r x y nodes ∧ len = nodes.length ∧
      (nodes.map r.idOf).take maxPathLen <+: path'

theorem length_elems_insert {s : ValidNodeSet} {v : Nat} (h : v ∉ s) :
    (s.insert v).2.elems.length = s.elems.length + 1 := by
  have hperm : (s.insert v).2.elems.Perm (v :: s.elems) := by
    refine (List.perm_ext_iff_of_nodup (ValidNodeSet.nodup_elems _) ?_).mpr fun w => by simp
    exact List.nodup_cons.mpr ⟨by simpa using h, s.nodup_elems⟩
  simpa using hperm.length_eq

theorem pushUnseen_spec (ws : List Nat) (stack : List (Option Nat)) (seen : ValidNodeSet) :
    ∃ new : List Nat, (pushUnseen ws stack seen).1 = new.map some ++ stack ∧
      (∀ w ∈ new, w ∈ ws) ∧
      (∀ w, w ∈ (pushUnseen ws stack seen).2 ↔ w ∈ seen ∨ w ∈ new) ∧
      (∀ w ∈ ws, w ∈ seen ∨ w ∈ new) ∧
      (pushUnseen ws stack seen).2.elems.length = seen.elems.length + new.length := by
  induction ws generalizing stack seen with
  | nil => exact ⟨[], by simp [pushUnseen]⟩
  | cons w ws ih =>
    rw [pushUnseen]
    by_cases hw : w ∈ seen
    · obtain ⟨new, hstack, hnew, hseen, hcover, hlen⟩ := ih stack seen
      simp only [ValidNodeSet.insert_of_mem hw, Bool.false_eq_true, if_false]
      exact ⟨new, hstack, fun v hv => by simp [hnew v hv], hseen, by simpa [hw] using hcover, hlen⟩
    · have hfst : (seen.insert w).1 = true := by
        rw [ValidNodeSet.insert_fst]
        exact decide_eq_true hw
      obtain ⟨new, hstack, hnew, hseen, hcover, hlen⟩ := ih (some w :: stack) (seen.insert w).2
      simp only [hfst, if_true]
      refine ⟨new ++ [w], by simp [hstack], ?_, ?_, ?_, ?_⟩
      · intro v hv
        rcases List.mem_append.mp hv with hv | hv
        · exact List.mem_cons_of_mem w (hnew v hv)
        · exact List.mem_cons.mpr (Or.inl (List.mem_singleton.mp hv))
      · intro v
        rw [hseen, ValidNodeSet.mem_insert]
        simp only [List.mem_append, List.mem_singleton]
        tauto
      · intro v hv
        rcases List.mem_cons.mp hv with rfl | hv
        · simp
        · have := hcover v hv
          rw [ValidNodeSet.mem_insert] at this
          simp only [List.mem_append, List.mem_singleton]
          tauto
      · rw [hlen, length_elems_insert hw, List.length_append, List.length_singleton]
        omega

/-- An upper bound on the number of iterations. -/
def pathPotential (N : Nat) (stack : List (Option Nat)) (seen : ValidNodeSet) : Nat :=
  stack.length + stack.reduceOption.length + 2 * (N - seen.elems.length)

/-- The state of the loop: `trail` is the tentative path, with its end first, and `path` the
array. -/
structure PathSearch (r : Rep) (x y maxPathLen : Nat) (stack : List (Option Nat))
    (seen : ValidNodeSet) (trail visited : List Nat) (path : List GraphId) : Prop where
  frames : Frames r.Edge x trail stack
  explored : Explored r.Edge x visited stack.reduceOption
  accounted : ∀ w ∈ seen, w ∈ visited ∨ w ∈ stack.reduceOption
  bounded : ∀ w ∈ seen, w < r.size
  notMem : y ∉ visited
  stored : (trail.reverse.map r.idOf).take maxPathLen <+: path

/-- The array after the node `n` was reached. -/
def storeNode (r : Rep) (maxPathLen n : Nat) (trail : List Nat) (path : List GraphId) :
    List GraphId :=
  if trail.length < maxPathLen then path.set trail.length (r.idOf n) else path

theorem length_storeNode (r : Rep) (maxPathLen n : Nat) (trail : List Nat) (path : List GraphId) :
    (r.storeNode maxPathLen n trail path).length = path.length := by
  unfold storeNode
  split_ifs <;> simp

namespace PathSearch

variable {r : Rep} {x y n maxPathLen : Nat} {stack : List (Option Nat)} {seen : ValidNodeSet}
  {trail visited : List Nat} {path : List GraphId}

theorem start (r : Rep) (x y maxPathLen : Nat) (path : List GraphId) :
    PathSearch r x y maxPathLen [some x] ∅ [] [] path where
  frames := .pending rfl .nil
  explored := Explored.init _ x
  accounted w hw := absurd hw (ValidNodeSet.notMem_empty w)
  bounded w hw := absurd hw (ValidNodeSet.notMem_empty w)
  notMem := by simp
  stored := by simp

theorem leave (h : PathSearch r x y maxPathLen (none :: stack) seen (n :: trail) visited path)
    (frames : Frames r.Edge x trail stack) :
    PathSearch r x y maxPathLen stack seen trail visited path where
  frames := frames
  explored := by simpa using h.explored
  accounted := by simpa using h.accounted
  bounded := h.bounded
  notMem := h.notMem
  stored := by
    refine List.IsPrefix.trans ?_ h.stored
    rw [List.reverse_cons, List.map_append, List.take_append]
    exact List.prefix_append ..

/-- The array holds the tentative path with its new end. -/
theorem stored_cons (h : PathSearch r x y maxPathLen (some n :: stack) seen trail visited path)
    (room : maxPathLen ≤ path.length) :
    ((n :: trail).reverse.map r.idOf).take maxPathLen <+: r.storeNode maxPathLen n trail path := by
  have hpath := h.stored
  rw [List.reverse_cons, List.map_append, List.map_singleton, storeNode]
  split_ifs with hlt
  · rw [List.take_of_length_le (by simp; omega)] at hpath ⊢
    have := prefix_set hpath (by simp; omega) (r.idOf n)
    simpa using this
  · rw [List.take_append_of_le_length (by simp; omega)]
    exact hpath

/-- The tentative path has reached `y`. -/
theorem isPath (hn : Extends r.Edge x trail n) (frames : Frames r.Edge x trail stack) :
    IsPath r x n (n :: trail).reverse := by
  obtain ⟨hchain, hroot⟩ := (Frames.leave hn frames).chain
  refine ⟨List.isChain_reverse.mpr hchain, ?_, by simp⟩
  rw [List.head?_reverse]
  cases hl : (n :: trail).getLast? with
  | none => simp at hl
  | some v => rw [hroot v hl]

/-- What is pushed is pending after the marker of `n`. -/
theorem reduceOption_pushed (new : List Nat) (stack : List (Option Nat)) :
    (new.map some ++ none :: stack).reduceOption = new ++ stack.reduceOption := by
  simp [List.reduceOption, List.filterMap_map]

/-- The loop goes on with the successors of `n` that were not seen before. -/
theorem visit (hr : r.Ordered)
    (h : PathSearch r x y maxPathLen (some n :: stack) seen trail visited path)
    (hn : Extends r.Edge x trail n) (frames : Frames r.Edge x trail stack) (hne : n ≠ y)
    (room : maxPathLen ≤ path.length) :
    PathSearch r x y maxPathLen (pushUnseen (r.node n).outSet.elems (none :: stack) seen).1
      (pushUnseen (r.node n).outSet.elems (none :: stack) seen).2 (n :: trail) (visited ++ [n])
      (r.storeNode maxPathLen n trail path) := by
  obtain ⟨new, hstack, hnew, hseen', hcover, -⟩ :=
    pushUnseen_spec (r.node n).outSet.elems (none :: stack) seen
  have hedge : ∀ w ∈ new, r.Edge n w := fun w hw => ValidNodeSet.mem_elems.mp (hnew w hw)
  have hexplored := h.explored
  have hseen := h.accounted
  rw [List.reduceOption_cons_of_some] at hexplored hseen
  refine ⟨?_, ?_, ?_, ?_, ?_, h.stored_cons room⟩
  · rw [hstack]
    exact (Frames.leave hn frames).push hedge
  · rw [hstack, reduceOption_pushed]
    refine hexplored.visit ?_ (fun w hw => List.mem_append_right _ hw) ?_
    · intro w hw
      rcases List.mem_append.mp hw with hw | hw
      · exact Or.inr (hedge w hw)
      · exact Or.inl hw
    · intro w hw
      rcases hcover w (ValidNodeSet.mem_elems.mpr hw) with hw | hw
      · rcases hseen w hw with hw | hw
        · exact Or.inl hw
        · rcases List.mem_cons.mp hw with rfl | hw
          · exact Or.inr (Or.inl rfl)
          · exact Or.inr (Or.inr (List.mem_append_right _ hw))
      · exact Or.inr (Or.inr (List.mem_append_left _ hw))
  · rw [hstack, reduceOption_pushed]
    intro w hw
    simp only [List.mem_append, List.mem_singleton]
    rcases (hseen' w).mp hw with hw | hw
    · have := hseen w hw
      rw [List.mem_cons] at this
      tauto
    · exact Or.inr (Or.inl hw)
  · intro w hw
    rcases (hseen' w).mp hw with hw | hw
    · exact h.bounded w hw
    · exact hr.right_lt (hedge w hw)
  · simp [h.notMem, Ne.symm hne]

/-- Pushing the successors of `n` takes from the bound. -/
theorem pathPotential_visit (bounded : ∀ w ∈
      (pushUnseen (r.node n).outSet.elems (none :: stack) seen).2, w < r.size) :
    pathPotential r.size (pushUnseen (r.node n).outSet.elems (none :: stack) seen).1
        (pushUnseen (r.node n).outSet.elems (none :: stack) seen).2 <
      pathPotential r.size (some n :: stack) seen := by
  obtain ⟨new, hstack, -, -, -, hcount⟩ :=
    pushUnseen_spec (r.node n).outSet.elems (none :: stack) seen
  have room := length_elems_le bounded
  rw [hcount] at room
  rw [pathPotential, pathPotential, hstack, reduceOption_pushed, hcount]
  simp only [List.length_append, List.length_map, List.length_cons,
    List.reduceOption_cons_of_some]
  omega

end PathSearch

theorem findPathLoop_returns {r : Rep} (hr : r.Ordered) {x y maxPathLen : Nat} (fuel : Nat)
    (stack : List (Option Nat)) (seen : ValidNodeSet) (trail visited : List Nat)
    (path : List GraphId) (room : maxPathLen ≤ path.length)
    (h : PathSearch r x y maxPathLen stack seen trail visited path)
    (hfuel : pathPotential r.size stack seen ≤ fuel) :
    ∃ len path', r.findPathLoop y maxPathLen fuel stack seen trail.length path =
      some (len, path') ∧ PathResult r x y maxPathLen path len path' := by
  induction fuel generalizing stack seen trail visited path with
  | zero =>
    obtain rfl : stack = [] :=
      List.eq_nil_of_length_eq_zero (by rw [pathPotential] at hfuel; omega)
    exact ⟨0, path, by simp [findPathLoop], rfl,
      Or.inl ⟨rfl, fun hxy => h.notMem ((h.explored.complete y).mpr hxy)⟩⟩
  | succ fuel ih =>
    have hframes := h.frames
    cases hframes with
    | nil =>
      exact ⟨0, path, by simp [findPathLoop], rfl,
        Or.inl ⟨rfl, fun hxy => h.notMem ((h.explored.complete y).mpr hxy)⟩⟩
    | @leave v trail stack _ frames =>
      rw [findPathLoop]
      simp only [List.length_cons, Nat.add_sub_cancel]
      refine ih stack seen trail visited path room (h.leave frames) ?_
      simp only [pathPotential, List.length_cons, List.reduceOption_cons_of_none] at hfuel ⊢
      omega
    | @pending n _ stack hn frames =>
      have hloop : r.findPathLoop y maxPathLen (fuel + 1) (some n :: stack) seen trail.length path =
          if n = y then some (trail.length + 1, r.storeNode maxPathLen n trail path)
          else r.findPathLoop y maxPathLen fuel
            (pushUnseen (r.node n).outSet.elems (none :: stack) seen).1
            (pushUnseen (r.node n).outSet.elems (none :: stack) seen).2 (trail.length + 1)
            (r.storeNode maxPathLen n trail path) := rfl
      have hlength := r.length_storeNode maxPathLen n trail path
      rw [hloop]
      by_cases hny : n = y
      · subst hny
        exact ⟨trail.length + 1, _, if_pos rfl, hlength, Or.inr ⟨(n :: trail).reverse,
          PathSearch.isPath hn frames, by simp, h.stored_cons room⟩⟩
      · have h' := h.visit hr hn frames hny room
        have := PathSearch.pathPotential_visit h'.bounded
        rw [if_neg hny, ← List.length_cons]
        obtain ⟨len, path', hreturns, hresult⟩ :=
          ih _ _ (n :: trail) (visited ++ [n]) _ (room.trans_eq hlength.symm) h' (by omega)
        exact ⟨len, path', hreturns, hresult.room.trans hlength, hresult.found⟩

/-- `FindPath` returns: 0 if there is no path, or else the length of one, with its first
nodes stored. -/
theorem findPath_returns {r : Rep} (hr : r.Ordered) {idx idy : GraphId} {x y : Nat}
    (hx : r.findNode idx = some x) (hy : r.findNode idy = some y) {maxPathLen : Nat}
    {path : List GraphId} (room : maxPathLen ≤ path.length) :
    ∃ len path', r.findPath idx idy maxPathLen path = some (len, path') ∧
      PathResult r x y maxPathLen path len path' := by
  rw [findPath, hx, hy]
  refine findPathLoop_returns hr _ [some x] ∅ [] [] path room (.start r x y maxPathLen path) ?_
  simp only [pathPotential, List.length_cons, List.reduceOption_cons_of_some, List.length_nil,
    List.reduceOption_nil]
  omega

theorem findPath_expired {r : Rep} {idx idy : GraphId}
    (h : r.findNode idx = none ∨ r.findNode idy = none) (maxPathLen : Nat) (path : List GraphId) :
    r.findPath idx idy maxPathLen path = some (0, path) := by
  rw [findPath]
  rcases h with h | h
  · rw [h]
  · rw [h]
    cases r.findNode idx <;> rfl

end Rep
end CppGuard
