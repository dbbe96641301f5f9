import CppGuard.GraphCycles.Invariant

/-!
# The two searches of `InsertEdge`

A search changes nothing but visited marks, which `Marked` says. Both loops keep the
worklist invariant for their step relation: `forwardStep` follows edges to nodes of rank
below the bound, `backwardStep` follows them back to nodes of rank above it. The loops
end within their fuel because a visited node is expanded once.
-/
namespace CppGuard
namespace Rep
open Relation Worklist

/-- `r'` is `r` with the nodes of `vis` marked. -/
structure Marked (r : Rep) (vis : List Nat) (r' : Rep) : Prop where
  size : r'.size = r.size
  freeNodes : r'.freeNodes = r.freeNodes
  ptrmap : r'.ptrmap = r.ptrmap
  node : ∀ i, r'.node i = { r.node i with visited := decide (i ∈ vis) }

theorem Marked.nil {r : Rep} (h : ∀ i, (r.node i).visited = false) : Marked r [] r := by
  refine ⟨rfl, rfl, rfl, fun i => ?_⟩
  simp [← h i]

theorem Marked.mark {r r' : Rep} {vis : List Nat} (h : Marked r vis r') {n : Nat}
    (hn : n < r.size) :
    Marked r (vis ++ [n]) (r'.modify n fun m => { m with visited := true }) := by
  refine ⟨(size_modify ..).trans h.size, h.freeNodes, h.ptrmap, fun i => ?_⟩
  rw [node_modify _ (h.size ▸ hn), h.node]
  by_cases hi : i = n <;> simp [hi]

theorem Marked.visited {r r' : Rep} {vis : List Nat} (h : Marked r vis r') (i : Nat) :
    (r'.node i).visited = decide (i ∈ vis) := by rw [h.node]

theorem Marked.rank {r r' : Rep} {vis : List Nat} (h : Marked r vis r') (i : Nat) :
    (r'.node i).rank = (r.node i).rank := by rw [h.node]

theorem Marked.outSet {r r' : Rep} {vis : List Nat} (h : Marked r vis r') (i : Nat) :
    (r'.node i).outSet = (r.node i).outSet := by rw [h.node]

theorem Marked.inSet {r r' : Rep} {vis : List Nat} (h : Marked r vis r') (i : Nat) :
    (r'.node i).inSet = (r.node i).inSet := by rw [h.node]

/-! ## Progress -/

/-- The nodes of `pre` and `vis` are marked, those of `stack` are pending, and `fuel` iterations
are enough. -/
structure Searching (r : Rep) (pre vis stack : List Nat) (fuel : Nat) (r' : Rep) : Prop where
  marked : Marked r (pre ++ vis) r'
  nodup : vis.Nodup
  lt : ∀ v, v ∈ vis ∨ v ∈ stack → v < r.size
  enough : potential r.size vis stack ≤ fuel

namespace Searching

variable {r r' : Rep} {pre vis stack stack' : List Nat} {fuel n root : Nat}

theorem start (hm : Marked r pre r') (hroot : root < r.size) :
    Searching r pre [] [root] r'.searchFuel r' where
  marked := by simpa using hm
  nodup := List.nodup_nil
  lt v hv := by
    obtain rfl : v = root := by simpa using hv
    exact hroot
  enough := by simp [potential, searchFuel, hm.size, Nat.add_comm]

theorem done (h : Searching r pre vis stack 0 r') : stack = [] := by
  have := h.enough
  exact List.eq_nil_of_length_eq_zero (by rw [potential] at this; omega)

/-- The next node was visited before. -/
theorem skip (h : Searching r pre vis (n :: stack) (fuel + 1) r') :
    Searching r pre vis stack fuel r' where
  marked := h.marked
  nodup := h.nodup
  lt v hv := h.lt v (hv.imp_right (List.mem_cons_of_mem n))
  enough := by
    have := potential_skip r.size n vis stack
    have := h.enough
    omega

theorem mark (h : Searching r pre vis (n :: stack) (fuel + 1) r') :
    Marked r (pre ++ (vis ++ [n])) (r'.modify n fun m => { m with visited := true }) := by
  rw [← List.append_assoc]
  exact h.marked.mark (h.lt n (by simp))

theorem nodup_visited (h : Searching r pre vis (n :: stack) (fuel + 1) r') (hn : n ∉ vis) :
    (vis ++ [n]).Nodup := h.nodup.append (List.nodup_singleton n) (by simpa using hn)

/-- Only a few nodes are pending, and there is room for those that a new node leads to. -/
theorem length_le (h : Searching r pre vis (n :: stack) (fuel + 1) r') (hn : n ∉ vis) :
    vis.length < r.size ∧ stack.length + r.size ≤ fuel := by
  have room := length_lt_of_concat (h.nodup_visited hn) (lt_of_mem_concat h.lt)
  have hone := Nat.le_mul_of_pos_right r.size (Nat.sub_pos_of_lt room)
  have henough := h.enough
  rw [potential, List.length_cons] at henough
  exact ⟨room, by omega⟩

/-- The next node is visited, and nodes that it leads to are pending. -/
theorem visit (h : Searching r pre vis (n :: stack) (fuel + 1) r') (hn : n ∉ vis)
    (hlen : stack'.length ≤ stack.length + r.size)
    (hlt : ∀ v ∈ stack', v ∈ stack ∨ v < r.size) :
    Searching r pre (vis ++ [n]) stack' fuel
      (r'.modify n fun m => { m with visited := true }) where
  marked := h.mark
  nodup := h.nodup_visited hn
  lt v hv := by
    obtain hv | hv := hv
    · exact lt_of_mem_concat h.lt v hv
    · exact (hlt v hv).elim (fun hv => h.lt v (by simp [hv])) id
  enough := by
    have := potential_visit (n := n) (h.length_le hn).1 hlen
    have := h.enough
    omega

end Searching

/-! ## Forward -/

def forwardStep (r : Rep) (upperBound u w : Nat) : Prop :=
  w ∈ (r.node u).outSet ∧ (r.node w).rank < upperBound

theorem pushForward_eq_none {r : Rep} {ub : Nat} {ws stack : List Nat}
    (h : r.pushForward ub ws stack = none) : ∃ w ∈ ws, (r.node w).rank = ub := by
  induction ws generalizing stack with
  | nil => cases h
  | cons w ws ih =>
    rw [pushForward] at h
    split_ifs at h with hw
    · exact ⟨w, by simp, hw⟩
    all_goals
      obtain ⟨v, hv, hvr⟩ := ih h
      exact ⟨v, by simp [hv], hvr⟩

/-- What the inner loop pushes when it meets no cycle. -/
theorem pushForward_eq_some {r : Rep} {ub : Nat} {ws stack stack' : List Nat}
    (h : r.pushForward ub ws stack = some stack') :
    (∀ w ∈ ws, (r.node w).rank ≠ ub) ∧ stack'.length ≤ stack.length + ws.length ∧
      ∀ w, w ∈ stack' ↔ w ∈ stack ∨
        w ∈ ws ∧ (r.node w).visited = false ∧ (r.node w).rank < ub := by
  induction ws generalizing stack with
  | nil =>
    obtain rfl := Option.some.inj h
    simp
  | cons w ws ih =>
    rw [pushForward] at h
    split_ifs at h with hw hpush
    all_goals
      obtain ⟨hne, hlen, hmem⟩ := ih h
      refine ⟨by simpa [hw] using hne, by simp at hlen ⊢; omega, fun v => ?_⟩
      rw [hmem]
    · grind
    · grind

/-- The result of a forward search from `root`: the whole search space, or a node in it
with a successor of rank `ub`. -/
structure ForwardResult (r : Rep) (ub root : Nat) (ok : Bool) (deltaf : List Nat) (r' : Rep) :
    Prop where
  marked : Marked r deltaf r'
  nodup : deltaf.Nodup
  lt : ∀ v ∈ deltaf, v < r.size
  exact : ok = true → ∀ v, v ∈ deltaf ↔ ReflTransGen (r.forwardStep ub) root v
  clear : ok = true → ∀ v ∈ deltaf, ∀ w ∈ (r.node v).outSet, (r.node w).rank ≠ ub
  cycle : ok = false → ∃ v, ReflTransGen (r.forwardStep ub) root v ∧
    ∃ w ∈ (r.node v).outSet, (r.node w).rank = ub

theorem forwardLoop_returns {r : Rep} {ub root : Nat}
    (bounded : ∀ u, ∀ w ∈ (r.node u).outSet, w < r.size) (fuel : Nat)
    (stack vis : List Nat) (r' : Rep) (h : Searching r [] vis stack fuel r')
    (explored : Explored (r.forwardStep ub) root vis stack)
    (clear : ∀ v ∈ vis, ∀ w ∈ (r.node v).outSet, (r.node w).rank ≠ ub) :
    ∃ ok deltaf r'', forwardLoop ub fuel stack vis r' = some (ok, deltaf, r'') ∧
      ForwardResult r ub root ok deltaf r'' := by
  induction fuel generalizing stack vis r' with
  | zero =>
    obtain rfl := h.done
    exact ⟨true, vis, r', by simp [forwardLoop], h.marked, h.nodup,
      fun v hv => h.lt v (Or.inl hv), fun _ v => explored.complete v, fun _ => clear, by simp⟩
  | succ fuel ih =>
    cases stack with
    | nil =>
      exact ⟨true, vis, r', by simp [forwardLoop], h.marked, h.nodup,
        fun v hv => h.lt v (Or.inl hv), fun _ v => explored.complete v, fun _ => clear, by simp⟩
    | cons n stack =>
      have hvisited : (r'.node n).visited = decide (n ∈ vis) := h.marked.visited n
      rw [forwardLoop, hvisited]
      by_cases hv : n ∈ vis
      · rw [decide_eq_true hv, if_pos rfl]
        exact ih stack vis r' h.skip (explored.skip hv) clear
      · have hm' := h.mark
        rw [decide_eq_false hv, if_neg (by simp)]
        dsimp only
        cases hp : (r'.modify n fun m => { m with visited := true }).pushForward ub
            ((r'.modify n fun m => { m with visited := true }).node n).outSet.elems stack with
        | none =>
          obtain ⟨w, hw, hrank⟩ := pushForward_eq_none hp
          rw [ValidNodeSet.mem_elems, hm'.outSet] at hw
          rw [hm'.rank] at hrank
          exact ⟨false, _, _, rfl, hm', h.nodup_visited hv, lt_of_mem_concat h.lt, by simp,
            by simp, fun _ => ⟨n, explored.sound n (Or.inr (by simp)), w, hw, hrank⟩⟩
        | some stack' =>
          obtain ⟨hne, hlen, hmem⟩ := pushForward_eq_some hp
          simp only [ValidNodeSet.mem_elems, hm'.outSet, hm'.rank, hm'.visited] at hne hlen hmem
          have degree : (r.node n).outSet.elems.length ≤ r.size := length_elems_le (bounded n)
          have hpushed : ∀ w, w ∈ stack' ↔
              w ∈ stack ∨ r.forwardStep ub n w ∧ ¬ w ∈ vis ++ [n] := by
            intro w
            rw [hmem, forwardStep]
            grind
          refine ih stack' (vis ++ [n]) _ (h.visit hv (by omega) ?_)
            (explored.visit_unmarked hpushed ?_) ?_
          · exact fun v hv => ((hpushed v).mp hv).imp_right fun hv => bounded n v hv.1.1
          · exact fun w _ hw => by simpa using hw
          · intro v hv w hw
            rcases List.mem_append.mp hv with hv | hv
            · exact clear v hv w hw
            · obtain rfl : v = n := by simpa using hv
              exact hne w hw

/-- `ForwardDFS` returns, with the search space of its root or a cycle. -/
theorem forwardDFS_returns {r : Rep} (unvisited : ∀ i, (r.node i).visited = false)
    (bounded : ∀ u, ∀ w ∈ (r.node u).outSet, w < r.size) (ub : Nat) {root : Nat}
    (hroot : root < r.size) :
    ∃ ok deltaf r', r.forwardDFS root ub = some (ok, deltaf, r') ∧
      ForwardResult r ub root ok deltaf r' :=
  forwardLoop_returns bounded _ [root] [] r (.start (Marked.nil unvisited) hroot)
    (Explored.init _ root) (by simp)

/-! ## Backward -/

def backwardStep (r : Rep) (lowerBound u w : Nat) : Prop :=
  w ∈ (r.node u).inSet ∧ lowerBound < (r.node w).rank

theorem mem_pushBackward {r : Rep} {lb : Nat} {ws stack : List Nat} {w : Nat} :
    w ∈ r.pushBackward lb ws stack ↔ w ∈ stack ∨
      w ∈ ws ∧ (r.node w).visited = false ∧ lb < (r.node w).rank := by
  induction ws generalizing stack with
  | nil => simp [pushBackward]
  | cons v ws ih =>
    rw [pushBackward]
    split_ifs with hpush
    · rw [ih]; grind
    · rw [ih]; grind

theorem length_pushBackward_le (r : Rep) (lb : Nat) (ws stack : List Nat) :
    (r.pushBackward lb ws stack).length ≤ stack.length + ws.length := by
  induction ws generalizing stack with
  | nil => simp [pushBackward]
  | cons v ws ih =>
    rw [pushBackward]
    split_ifs
    · have := ih (v :: stack); simp at this ⊢; omega
    · have := ih stack; simp; omega

/-- The loop of `BackwardDFS`, with the nodes of `pre` still marked by the forward search.
The two search spaces are disjoint, so these marks are never seen. -/
theorem backwardLoop_returns {r : Rep} {lb root : Nat} {pre : List Nat}
    (bounded : ∀ u, ∀ w ∈ (r.node u).inSet, w < r.size)
    (disjoint : ∀ v, ReflTransGen (r.backwardStep lb) root v → v ∉ pre) (fuel : Nat)
    (stack vis : List Nat) (r' : Rep) (h : Searching r pre vis stack fuel r')
    (explored : Explored (r.backwardStep lb) root vis stack) :
    ∃ deltab r'', backwardLoop lb fuel stack vis r' = some (deltab, r'') ∧
      Marked r (pre ++ deltab) r'' ∧ deltab.Nodup ∧ (∀ v ∈ deltab, v < r.size) ∧
      ∀ v, v ∈ deltab ↔ ReflTransGen (r.backwardStep lb) root v := by
  induction fuel generalizing stack vis r' with
  | zero =>
    obtain rfl := h.done
    exact ⟨vis, r', by simp [backwardLoop], h.marked, h.nodup, fun v hv => h.lt v (Or.inl hv),
      explored.complete⟩
  | succ fuel ih =>
    cases stack with
    | nil =>
      exact ⟨vis, r', by simp [backwardLoop], h.marked, h.nodup, fun v hv => h.lt v (Or.inl hv),
        explored.complete⟩
    | cons n stack =>
      have hnpre : n ∉ pre := disjoint n (explored.sound n (Or.inr (by simp)))
      rw [backwardLoop]
      by_cases hv : n ∈ vis
      · rw [h.marked.visited, decide_eq_true (List.mem_append_right _ hv), if_pos rfl]
        exact ih stack vis r' h.skip (explored.skip hv)
      · have hm' := h.mark
        rw [h.marked.visited, decide_eq_false (by simp [hv, hnpre]), if_neg (by simp)]
        have hlen := length_pushBackward_le (r'.modify n fun m => { m with visited := true }) lb
          ((r'.modify n fun m => { m with visited := true }).node n).inSet.elems stack
        have hmem := @mem_pushBackward (r'.modify n fun m => { m with visited := true }) lb
          ((r'.modify n fun m => { m with visited := true }).node n).inSet.elems stack
        simp only [ValidNodeSet.mem_elems, hm'.inSet, hm'.rank, hm'.visited] at hlen hmem ⊢
        have degree : (r.node n).inSet.elems.length ≤ r.size := length_elems_le (bounded n)
        have reach : ∀ w, r.backwardStep lb n w → ReflTransGen (r.backwardStep lb) root w :=
          fun w hw => (explored.sound n (Or.inr (by simp))).tail hw
        have hstep : ∀ w, (w ∈ (r.node n).inSet ∧ decide (w ∈ pre ++ (vis ++ [n])) = false ∧
            lb < (r.node w).rank) ↔ r.backwardStep lb n w ∧ ¬ w ∈ pre ++ (vis ++ [n]) := by
          intro w
          rw [backwardStep]
          grind
        have hpushed := fun w => (@hmem w).trans (or_congr_right (hstep w))
        refine ih _ (vis ++ [n]) _ (h.visit hv (by omega) ?_)
          (explored.visit_unmarked hpushed ?_)
        · exact fun v hv => ((hpushed v).mp hv).imp_right fun hv => bounded n v hv.1.1
        · intro w hw hwv
          have hpre := disjoint w (reach w hw)
          simpa only [List.mem_append, List.mem_singleton, hpre, false_or] using hwv

theorem backwardDFS_returns {r r' : Rep} {pre : List Nat} (hm : Marked r pre r')
    (bounded : ∀ u, ∀ w ∈ (r.node u).inSet, w < r.size) (lb : Nat) {root : Nat}
    (hroot : root < r.size)
    (disjoint : ∀ v, ReflTransGen (r.backwardStep lb) root v → v ∉ pre) :
    ∃ deltab r'', r'.backwardDFS root lb = some (deltab, r'') ∧
      Marked r (pre ++ deltab) r'' ∧ deltab.Nodup ∧ (∀ v ∈ deltab, v < r.size) ∧
      ∀ v, v ∈ deltab ↔ ReflTransGen (r.backwardStep lb) root v :=
  backwardLoop_returns bounded disjoint _ [root] [] r' (.start hm hroot)
    (Explored.init _ root)

end Rep
end CppGuard
