import Mathlib.Logic.Relation
import Mathlib.Data.Finset.Card
import Mathlib.Data.Finset.Range
import Mathlib.Data.List.Nodup

/-!
# Searching a graph with a worklist

A search keeps the vertices it has visited and a stack of vertices to look at. The
invariant `Explored` does not depend on the order of the stack, on when a vertex is
marked, or on whether the stack repeats a vertex, so depth-first searches of different
make share it: `init` starts it, `skip` and `visit` are the two ways to pop, and
`complete` reads off the reachable set when the stack is empty. `potential` bounds the
number of pops.
-/
namespace Worklist
open Relation

variable {V : Type*} {step : V → V → Prop} {root : V}

structure Explored (step : V → V → Prop) (root : V) (visited stack : List V) : Prop where
  root_seen : root ∈ visited ∨ root ∈ stack
  sound : ∀ v, v ∈ visited ∨ v ∈ stack → ReflTransGen step root v
  closed : ∀ v ∈ visited, ∀ w, step v w → w ∈ visited ∨ w ∈ stack

theorem Explored.init (step : V → V → Prop) (root : V) : Explored step root [] [root] where
  root_seen := Or.inr (List.mem_singleton_self root)
  sound v hv := by
    obtain rfl : v = root := by simpa using hv
    exact .refl
  closed v hv := by cases hv

/-- Pop a vertex that was visited before. -/
theorem Explored.skip {n : V} {visited stack : List V}
    (h : Explored step root visited (n :: stack)) (hn : n ∈ visited) :
    Explored step root visited stack where
  root_seen := by
    rcases h.root_seen with hr | hr
    · exact Or.inl hr
    · rcases List.mem_cons.mp hr with rfl | hr
      · exact Or.inl hn
      · exact Or.inr hr
  sound v hv := h.sound v (hv.imp_right (List.mem_cons_of_mem n))
  closed v hv w hw := by
    rcases h.closed v hv w hw with hw | hw
    · exact Or.inl hw
    · rcases List.mem_cons.mp hw with rfl | hw
      · exact Or.inl hn
      · exact Or.inr hw

/-- Pop a vertex, visit it, and push its successors that are not accounted for. -/
theorem Explored.visit {n : V} {visited stack stack' : List V}
    (h : Explored step root visited (n :: stack))
    (pushed : ∀ w ∈ stack', w ∈ stack ∨ step n w) (kept : ∀ w ∈ stack, w ∈ stack')
    (cover : ∀ w, step n w → w ∈ visited ∨ w = n ∨ w ∈ stack') :
    Explored step root (visited ++ [n]) stack' where
  root_seen := by
    rcases h.root_seen with hr | hr
    · exact Or.inl (List.mem_append_left _ hr)
    · rcases List.mem_cons.mp hr with rfl | hr
      · exact Or.inl (by simp)
      · exact Or.inr (kept _ hr)
  sound v hv := by
    have hn := h.sound n (Or.inr (by simp))
    rcases hv with hv | hv
    · rcases List.mem_append.mp hv with hv | hv
      · exact h.sound v (Or.inl hv)
      · obtain rfl : v = n := by simpa using hv
        exact hn
    · rcases pushed v hv with hv | hv
      · exact h.sound v (Or.inr (List.mem_cons_of_mem n hv))
      · exact hn.tail hv
  closed v hv w hw := by
    simp only [List.mem_append, List.mem_singleton] at hv ⊢
    rcases hv with hv | rfl
    · rcases h.closed v hv w hw with hw | hw
      · exact Or.inl (Or.inl hw)
      · rcases List.mem_cons.mp hw with rfl | hw
        · exact Or.inl (Or.inr rfl)
        · exact Or.inr (kept w hw)
    · rcases cover w hw with hw | rfl | hw
      · exact Or.inl (Or.inl hw)
      · exact Or.inl (Or.inr rfl)
      · exact Or.inr hw

/-- Visit a vertex and push its successors that are not marked, if marks that they have are
accounted for. -/
theorem Explored.visit_unmarked {n : V} {visited stack stack' : List V} {marked : V → Prop}
    (h : Explored step root visited (n :: stack))
    (hmem : ∀ w, w ∈ stack' ↔ w ∈ stack ∨ step n w ∧ ¬ marked w)
    (seen : ∀ w, step n w → marked w → w ∈ visited ∨ w = n) :
    Explored step root (visited ++ [n]) stack' := by
  refine h.visit (fun w hw => ((hmem w).mp hw).imp_right And.left)
    (fun w hw => (hmem w).mpr (Or.inl hw)) fun w hw => ?_
  by_cases hmarked : marked w
  · exact (seen w hw hmarked).imp_right Or.inl
  · exact Or.inr (Or.inr ((hmem w).mpr (Or.inr ⟨hw, hmarked⟩)))

/-- With nothing left to look at, the visited vertices are the reachable ones. -/
theorem Explored.complete {visited : List V} (h : Explored step root visited []) (v : V) :
    v ∈ visited ↔ ReflTransGen step root v := by
  constructor
  · exact fun hv => h.sound v (Or.inl hv)
  · intro hv
    induction hv with
    | refl => simpa using h.root_seen
    | tail _ hw ih => simpa using h.closed _ ih _ hw

/-! ## Termination -/

/-- An upper bound on the number of pops, for at most `N` vertices of degree at most `N`. -/
def potential (N : Nat) (visited stack : List V) : Nat :=
  stack.length + N * (N - visited.length)

theorem potential_skip (N : Nat) (n : V) (visited stack : List V) :
    potential N visited stack < potential N visited (n :: stack) := by
  simp only [potential, List.length_cons]
  omega

theorem potential_visit {N : Nat} {n : V} {visited stack stack' : List V}
    (room : visited.length < N) (degree : stack'.length ≤ stack.length + N) :
    potential N (visited ++ [n]) stack' < potential N visited (n :: stack) := by
  obtain ⟨k, hk⟩ : ∃ k, N - visited.length = k + 1 := ⟨N - visited.length - 1, by omega⟩
  have hk' : N - (visited.length + 1) = k := by omega
  simp only [potential, List.length_append, List.length_cons, List.length_nil, Nat.zero_add,
    hk, hk', Nat.mul_succ]
  omega

/-! ## Marks for leaving a vertex

A depth-first search that pushes a mark, here `none`, under the successors of a vertex
knows the path it is on: `Frames trail stack` relates the two, with the end of the path at
the head of `trail`.
-/

/-- `w` may come next on the path. -/
def Extends (step : V → V → Prop) (root : V) : List V → V → Prop
  | [], w => w = root
  | u :: _, w => step u w

inductive Frames (step : V → V → Prop) (root : V) : List V → List (Option V) → Prop
  | nil : Frames step root [] []
  | leave {v trail stack} : Extends step root trail v → Frames step root trail stack →
      Frames step root (v :: trail) (none :: stack)
  | pending {w trail stack} : Extends step root trail w → Frames step root trail stack →
      Frames step root trail (some w :: stack)

theorem Frames.push {trail ws : List V} {stack : List (Option V)}
    (h : Frames step root trail stack) (hws : ∀ w ∈ ws, Extends step root trail w) :
    Frames step root trail (ws.map some ++ stack) := by
  induction ws with
  | nil => exact h
  | cons w ws ih => exact .pending (hws w (by simp)) (ih fun v hv => hws v (by simp [hv]))

theorem Frames.chain {trail : List V} {stack : List (Option V)}
    (h : Frames step root trail stack) :
    trail.IsChain (fun a b => step b a) ∧ ∀ v ∈ trail.getLast?, v = root := by
  induction h with
  | nil => simp
  | pending _ _ ih => exact ih
  | @leave v trail _ hv _ ih =>
    cases trail with
    | nil => simpa [Extends] using hv
    | cons u trail => simpa using ⟨⟨hv, ih.1⟩, by simpa using ih.2⟩

/-- A list of different numbers below `N` is no longer than `N`. -/
theorem length_le_of_nodup {N : Nat} {l : List Nat} (nodup : l.Nodup) (lt : ∀ v ∈ l, v < N) :
    l.length ≤ N := by
  rw [← List.toFinset_card_of_nodup nodup, ← Finset.card_range N]
  exact Finset.card_le_card fun v hv => Finset.mem_range.mpr (lt v (List.mem_toFinset.mp hv))

/-- The visited vertices stay below `N` when the next one is visited. -/
theorem lt_of_mem_concat {N n : Nat} {visited stack : List Nat}
    (lt : ∀ v, v ∈ visited ∨ v ∈ n :: stack → v < N) : ∀ v ∈ visited ++ [n], v < N := by
  intro v hv
  rcases List.mem_append.mp hv with hv | hv
  · exact lt v (Or.inl hv)
  · obtain rfl : v = n := by simpa using hv
    exact lt v (Or.inr List.mem_cons_self)

/-- There is room for a vertex that was not visited before. -/
theorem length_lt_of_concat {N n : Nat} {visited : List Nat} (nodup : (visited ++ [n]).Nodup)
    (lt : ∀ v ∈ visited ++ [n], v < N) : visited.length < N := by
  have := length_le_of_nodup nodup lt
  rw [List.length_append, List.length_singleton] at this
  omega

end Worklist
