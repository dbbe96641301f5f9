import CppGuard.GraphCycles.NodeSet.Near
import CppGuard.GraphCycles.Runs

/-!
# `GraphCycles` with its vectors

The operations once more, with the limits of the vectors: a call that outgrows one of them is
`none`. `Grow` does not end then, and in a table with more than `2 ^ 30` slots the cursor of `Next`
overflows. `nodes_` is limited in `GetId` already, and `free_nodes_` is never longer than `nodes_`
(`length_freeNodes_le`). A call that returns here returns the same without the limits
(`step_unbounded`). That memory can be allocated is taken for granted.
-/
namespace CppGuard
open LinearProbing

namespace ValidNodeSet

/-- The largest table of a `NodeSet`: the cursor of `Next` is an `int32_t`. -/
def maxTableSize : Nat := 2 ^ 30

/-- The table does not get too large when `v` is inserted. -/
def InsertFits (s : ValidNodeSet) (v : Nat) : Prop :=
  (s.insert v).2.val.table.length ≤ maxTableSize

instance (s : ValidNodeSet) (v : Nat) : Decidable (s.InsertFits v) :=
  inferInstanceAs (Decidable (_ ≤ _))

/-- Then the set over its `Vec` can be doubled, and the insertion into it returns. -/
theorem InsertFits.stored {s : NodeSet.Stored} (hs : s.Sound) {v : Nat}
    (h : InsertFits ⟨s.view, hs.valid⟩ v) (fresh : Nat → Cell Nat) :
    ∃ s' : NodeSet.Stored, s'.Sound ∧
      s.insert fresh v = some ((insert ⟨s.view, hs.valid⟩ v).1, s') ∧
        s'.view = (insert ⟨s.view, hs.valid⟩ v).2.val := by
  have hinsert : s.view.insert v = some ((insert ⟨s.view, hs.valid⟩ v).1,
      (insert ⟨s.view, hs.valid⟩ v).2.val) := by simp [insert]
  have hsize : s.table.size < 2 ^ 31 := by
    have hlength := (NodeSet.insert_size hs.valid hinsert).2
    rw [hs.length] at hlength
    simp only [InsertFits, maxTableSize] at h
    omega
  obtain ⟨b, s', hs', hwf, hview⟩ := hs.insert fresh hsize v
  obtain ⟨hb, hset⟩ := Prod.mk.inj (Option.some.inj (hview.symm.trans hinsert))
  exact ⟨s', ⟨hwf, hset ▸ (insert ⟨s.view, hs.valid⟩ v).2.2⟩, hb ▸ hs', hset⟩

end ValidNodeSet

namespace Rep

theorem Indexed.length_freeNodes_le {r : Rep} (hr : r.Indexed) : r.freeNodes.length ≤ r.size :=
  Worklist.length_le_of_nodup hr.free_nodup fun i hi => (hr.free i hi).1

/-- `InsertEdge` behind the comparison of the ranks: the edge is stored and does not fit them. -/
def searchCycle (r : Rep) (x y : Nat) : Option (Bool × Rep) := do
  let (ok, deltaf, r) ← r.forwardDFS y (r.node x).rank
  if ok = false then
    return (false, r.undoInsert x y deltaf)
  else
    let (deltab, r) ← r.backwardDFS x (r.node y).rank
    return (true, r.reorder deltaf deltab)

namespace Bounded

/-- `push_back` onto a stack. -/
def push {α : Type} (a : α) (stack : List α) : Option (List α) :=
  if stack.length < vecMaxSize then some (a :: stack) else none

/-- The inner loop of `ForwardDFS`; `some none` is a cycle. -/
def pushForward (r : Rep) (upperBound : Nat) : List Nat → List Nat → Option (Option (List Nat))
  | [], stack => some (some stack)
  | w :: ws, stack =>
    if (r.node w).rank = upperBound then some none
    else if (r.node w).visited = false ∧ (r.node w).rank < upperBound then do
      let stack ← push w stack
      pushForward r upperBound ws stack
    else pushForward r upperBound ws stack

def forwardLoop (upperBound : Nat) :
    Nat → List Nat → List Nat → Rep → Option (Bool × List Nat × Rep)
  | _, [], deltaf, r => some (true, deltaf, r)
  | 0, _ :: _, _, _ => none
  | fuel + 1, n :: stack, deltaf, r =>
    if (r.node n).visited then forwardLoop upperBound fuel stack deltaf r
    else do
      let r := r.modify n fun n => { n with visited := true }
      guard (deltaf.length < vecMaxSize)
      match ← pushForward r upperBound (r.node n).outSet.elems stack with
      | none => return (false, deltaf ++ [n], r)
      | some stack => forwardLoop upperBound fuel stack (deltaf ++ [n]) r

def forwardDFS (r : Rep) (n upperBound : Nat) : Option (Bool × List Nat × Rep) :=
  forwardLoop upperBound r.searchFuel [n] [] r

def pushBackward (r : Rep) (lowerBound : Nat) : List Nat → List Nat → Option (List Nat)
  | [], stack => some stack
  | w :: ws, stack =>
    if (r.node w).visited = false ∧ lowerBound < (r.node w).rank then do
      let stack ← push w stack
      pushBackward r lowerBound ws stack
    else pushBackward r lowerBound ws stack

def backwardLoop (lowerBound : Nat) :
    Nat → List Nat → List Nat → Rep → Option (List Nat × Rep)
  | _, [], deltab, r => some (deltab, r)
  | 0, _ :: _, _, _ => none
  | fuel + 1, n :: stack, deltab, r =>
    if (r.node n).visited then backwardLoop lowerBound fuel stack deltab r
    else do
      let r := r.modify n fun n => { n with visited := true }
      guard (deltab.length < vecMaxSize)
      let stack ← pushBackward r lowerBound (r.node n).inSet.elems stack
      backwardLoop lowerBound fuel stack (deltab ++ [n]) r

def backwardDFS (r : Rep) (n lowerBound : Nat) : Option (List Nat × Rep) :=
  backwardLoop lowerBound r.searchFuel [n] [] r

def searchCycle (r : Rep) (x y : Nat) : Option (Bool × Rep) := do
  let (ok, deltaf, r) ← forwardDFS r y (r.node x).rank
  if ok = false then
    return (false, r.undoInsert x y deltaf)
  else
    let (deltab, r) ← backwardDFS r x (r.node y).rank
    -- the size of `list_` and `merged_`
    guard (deltab.length + deltaf.length ≤ vecMaxSize)
    return (true, r.reorder deltaf deltab)

def insertEdge (r : Rep) (idx idy : GraphId) : Option (Bool × Rep) :=
  match r.findNode idx, r.findNode idy with
  | some x, some y =>
    if x = y then some (false, r)
    else do
      guard ((r.node x).outSet.InsertFits y)
      let (inserted, out) := (r.node x).outSet.insert y
      if inserted = false then return (true, r)
      else
        let r := r.modify x fun n => { n with outSet := out }
        guard ((r.node y).inSet.InsertFits x)
        let r := r.modify y fun n => { n with inSet := (n.inSet.insert x).2 }
        if (r.node x).rank ≤ (r.node y).rank then return (true, r)
        else searchCycle r x y
  | _, _ => some (true, r)

def pushUnseen :
    List Nat → List (Option Nat) → ValidNodeSet → Option (List (Option Nat) × ValidNodeSet)
  | [], stack, seen => some (stack, seen)
  | w :: ws, stack, seen => do
    guard (seen.InsertFits w)
    let (inserted, seen) := seen.insert w
    if inserted then
      let stack ← push (some w) stack
      pushUnseen ws stack seen
    else pushUnseen ws stack seen

def findPathLoop (r : Rep) (y maxPathLen : Nat) :
    Nat → List (Option Nat) → ValidNodeSet → Nat → List GraphId → Option (Nat × List GraphId)
  | _, [], _, _, path => some (0, path)
  | 0, _ :: _, _, _, _ => none
  | fuel + 1, none :: stack, seen, pathLen, path =>
    findPathLoop r y maxPathLen fuel stack seen (pathLen - 1) path
  | fuel + 1, some n :: stack, seen, pathLen, path => do
    let path :=
      if pathLen < maxPathLen then path.set pathLen (makeId n (r.node n).version) else path
    let stack ← push none stack
    if n = y then return (pathLen + 1, path)
    else
      let (stack, seen) ← pushUnseen (r.node n).outSet.elems stack seen
      findPathLoop r y maxPathLen fuel stack seen (pathLen + 1) path

def findPath (r : Rep) (idx idy : GraphId) (maxPathLen : Nat) (path : List GraphId) :
    Option (Nat × List GraphId) :=
  match r.findNode idx, r.findNode idy with
  | some x, some y =>
    findPathLoop r y maxPathLen (2 * r.size + 3) [some x] ∅ 0 path
  | _, _ => some (0, path)

def isReachable (r : Rep) (x y : GraphId) : Option Bool := do
  let (len, _) ← findPath r x y 0 []
  return decide (0 < len)

def step (maxLocks : Nat) (r : Rep) : Op → Option Rep
  | .insertEdge x y => (insertEdge r x y).map Prod.snd
  | .findPath x y maxPathLen =>
    (findPath r x y maxPathLen (List.replicate maxPathLen invalidGraphId)).map fun _ => r
  | op => r.step maxLocks op

/-! ## A call that returns does the same without the limits -/

variable {r : Rep} {ub lb x n y maxPathLen fuel pathLen : Nat} {idx idy : GraphId}
  {path : List GraphId}

/-- The stacks are vectors, and `push` is their `push_back`. -/
theorem push_vec {α : Type} {v : Vec α} (h : v.WellFormed) (fresh : Nat → α) (a : α) :
    push a v.elems.reverse = (v.pushBack fresh a).map fun v' => v'.elems.reverse := by
  unfold push
  rw [List.length_reverse, h.length_elems, vecMaxSize]
  obtain ⟨hlt, v', hpush, -, helems⟩ | ⟨hfull, hpush⟩ := h.pushBack fresh a
  · rw [if_pos hlt, hpush, Option.map_some, helems, List.reverse_append, List.reverse_singleton,
      List.singleton_append]
  · rw [if_neg (by omega), hpush, Option.map_none]

theorem push_eq_some {α : Type} {a : α} {stack stack' : List α} :
    push a stack = some stack' ↔ stack.length < vecMaxSize ∧ a :: stack = stack' := by
  unfold push
  split_ifs with hroom <;> simp [hroom]

theorem guard_bind_eq_some {α : Type} {p : Prop} [Decidable p] {k : Option α} {a : α} :
    (guard p >>= fun _ => k) = some a ↔ p ∧ k = some a := by
  by_cases hp : p <;> simp [guard, hp]

/-- Two computations that differ in one branch only. -/
theorem else_mono {α : Type} {p : Prop} [Decidable p] {k l l' a : α}
    (h : (if p then k else l) = a) (hl : l = a → l' = a) : (if p then k else l') = a := by
  split_ifs at h ⊢
  · exact h
  · exact hl h

theorem pushForward_unbounded {ws stack : List Nat} {res : Option (List Nat)}
    (h : pushForward r ub ws stack = some res) : r.pushForward ub ws stack = res := by
  induction ws generalizing stack with
  | nil => exact Option.some.inj h
  | cons w ws ih =>
    rw [Bounded.pushForward] at h
    rw [Rep.pushForward]
    split_ifs at h ⊢
    · exact Option.some.inj h
    · obtain ⟨_, hpush, h⟩ := Option.bind_eq_some_iff.mp h
      obtain ⟨-, rfl⟩ := push_eq_some.mp hpush
      exact ih h
    · exact ih h

theorem forwardLoop_unbounded {stack deltaf : List Nat} {res : Bool × List Nat × Rep}
    (h : forwardLoop ub fuel stack deltaf r = some res) :
    Rep.forwardLoop ub fuel stack deltaf r = some res := by
  induction fuel generalizing stack deltaf r with
  | zero => cases stack <;> exact h
  | succ fuel ih =>
    cases stack with
    | nil => exact h
    | cons n stack =>
      rw [Bounded.forwardLoop] at h
      rw [Rep.forwardLoop]
      split_ifs at h ⊢
      · exact ih h
      · obtain ⟨-, h⟩ := guard_bind_eq_some.mp h
        obtain ⟨pushed, hpush, h⟩ := Option.bind_eq_some_iff.mp h
        dsimp only
        rw [pushForward_unbounded hpush]
        cases pushed with
        | none => exact h
        | some stack => exact ih h

theorem pushBackward_unbounded {ws stack stack' : List Nat}
    (h : pushBackward r lb ws stack = some stack') : r.pushBackward lb ws stack = stack' := by
  induction ws generalizing stack with
  | nil => exact Option.some.inj h
  | cons w ws ih =>
    rw [Bounded.pushBackward] at h
    rw [Rep.pushBackward]
    split_ifs at h ⊢
    · obtain ⟨_, hpush, h⟩ := Option.bind_eq_some_iff.mp h
      obtain ⟨-, rfl⟩ := push_eq_some.mp hpush
      exact ih h
    · exact ih h

theorem backwardLoop_unbounded {stack deltab : List Nat} {res : List Nat × Rep}
    (h : backwardLoop lb fuel stack deltab r = some res) :
    Rep.backwardLoop lb fuel stack deltab r = some res := by
  induction fuel generalizing stack deltab r with
  | zero => cases stack <;> exact h
  | succ fuel ih =>
    cases stack with
    | nil => exact h
    | cons n stack =>
      rw [Bounded.backwardLoop] at h
      rw [Rep.backwardLoop]
      split_ifs at h ⊢
      · exact ih h
      · obtain ⟨-, h⟩ := guard_bind_eq_some.mp h
        obtain ⟨stack', hpush, h⟩ := Option.bind_eq_some_iff.mp h
        dsimp only
        rw [pushBackward_unbounded hpush]
        exact ih h

theorem searchCycle_unbounded {res : Bool × Rep} (h : searchCycle r x y = some res) :
    r.searchCycle x y = some res := by
  obtain ⟨⟨ok, deltaf, r₁⟩, hforward, h⟩ := Option.bind_eq_some_iff.mp h
  refine Option.bind_eq_some_iff.mpr ⟨_, forwardLoop_unbounded hforward, ?_⟩
  dsimp only at h ⊢
  split_ifs at h ⊢
  · exact h
  · obtain ⟨⟨deltab, r₂⟩, hbackward, h⟩ := Option.bind_eq_some_iff.mp h
    obtain ⟨-, h⟩ := guard_bind_eq_some.mp h
    exact Option.bind_eq_some_iff.mpr ⟨_, backwardLoop_unbounded hbackward, h⟩

theorem insertEdge_unbounded {res : Bool × Rep} (h : insertEdge r idx idy = some res) :
    r.insertEdge idx idy = some res := by
  unfold Bounded.insertEdge at h
  unfold Rep.insertEdge
  cases hx : r.findNode idx with
  | none => simpa [hx] using h
  | some x =>
    cases hy : r.findNode idy with
    | none => simpa [hx, hy] using h
    | some y =>
      simp only [hx, hy] at h ⊢
      refine else_mono h fun h => ?_
      obtain ⟨-, h⟩ := guard_bind_eq_some.mp h
      refine else_mono h fun h => ?_
      obtain ⟨-, h⟩ := guard_bind_eq_some.mp h
      exact else_mono h searchCycle_unbounded

theorem pushUnseen_unbounded {ws : List Nat} {stack : List (Option Nat)} {seen : ValidNodeSet}
    {res : List (Option Nat) × ValidNodeSet} (h : pushUnseen ws stack seen = some res) :
    Rep.pushUnseen ws stack seen = res := by
  induction ws generalizing stack seen with
  | nil => exact Option.some.inj h
  | cons w ws ih =>
    rw [Bounded.pushUnseen] at h
    rw [Rep.pushUnseen]
    obtain ⟨-, h⟩ := guard_bind_eq_some.mp h
    dsimp only at h ⊢
    split_ifs at h ⊢
    · obtain ⟨_, hpush, h⟩ := Option.bind_eq_some_iff.mp h
      obtain ⟨-, rfl⟩ := push_eq_some.mp hpush
      exact ih h
    · exact ih h

theorem findPathLoop_unbounded {stack : List (Option Nat)} {seen : ValidNodeSet}
    {res : Nat × List GraphId}
    (h : findPathLoop r y maxPathLen fuel stack seen pathLen path = some res) :
    r.findPathLoop y maxPathLen fuel stack seen pathLen path = some res := by
  induction fuel generalizing stack seen pathLen path with
  | zero => cases stack <;> exact h
  | succ fuel ih =>
    obtain _ | ⟨_ | n, stack⟩ := stack
    · exact h
    · rw [Bounded.findPathLoop] at h
      rw [Rep.findPathLoop]
      exact ih h
    · -- a node is entered, with a marker for the way back
      rw [Bounded.findPathLoop] at h
      rw [Rep.findPathLoop]
      obtain ⟨_, hpush, h⟩ := Option.bind_eq_some_iff.mp h
      obtain ⟨-, rfl⟩ := push_eq_some.mp hpush
      refine else_mono h fun h => ?_
      obtain ⟨⟨stack', seen'⟩, hunseen, h⟩ := Option.bind_eq_some_iff.mp h
      rw [pushUnseen_unbounded hunseen]
      exact ih h

theorem findPath_unbounded {res : Nat × List GraphId}
    (h : findPath r idx idy maxPathLen path = some res) :
    r.findPath idx idy maxPathLen path = some res := by
  unfold Bounded.findPath at h
  unfold Rep.findPath
  cases hx : r.findNode idx with
  | none => simpa [hx] using h
  | some x =>
    cases hy : r.findNode idy with
    | none => simpa [hx, hy] using h
    | some y =>
      simp only [hx, hy] at h ⊢
      exact findPathLoop_unbounded h

theorem step_unbounded {maxLocks : Nat} {op : Op} {r' : Rep}
    (h : step maxLocks r op = some r') : r.step maxLocks op = some r' := by
  cases op with
  | insertEdge idx idy =>
    obtain ⟨res, hres, rfl⟩ := Option.map_eq_some_iff.mp h
    exact Option.map_eq_some_iff.mpr ⟨res, insertEdge_unbounded hres, rfl⟩
  | findPath idx idy maxPathLen =>
    obtain ⟨res, hres, rfl⟩ := Option.map_eq_some_iff.mp h
    exact Option.map_eq_some_iff.mpr ⟨res, findPath_unbounded hres, rfl⟩
  | _ => exact h

end Bounded
end Rep
end CppGuard
