import CppGuard.GraphCycles.Rep
import Mathlib.Data.List.Sort

/-!
# The operations of `GraphCycles`

Incremental cycle detection after Pearce and Kelly, as `graphcycles.cc` has it. An
operation that contains a loop over the graph returns an `Option`: its loops take a
bound on the number of iterations, and `none` says that the bound was not enough.
The bounds are chosen so that this never happens on the states of a run
(`insertEdge_returns`, `findPath_returns`). That a call returns here says nothing about the
limits of the vectors; for them see `Bounded`.
-/
namespace CppGuard
namespace Rep

/-! ## Nodes -/

/-- `GetId`: the id of `ptr`, assigning one if necessary. -/
def getId (maxLocksPerThread : Nat) (r : Rep) (thread : ThreadId) (ptr : Addr) :
    Option (GraphId × Rep) := do
  match ← r.find ptr with
  | some i => return (makeId i (r.node i).version, r)
  | none =>
    match r.freeNodes with
    | [] =>
      guard (r.size < vecMaxSize)
      -- avoid version 0 since it is used by `invalidGraphId`
      let n : Node :=
        { version := 1, rank := r.size, maskedPtr := some ptr, threadId := some thread
          holdLocks := List.replicate maxLocksPerThread {} }
      let r' := { r with nodes := r.nodes ++ [n] }
      return (makeId n.rank n.version, r'.add ptr n.rank)
    | i :: freeNodes =>
      -- preserve the rank: the ranks in use are a permutation of the indices
      let r' := { r with freeNodes }.modify i fun n =>
        { n with maskedPtr := some ptr, priority := 0, threadId := none, holdLocksCount := 0 }
      return (makeId i (r.node i).version, r'.add ptr i)

/-- `RemoveNode`: drop the node of `ptr` with its edges and invalidate its id. -/
def removeNode (r : Rep) (ptr : Addr) : Option Rep := do
  let (found, r) ← r.remove ptr
  match found with
  | none => return r
  | some i =>
    let r := (r.node i).outSet.elems.foldl
      (fun r y => r.modify y fun n => { n with inSet := n.inSet.erase i }) r
    let r := (r.node i).inSet.elems.foldl
      (fun r y => r.modify y fun n => { n with outSet := n.outSet.erase i }) r
    let r := r.modify i fun n => { n with inSet := ∅, outSet := ∅, maskedPtr := none }
    if (r.node i).version = maxVersion then
      -- cannot use the node any more
      return r
    else
      let r := r.modify i fun n => { n with version := n.version + 1 }
      return { r with freeNodes := i :: r.freeNodes }

/-- `Ptr`: the pointer of an id that is in the graph. -/
def ptr (r : Rep) (id : GraphId) : Option Addr := do
  let i ← r.findNode id
  (r.node i).maskedPtr

structure ExtraInfos where
  threadId : Option ThreadId
  holdLocksCount : Nat
  holdLocks : List LockT
  deriving DecidableEq

/-- `extra_infos`; its first assertion is that the id is found, its second that
`threadId` is not the default. -/
def extraInfos (r : Rep) (id : GraphId) : Option ExtraInfos := do
  let i ← r.findNode id
  let n := r.node i
  return ⟨n.threadId, n.holdLocksCount, n.holdLocks⟩

def hasNode (r : Rep) (id : GraphId) : Bool := (r.findNode id).isSome

/-! ## Edges -/

def hasEdge (r : Rep) (x y : GraphId) : Bool :=
  match r.findNode x, r.findNode y with
  | some xn, some _ => (r.node xn).outSet.contains (nodeIndex y)
  | _, _ => false

def removeEdge (r : Rep) (x y : GraphId) : Rep :=
  match r.findNode x, r.findNode y with
  | some xn, some yn =>
    let r := r.modify xn fun n => { n with outSet := n.outSet.erase (nodeIndex y) }
    r.modify yn fun n => { n with inSet := n.inSet.erase (nodeIndex x) }
  | _, _ => r

/-- The inner loop of `ForwardDFS`: push the unvisited successors of rank below
`upperBound`; `none` is a successor of that rank, a cycle. -/
def pushForward (r : Rep) (upperBound : Nat) : List Nat → List Nat → Option (List Nat)
  | [], stack => some stack
  | w :: ws, stack =>
    if (r.node w).rank = upperBound then none
    else if (r.node w).visited = false ∧ (r.node w).rank < upperBound then
      r.pushForward upperBound ws (w :: stack)
    else r.pushForward upperBound ws stack

/-- The outer loop of `ForwardDFS`, with the nodes visited so far in `deltaf`. The
result is false for a cycle. The stack has no limit, unlike the one in `Bounded`. -/
def forwardLoop (upperBound : Nat) :
    Nat → List Nat → List Nat → Rep → Option (Bool × List Nat × Rep)
  | _, [], deltaf, r => some (true, deltaf, r)
  | 0, _ :: _, _, _ => none
  | fuel + 1, n :: stack, deltaf, r =>
    if (r.node n).visited then forwardLoop upperBound fuel stack deltaf r
    else
      let r := r.modify n fun n => { n with visited := true }
      match r.pushForward upperBound (r.node n).outSet.elems stack with
      | none => some (false, deltaf ++ [n], r)
      | some stack => forwardLoop upperBound fuel stack (deltaf ++ [n]) r

/-- A search pushes every edge at most once. -/
def searchFuel (r : Rep) : Nat := r.size * r.size + 1

def forwardDFS (r : Rep) (n upperBound : Nat) : Option (Bool × List Nat × Rep) :=
  forwardLoop upperBound r.searchFuel [n] [] r

def pushBackward (r : Rep) (lowerBound : Nat) : List Nat → List Nat → List Nat
  | [], stack => stack
  | w :: ws, stack =>
    if (r.node w).visited = false ∧ lowerBound < (r.node w).rank then
      r.pushBackward lowerBound ws (w :: stack)
    else r.pushBackward lowerBound ws stack

def backwardLoop (lowerBound : Nat) :
    Nat → List Nat → List Nat → Rep → Option (List Nat × Rep)
  | _, [], deltab, r => some (deltab, r)
  | 0, _ :: _, _, _ => none
  | fuel + 1, n :: stack, deltab, r =>
    if (r.node n).visited then backwardLoop lowerBound fuel stack deltab r
    else
      let r := r.modify n fun n => { n with visited := true }
      let stack := r.pushBackward lowerBound (r.node n).inSet.elems stack
      backwardLoop lowerBound fuel stack (deltab ++ [n]) r

def backwardDFS (r : Rep) (n lowerBound : Nat) : Option (List Nat × Rep) :=
  backwardLoop lowerBound r.searchFuel [n] [] r

/-- `Sort`: by rank. Ranks are distinct, so every sorting algorithm gives this list. -/
def sort (r : Rep) (delta : List Nat) : List Nat :=
  delta.insertionSort fun a b => (r.node a).rank ≤ (r.node b).rank

def clearVisited (r : Rep) (ws : List Nat) : Rep :=
  ws.foldl (fun r w => r.modify w fun n => { n with visited := false }) r

/-- `MoveToList`: the ranks that replace the entries of `src`, with the visited marks of
the entries cleared. The entries themselves are what the caller appends to `list_`. -/
def moveToList (r : Rep) (src : List Nat) : List Nat × Rep :=
  (src.map fun w => (r.node w).rank, r.clearVisited src)

/-- The inner loop of `std::merge`: `x` is placed behind the smaller entries of the second
range, and `merge` goes on from there. -/
def mergeHead (x : Nat) (xs : List Nat) (merge : List Nat → List Nat) : List Nat → List Nat
  | [] => x :: xs
  | y :: ys => if x ≤ y then x :: merge (y :: ys) else y :: mergeHead x xs merge ys

/-- `std::merge` of two sorted ranges, by recursion on the first. -/
def mergeRanks : List Nat → List Nat → List Nat
  | [], ys => ys
  | x :: xs, ys => mergeHead x xs (mergeRanks xs) ys

theorem mergeRanks_eq (xs ys : List Nat) :
    mergeRanks xs ys = xs.merge ys fun a b => decide (a ≤ b) := by
  induction xs generalizing ys with
  | nil => simp [mergeRanks]
  | cons x xs ih =>
    rw [mergeRanks, funext ih]
    induction ys with
    | nil => simp [mergeHead]
    | cons y ys ihy =>
      rw [mergeHead, List.cons_merge_cons, ihy]
      simp only [decide_eq_true_eq]

/-- Assign the ranks in order to the collected list. -/
def assignRanks (r : Rep) (list merged : List Nat) : Rep :=
  (list.zip merged).foldl (fun r p => r.modify p.1 fun n => { n with rank := p.2 }) r

def reorder (r : Rep) (deltaf deltab : List Nat) : Rep :=
  let deltab := r.sort deltab
  let deltaf := r.sort deltaf
  -- backwards deltas first
  let (ranksb, r) := r.moveToList deltab
  let (ranksf, r) := r.moveToList deltaf
  r.assignRanks (deltab ++ deltaf) (mergeRanks ranksb ranksf)

/-- The undo path of `InsertEdge`, behind a search that found a cycle. -/
def undoInsert (r : Rep) (x y : Nat) (deltaf : List Nat) : Rep :=
  let r := r.modify x fun n => { n with outSet := n.outSet.erase y }
  let r := r.modify y fun n => { n with inSet := n.inSet.erase x }
  r.clearVisited deltaf

/-- `InsertEdge`: false, with no change, if the edge would introduce a cycle. -/
def insertEdge (r : Rep) (idx idy : GraphId) : Option (Bool × Rep) :=
  match r.findNode idx, r.findNode idy with
  | some x, some y =>
    if x = y then some (false, r)
    else
      let (inserted, out) := (r.node x).outSet.insert y
      -- the edge already exists
      if inserted = false then some (true, r)
      else
        let r := r.modify x fun n => { n with outSet := out }
        let r := r.modify y fun n => { n with inSet := (n.inSet.insert x).2 }
        if (r.node x).rank ≤ (r.node y).rank then some (true, r)
        else do
          let (ok, deltaf, r) ← r.forwardDFS y (r.node x).rank
          if ok = false then
            return (false, r.undoInsert x y deltaf)
          else
            let (deltab, r) ← r.backwardDFS x (r.node y).rank
            return (true, r.reorder deltaf deltab)
  -- expired ids
  | _, _ => some (true, r)

/-! ## Paths -/

/-- The inner loop of `FindPath`: push the successors not seen before. -/
def pushUnseen : List Nat → List (Option Nat) → ValidNodeSet → List (Option Nat) × ValidNodeSet
  | [], stack, seen => (stack, seen)
  | w :: ws, stack, seen =>
    let (inserted, seen) := seen.insert w
    if inserted then pushUnseen ws (some w :: stack) seen else pushUnseen ws stack seen

/-- The loop of `FindPath`. The stack holds nodes and, as `none`, the markers that say
that a node is left and the tentative path gets shorter. -/
def findPathLoop (r : Rep) (y maxPathLen : Nat) :
    Nat → List (Option Nat) → ValidNodeSet → Nat → List GraphId → Option (Nat × List GraphId)
  | _, [], _, _, path => some (0, path)
  | 0, _ :: _, _, _, _ => none
  | fuel + 1, none :: stack, seen, pathLen, path =>
    r.findPathLoop y maxPathLen fuel stack seen (pathLen - 1) path
  | fuel + 1, some n :: stack, seen, pathLen, path =>
    let path :=
      if pathLen < maxPathLen then path.set pathLen (makeId n (r.node n).version) else path
    if n = y then some (pathLen + 1, path)
    else
      let (stack, seen) := pushUnseen (r.node n).outSet.elems (none :: stack) seen
      r.findPathLoop y maxPathLen fuel stack seen (pathLen + 1) path

/-- `FindPath`: the length of a path from `idx` to `idy`, 0 if there is none, and the
array `path` with the first `maxPathLen` nodes stored. -/
def findPath (r : Rep) (idx idy : GraphId) (maxPathLen : Nat) (path : List GraphId) :
    Option (Nat × List GraphId) :=
  match r.findNode idx, r.findNode idy with
  | some x, some y =>
    r.findPathLoop y maxPathLen (2 * r.size + 3) [some x] ∅ 0 path
  | _, _ => some (0, path)

def isReachable (r : Rep) (x y : GraphId) : Option Bool := do
  let (len, _) ← r.findPath x y 0 []
  return decide (0 < len)

/-! ## Snapshots -/

/-- `UpdateStackTrace`, called by `thread`: keep the snapshot with the most held locks.
The captured call stack is not modelled. -/
def updateStackTrace (r : Rep) (id : GraphId) (thread : ThreadId) (allLocks : SynchLocksHeld) :
    Rep :=
  let priority := allLocks.n + 1
  match r.findNode id with
  | none => r
  | some i =>
    if priority ≤ (r.node i).priority then r
    else r.modify i fun n =>
      { n with priority, threadId := some thread, holdLocks := allLocks.locks
               holdLocksCount := allLocks.n % 2 ^ 8 }

/-! ## `CheckInvariants` -/

/-- The checks on node `x`; the result is the set of the ranks seen, `none` a failure. -/
def checkNode (r : Rep) (ranks : ValidNodeSet) (x : Nat) : Option ValidNodeSet := do
  let nx := r.node x
  match nx.maskedPtr with
  | some ptr => guard ((← r.find ptr) = some x)
  | none => pure ()
  guard (nx.visited = false)
  let (fresh, ranks) := ranks.insert nx.rank
  guard (fresh = true)
  guard (∀ y ∈ nx.outSet.elems, nx.rank < (r.node y).rank)
  return ranks

/-- `CheckInvariants`: true, or a failed assertion. -/
def checkInvariants (r : Rep) : Option Bool := do
  let _ ← (List.range r.size).foldlM r.checkNode ∅
  return true

end Rep
end CppGuard
