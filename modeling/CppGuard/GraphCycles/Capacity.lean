import CppGuard.GraphCycles.Bounded
import CppGuard.GraphCycles.Slots

/-!
# How many pointers the vectors have room for

As long as there are at most `slotLimit` slots, no vector of the graph gets full: an edge set has a
small table, however often it was written, and a search pushes every edge at most once. Then the
operations do the same with the limits and without them (`step_eq`).
-/
namespace CppGuard

/-- With so many slots, the longest search stack and the largest table have room. -/
def slotLimit : Nat := 2 ^ 14

theorem ValidNodeSet.Small.insertFits {s : ValidNodeSet} {v : Nat} (h : s.Small slotLimit)
    (hv : v < slotLimit) : s.InsertFits v := by
  have hlength := (h.insert hv).length_le
  simp only [slotLimit] at hlength
  rw [ValidNodeSet.InsertFits, ValidNodeSet.maxTableSize]
  omega

/-- The edge sets are small. -/
def Node.Small (n : Node) : Prop := n.inSet.Small slotLimit ∧ n.outSet.Small slotLimit

theorem small_default : (default : Node).Small :=
  ⟨ValidNodeSet.small_empty slotLimit, ValidNodeSet.small_empty slotLimit⟩

namespace Rep
open Worklist Transition

/-! ## The edge sets stay small -/

def Small (r : Rep) : Prop := ∀ i, (r.node i).Small

theorem small_empty : ({} : Rep).Small := fun _ => small_default

namespace Small

variable {r r' : Rep} {x y i fuel ub lb : Nat} {idx idy : GraphId}

theorem modify (h : r.Small) (i : Nat) {f : Node → Node} (hf : ∀ n, n.Small → (f n).Small) :
    (r.modify i f).Small := by
  intro j
  by_cases hi : i < r.size
  · rw [node_modify f hi]
    split_ifs
    · exact hf _ (h j)
    · exact h j
  · by_cases hj : j = i
    · rw [hj, node_of_size_le (by rw [size_modify]; omega)]
      exact small_default
    · rw [node_modify_of_ne f hj]
      exact h j

theorem foldl_modify {α : Type*} (h : r.Small) (l : List α) (index : α → Nat)
    {f : α → Node → Node} (hf : ∀ a n, n.Small → (f a n).Small) :
    (l.foldl (fun r a => r.modify (index a) (f a)) r).Small := by
  induction l generalizing r with
  | nil => exact h
  | cons a l ih => exact ih (h.modify (index a) (hf a))

theorem sameButLinks (h : r.Small) (hlinks : SameButLinks r r') : r'.Small := by
  intro i
  rw [Node.Small, hlinks.field Node.inSet fun _ => rfl, hlinks.field Node.outSet fun _ => rfl]
  exact h i

theorem getId {maxLocks : Nat} {thread : ThreadId} {p : Addr} {id : GraphId} (h : r.Small)
    (hget : r.getId maxLocks thread p = some (id, r')) : r'.Small := by
  unfold Rep.getId at hget
  obtain ⟨found, -, hget⟩ := Option.bind_eq_some_iff.mp hget
  cases found with
  | some i =>
    obtain ⟨-, rfl⟩ := Prod.mk.inj (Option.some.inj hget)
    exact h
  | none =>
    dsimp only at hget
    split at hget
    · obtain ⟨-, hget⟩ := Bounded.guard_bind_eq_some.mp hget
      obtain ⟨-, rfl⟩ := Prod.mk.inj (Option.some.inj hget)
      refine sameButLinks ?_ (sameButLinks_add _ p _)
      intro j
      rw [node_append]
      split_ifs
      · exact small_default
      · exact h j
    · obtain ⟨-, rfl⟩ := Prod.mk.inj (Option.some.inj hget)
      refine sameButLinks (modify ?_ _ (by exact fun _ hn => hn)) (sameButLinks_add _ p _)
      exact h

theorem dropEdges (h : r.Small) (i : Nat) : (r.dropEdges i).Small := by
  have hin := h.foldl_modify (r.node i).outSet.elems (fun y => y)
    (f := fun _ n => { n with inSet := n.inSet.erase i }) fun _ n hn => ⟨hn.1.erase i, hn.2⟩
  set r₁ := (r.node i).outSet.elems.foldl
    (fun r y => r.modify y fun n => { n with inSet := n.inSet.erase i }) r with h₁
  have hout := foldl_modify hin (r₁.node i).inSet.elems (fun y => y)
    (f := fun _ n => { n with outSet := n.outSet.erase i }) fun _ n hn => ⟨hn.1, hn.2.erase i⟩
  exact modify hout i (by exact fun _ _ => small_default)

theorem removeNode {p : Addr} (hr : r.Inv) (h : r.Small) (hremove : r.removeNode p = some r') :
    r'.Small := by
  by_cases hp : ∃ id, r.Live id p
  · obtain ⟨id, i, hi, -⟩ := hp
    obtain ⟨r₁, heq, hlinks, -⟩ := removeNode_eq hr.toIndexed hi
    obtain rfl := Option.some.inj (heq.symm.trans hremove)
    have hdropped := (h.sameButLinks hlinks).dropEdges i
    intro j
    rw [Node.Small, vacate_field Node.inSet (by exact fun _ _ => rfl),
      vacate_field Node.outSet (by exact fun _ _ => rfl)]
    exact hdropped j
  · obtain rfl := Option.some.inj
      ((removeNode_absent hr.toIndexed (not_exists.mp hp)).symm.trans hremove)
    exact h

theorem removeEdge (h : r.Small) (idx idy : GraphId) : (r.removeEdge idx idy).Small := by
  unfold Rep.removeEdge
  split
  · refine modify (h.modify _ ?_) _ ?_
    · exact fun n hn => ⟨hn.1, hn.2.erase _⟩
    · exact fun n hn => ⟨hn.1.erase _, hn.2⟩
  · exact h

theorem updateStackTrace (h : r.Small) (id : GraphId) (thread : ThreadId)
    (allLocks : SynchLocksHeld) : (r.updateStackTrace id thread allLocks).Small := by
  obtain heq | ⟨i, heq⟩ := updateStackTrace_cases r id thread allLocks
  · rwa [heq]
  · rw [heq]
    exact h.modify i (by exact fun _ hn => hn)

theorem clearVisited (h : r.Small) (ws : List Nat) : (r.clearVisited ws).Small :=
  h.foldl_modify ws (fun w => w) (by exact fun _ _ hn => hn)

theorem reorder (h : r.Small) (deltaf deltab : List Nat) : (r.reorder deltaf deltab).Small :=
  foldl_modify ((h.clearVisited _).clearVisited _) _ Prod.fst (by exact fun _ _ hn => hn)

theorem undoInsert (h : r.Small) (x y : Nat) (deltaf : List Nat) :
    (r.undoInsert x y deltaf).Small := by
  refine clearVisited (modify (h.modify x ?_) y ?_) deltaf
  · exact fun n hn => ⟨hn.1, hn.2.erase y⟩
  · exact fun n hn => ⟨hn.1.erase x, hn.2⟩

theorem storeEdge (h : r.Small) (hx : x < slotLimit) (hy : y < slotLimit) :
    (r.storeEdge x y).Small := by
  refine modify (h.modify x ?_) y ?_
  · exact fun n hn => ⟨hn.1, (h x).2.insert hy⟩
  · exact fun n hn => ⟨hn.1.insert hx, hn.2⟩

theorem forwardLoop {stack deltaf deltaf' : List Nat} {ok : Bool} (h : r.Small)
    (hloop : Rep.forwardLoop ub fuel stack deltaf r = some (ok, deltaf', r')) : r'.Small := by
  induction fuel generalizing stack deltaf r with
  | zero =>
    cases stack with
    | nil => exact (Prod.mk.inj (Prod.mk.inj (Option.some.inj hloop)).2).2 ▸ h
    | cons => cases hloop
  | succ fuel ih =>
    cases stack with
    | nil => exact (Prod.mk.inj (Prod.mk.inj (Option.some.inj hloop)).2).2 ▸ h
    | cons n stack =>
      have hmarked : (r.modify n fun m => { m with visited := true }).Small :=
        h.modify n fun _ hm => hm
      rw [Rep.forwardLoop] at hloop
      split_ifs at hloop
      · exact ih h hloop
      · dsimp only at hloop
        split at hloop
        · exact (Prod.mk.inj (Prod.mk.inj (Option.some.inj hloop)).2).2 ▸ hmarked
        · exact ih hmarked hloop

theorem backwardLoop {stack deltab deltab' : List Nat} (h : r.Small)
    (hloop : Rep.backwardLoop lb fuel stack deltab r = some (deltab', r')) : r'.Small := by
  induction fuel generalizing stack deltab r with
  | zero =>
    cases stack with
    | nil => exact (Prod.mk.inj (Option.some.inj hloop)).2 ▸ h
    | cons => cases hloop
  | succ fuel ih =>
    cases stack with
    | nil => exact (Prod.mk.inj (Option.some.inj hloop)).2 ▸ h
    | cons n stack =>
      rw [Rep.backwardLoop] at hloop
      split_ifs at hloop
      · exact ih h hloop
      · exact ih (h.modify n (by exact fun _ hm => hm)) hloop

theorem insertEdge {ok : Bool} (h : r.Small) (hsize : r.size ≤ slotLimit)
    (hinsert : r.insertEdge idx idy = some (ok, r')) : r'.Small := by
  unfold Rep.insertEdge at hinsert
  cases hx : r.findNode idx with
  | none => simp_all
  | some x =>
    cases hy : r.findNode idy with
    | none => simp_all
    | some y =>
      have hxlt := (findNode_eq_some.mp hx).2.1
      have hylt := (findNode_eq_some.mp hy).2.1
      simp only [hx, hy] at hinsert
      by_cases hxy : x = y
      · rw [if_pos hxy] at hinsert
        exact (Prod.mk.inj (Option.some.inj hinsert)).2 ▸ h
      · rw [if_neg hxy] at hinsert
        by_cases hexists : ((r.node x).outSet.insert y).1 = false
        · rw [if_pos hexists] at hinsert
          exact (Prod.mk.inj (Option.some.inj hinsert)).2 ▸ h
        · have hstored := h.storeEdge (hxlt.trans_le hsize) (hylt.trans_le hsize)
          rw [if_neg hexists] at hinsert
          obtain ⟨-, hinsert⟩ | ⟨-, hinsert⟩ := ite_eq_iff.mp hinsert
          · exact (Prod.mk.inj (Option.some.inj hinsert)).2 ▸ hstored
          · obtain ⟨⟨found, deltaf, r₁⟩, hforward, hinsert⟩ := Option.bind_eq_some_iff.mp hinsert
            have hmarked : r₁.Small := hstored.forwardLoop hforward
            obtain ⟨-, hinsert⟩ | ⟨-, hinsert⟩ := ite_eq_iff.mp hinsert
            · exact (Prod.mk.inj (Option.some.inj hinsert)).2 ▸ hmarked.undoInsert x y deltaf
            · obtain ⟨⟨deltab, r₂⟩, hbackward, hinsert⟩ := Option.bind_eq_some_iff.mp hinsert
              have hmarked' : r₂.Small := hmarked.backwardLoop hbackward
              exact (Prod.mk.inj (Option.some.inj hinsert)).2 ▸ hmarked'.reorder deltaf deltab

theorem step {maxLocks : Nat} {op : Op} (h : r.Small) (hr : r.Inv) (hsize : r.size ≤ slotLimit)
    (hstep : Rep.step maxLocks r op = some r') : r'.Small := by
  cases op with
  | getId =>
    obtain ⟨_, hget, rfl⟩ := Option.map_eq_some_iff.mp hstep
    exact h.getId hget
  | removeNode => exact h.removeNode hr hstep
  | insertEdge =>
    obtain ⟨_, hinsert, rfl⟩ := Option.map_eq_some_iff.mp hstep
    exact h.insertEdge hsize hinsert
  | removeEdge => exact Option.some.inj hstep ▸ h.removeEdge _ _
  | findPath =>
    obtain ⟨_, -, rfl⟩ := Option.map_eq_some_iff.mp hstep
    exact h
  | updateStackTrace => exact Option.some.inj hstep ▸ h.updateStackTrace _ _ _

end Small

/-- There are few slots, and their edge sets are small. -/
structure Fits (r : Rep) : Prop extends Inv r where
  small : r.Small
  slots_le : r.size ≤ slotLimit

theorem Fits.updateStackTrace {r : Rep} (h : r.Fits) (id : GraphId) (thread : ThreadId)
    (allLocks : SynchLocksHeld) : (r.updateStackTrace id thread allLocks).Fits where
  toInv := updateStackTrace_inv h.toInv id thread allLocks
  small := h.small.updateStackTrace id thread allLocks
  slots_le := (updateStackTrace_node r id thread allLocks).1.size.trans_le h.slots_le

/-! ## The searches do not outgrow their vectors -/

namespace Bounded

variable {r r' : Rep} {ub lb x y fuel : Nat} {pre vis stack : List Nat} {idx idy : GraphId}

theorem guard_bind {α : Type} {p : Prop} [Decidable p] {k : Option α} (h : p) :
    (guard p >>= fun _ => k) = k := by
  simp [guard, h]

theorem push_eq {α : Type} {a : α} {stack : List α} (h : stack.length < vecMaxSize) :
    push a stack = some (a :: stack) := if_pos h

theorem pushForward_eq {ws : List Nat} (h : stack.length + ws.length ≤ vecMaxSize) :
    pushForward r ub ws stack = some (r.pushForward ub ws stack) := by
  induction ws generalizing stack with
  | nil => rfl
  | cons w ws ih =>
    rw [List.length_cons] at h
    rw [Bounded.pushForward, Rep.pushForward]
    split_ifs
    · rfl
    · rw [push_eq (by omega)]
      exact ih (by rw [List.length_cons]; omega)
    · exact ih (by omega)

theorem pushBackward_eq {ws : List Nat} (h : stack.length + ws.length ≤ vecMaxSize) :
    pushBackward r lb ws stack = some (r.pushBackward lb ws stack) := by
  induction ws generalizing stack with
  | nil => rfl
  | cons w ws ih =>
    rw [List.length_cons] at h
    rw [Bounded.pushBackward, Rep.pushBackward]
    split_ifs
    · rw [push_eq (by omega)]
      exact ih (by rw [List.length_cons]; omega)
    · exact ih (by omega)

/-- The stack and the visited nodes fit their vectors, since they are bounded by the iterations
that are left. -/
theorem forwardLoop_eq (bounded : ∀ u, ∀ w ∈ (r.node u).outSet, w < r.size)
    (hfuel : fuel ≤ vecMaxSize) (h : Searching r [] vis stack fuel r') :
    forwardLoop ub fuel stack vis r' = Rep.forwardLoop ub fuel stack vis r' := by
  induction fuel generalizing stack vis r' with
  | zero => cases stack <;> rfl
  | succ fuel ih =>
    cases stack with
    | nil => rfl
    | cons n stack =>
      have hvisited : (r'.node n).visited = decide (n ∈ vis) := h.marked.visited n
      rw [Bounded.forwardLoop, Rep.forwardLoop, hvisited]
      by_cases hv : n ∈ vis
      · rw [decide_eq_true hv, if_pos rfl, if_pos rfl]
        exact ih (by omega) h.skip
      · have hm' := h.mark
        obtain ⟨hvis, hstack⟩ := h.length_le hv
        have degree : (r.node n).outSet.elems.length ≤ r.size := length_elems_le (bounded n)
        rw [decide_eq_false hv, if_neg (by simp), if_neg (by simp), guard_bind (by omega)]
        dsimp only
        rw [pushForward_eq (by rw [hm'.outSet]; omega)]
        dsimp only [Option.bind_eq_bind, Option.bind_some]
        cases hp : (r'.modify n fun m => { m with visited := true }).pushForward ub
            ((r'.modify n fun m => { m with visited := true }).node n).outSet.elems stack with
        | none => rfl
        | some stack' =>
          obtain ⟨-, hlen, hmem⟩ := pushForward_eq_some hp
          simp only [ValidNodeSet.mem_elems, hm'.outSet] at hlen hmem
          refine ih (by omega) (h.visit hv (by omega) fun v hv => ?_)
          exact ((hmem v).mp hv).imp_right fun hv => bounded n v hv.1

theorem backwardLoop_eq (bounded : ∀ u, ∀ w ∈ (r.node u).inSet, w < r.size)
    (hfuel : fuel ≤ vecMaxSize) (h : Searching r pre vis stack fuel r') :
    backwardLoop lb fuel stack vis r' = Rep.backwardLoop lb fuel stack vis r' := by
  induction fuel generalizing stack vis r' with
  | zero => cases stack <;> rfl
  | succ fuel ih =>
    cases stack with
    | nil => rfl
    | cons n stack =>
      have hvisited : (r'.node n).visited = decide (n ∈ pre ++ vis) := h.marked.visited n
      rw [Bounded.backwardLoop, Rep.backwardLoop, hvisited]
      by_cases hv : n ∈ pre ++ vis
      · rw [decide_eq_true hv, if_pos rfl, if_pos rfl]
        exact ih (by omega) h.skip
      · have hm' := h.mark
        have hnew : n ∉ vis := fun hmem => hv (List.mem_append_right _ hmem)
        obtain ⟨hvis, hstack⟩ := h.length_le hnew
        have degree : (r.node n).inSet.elems.length ≤ r.size := length_elems_le (bounded n)
        rw [decide_eq_false hv, if_neg (by simp), if_neg (by simp), guard_bind (by omega)]
        dsimp only
        rw [pushBackward_eq (by rw [hm'.inSet]; omega)]
        have hlen := length_pushBackward_le (r'.modify n fun m => { m with visited := true }) lb
          ((r'.modify n fun m => { m with visited := true }).node n).inSet.elems stack
        rw [hm'.inSet] at hlen
        refine ih (by omega) (h.visit hnew (by rw [hm'.inSet]; omega) fun v hv => ?_)
        refine (mem_pushBackward.mp hv).imp_right fun hv => bounded n v ?_
        rw [ValidNodeSet.mem_elems, hm'.inSet] at hv
        exact hv.1

theorem searchFuel_le (hsize : r.size ≤ slotLimit) : r.searchFuel ≤ vecMaxSize := by
  have hsquare := Nat.mul_le_mul hsize hsize
  rw [searchFuel]
  refine (Nat.succ_le_succ hsquare).trans ?_
  decide

/-- The nodes that get new ranks are different ones. -/
theorem length_relocated {deltaf deltab : List Nat} {rank : Nat → Nat} (hr : r.Ordered)
    (hx : x < r.size) (hy : y < r.size) (h : Relocated r x y deltaf deltab rank) :
    deltab.length + deltaf.length ≤ r.size := by
  rw [← List.length_append]
  refine length_le_of_nodup h.nodup fun v hv => ?_
  obtain hv | hv := List.mem_append.mp hv
  · obtain ⟨hpath, -⟩ := (h.back v).mp hv
    obtain rfl | ⟨w, hw, -⟩ := hpath.cases_head
    · exact hx
    · exact hw.left_lt
  · obtain ⟨hpath, -⟩ := (h.forth v).mp hv
    obtain rfl | ⟨w, -, hw⟩ := hpath.cases_tail
    · exact hy
    · exact hr.right_lt hw

theorem searchCycle_eq {r₁ : Rep} (hr : r.Ordered) (h : Stored x y r r₁)
    (hsize : r.size ≤ slotLimit) (hx : x < r.size) (hy : y < r.size)
    (hlt : r.rank y < r.rank x) : searchCycle r₁ x y = r₁.searchCycle x y := by
  have hsize₁ : r₁.size ≤ slotLimit := h.size.trans_le hsize
  have hrank : (r₁.node x).rank = r.rank x := h.rank x
  obtain ⟨ok, deltaf, r₂, hforward, hresult⟩ := h.forwardDFS hr hy
  have hunvisited : ∀ i, (r₁.node i).visited = false :=
    fun i => (h.visited i).trans (hr.unvisited i)
  have hforward' : forwardDFS r₁ y (r.rank x) = some (ok, deltaf, r₂) := by
    refine (forwardLoop_eq (h.out_bounded hr hy) (searchFuel_le hsize₁) ?_).trans hforward
    exact .start (Marked.nil hunvisited) (h.size ▸ hy)
  rw [Bounded.searchCycle, Rep.searchCycle, hrank, hforward, hforward']
  cases ok with
  | false => rfl
  | true =>
    obtain ⟨deltab, r₃, hbackward, hrelocated, -⟩ := h.reorder hr hx hy hlt hresult
    have hrank₂ : (r₂.node y).rank = r.rank y := (hresult.marked.rank y).trans (h.rank y)
    have hsize₂ : r₂.size ≤ slotLimit := hresult.marked.size.trans_le hsize₁
    have hstart : Searching r₁ deltaf [] [x] r₂.searchFuel r₂ :=
      .start hresult.marked (h.size ▸ hx)
    have hbackward' : backwardDFS r₂ x (r.rank y) = some (deltab, r₃) :=
      (backwardLoop_eq (h.in_bounded hr hx) (searchFuel_le hsize₂) hstart).trans hbackward
    have hlength := length_relocated hr hx hy hrelocated
    have hroom : deltab.length + deltaf.length ≤ vecMaxSize := by
      rw [slotLimit] at hsize
      rw [vecMaxSize]
      omega
    simp [hrank₂, hbackward, hbackward', guard, hroom]

/-- `InsertEdge` does not outgrow a vector. -/
theorem insertEdge_eq (h : r.Fits) (idx idy : GraphId) :
    insertEdge r idx idy = r.insertEdge idx idy := by
  unfold Bounded.insertEdge Rep.insertEdge
  cases hx : r.findNode idx with
  | none => rfl
  | some x =>
    cases hy : r.findNode idy with
    | none => rfl
    | some y =>
      have hxlt := (findNode_eq_some.mp hx).2.1
      have hylt := (findNode_eq_some.mp hy).2.1
      have hstored := stored hxlt hylt
      have hout := (h.small x).2.insertFits (hylt.trans_le h.slots_le)
      have hin : ((r.modify x fun n => { n with outSet := ((r.node x).outSet.insert y).2 }).node
          y).inSet.InsertFits x := by
        rw [modify_field Node.inSet (by exact fun _ => rfl)]
        exact (h.small y).1.insertFits (hxlt.trans_le h.slots_le)
      dsimp only
      rw [guard_bind hout, guard_bind hin]
      refine if_congr Iff.rfl rfl (if_congr Iff.rfl rfl (ite_congr rfl (fun _ => rfl) ?_))
      intro hle
      exact searchCycle_eq h.toOrdered hstored h.slots_le hxlt hylt (by
        rw [← hstored.rank x, ← hstored.rank y]
        exact Nat.lt_of_not_le hle)

theorem pushUnseen_eq {ws : List Nat} {stack : List (Option Nat)} {seen : ValidNodeSet}
    (hseen : seen.Small slotLimit) (hws : ∀ w ∈ ws, w < slotLimit)
    (hroom : stack.length + ws.length ≤ vecMaxSize) :
    pushUnseen ws stack seen = some (Rep.pushUnseen ws stack seen) ∧
      (Rep.pushUnseen ws stack seen).2.Small slotLimit := by
  induction ws generalizing stack seen with
  | nil => exact ⟨rfl, hseen⟩
  | cons w ws ih =>
    have hw := hws w (by simp)
    have hrest := fun v hv => hws v (List.mem_cons_of_mem w hv)
    rw [List.length_cons] at hroom
    rw [Bounded.pushUnseen, Rep.pushUnseen, guard_bind (hseen.insertFits hw)]
    dsimp only
    split_ifs
    · rw [push_eq (by omega)]
      exact ih (hseen.insert hw) hrest (by rw [List.length_cons]; omega)
    · exact ih (hseen.insert hw) hrest (by omega)

/-- Every node is pushed once, with one marker. -/
theorem findPathLoop_eq {maxPathLen pathLen : Nat} {stack : List (Option Nat)}
    {seen : ValidNodeSet} {path : List GraphId} (hr : r.Ordered) (hsize : r.size ≤ slotLimit)
    (hseen : seen.Small slotLimit) (bounded : ∀ w ∈ seen, w < r.size)
    (hfuel : pathPotential r.size stack seen ≤ fuel) (hlimit : fuel + r.size ≤ vecMaxSize) :
    findPathLoop r y maxPathLen fuel stack seen pathLen path =
      r.findPathLoop y maxPathLen fuel stack seen pathLen path := by
  induction fuel generalizing stack seen pathLen path with
  | zero => cases stack <;> rfl
  | succ fuel ih =>
    have hstack : stack.length ≤ fuel + 1 := by rw [pathPotential] at hfuel; omega
    obtain _ | ⟨_ | n, stack⟩ := stack
    · rfl
    · rw [Bounded.findPathLoop, Rep.findPathLoop]
      refine ih hseen bounded ?_ (by omega)
      simp only [pathPotential, List.length_cons, List.reduceOption_cons_of_none] at hfuel ⊢
      omega
    · have hedge : ∀ w ∈ (r.node n).outSet.elems, w < r.size :=
        fun w hw => hr.right_lt (ValidNodeSet.mem_elems.mp hw)
      have degree : (r.node n).outSet.elems.length ≤ r.size :=
        length_elems_le fun w hw => hr.right_lt hw
      rw [List.length_cons] at hstack
      obtain ⟨heq, hseen'⟩ := @pushUnseen_eq _ (none :: stack) _ hseen
        (fun w hw => (hedge w hw).trans_le hsize) (by rw [List.length_cons]; omega)
      obtain ⟨new, -, hnew, hmem, -⟩ :=
        pushUnseen_spec (r.node n).outSet.elems (none :: stack) seen
      have bounded' : ∀ w ∈ (Rep.pushUnseen (r.node n).outSet.elems (none :: stack) seen).2,
          w < r.size := by
        intro w hw
        obtain hw | hw := (hmem w).mp hw
        · exact bounded w hw
        · exact hedge w (hnew w hw)
      have hpotential := PathSearch.pathPotential_visit bounded'
      rw [Bounded.findPathLoop, Rep.findPathLoop, push_eq (by omega)]
      dsimp only [Option.bind_eq_bind, Option.bind_some]
      rw [heq]
      dsimp only [Option.bind_some]
      refine if_congr Iff.rfl rfl (ih hseen' bounded' (by omega) (by omega))

theorem findPath_eq (h : r.Fits) (idx idy : GraphId) (maxPathLen : Nat) (path : List GraphId) :
    findPath r idx idy maxPathLen path = r.findPath idx idy maxPathLen path := by
  unfold Bounded.findPath Rep.findPath
  cases r.findNode idx with
  | none => rfl
  | some x =>
    cases r.findNode idy with
    | none => rfl
    | some y =>
      have hsize := h.slots_le
      refine findPathLoop_eq h.toOrdered hsize (ValidNodeSet.small_empty slotLimit) ?_ ?_ ?_
      · exact fun w hw => absurd hw (ValidNodeSet.notMem_empty w)
      · simp only [pathPotential, List.length_cons, List.reduceOption_cons_of_some,
          List.length_nil, List.reduceOption_nil]
        omega
      · rw [slotLimit] at hsize
        rw [vecMaxSize]
        omega

theorem step_eq (maxLocks : Nat) (h : r.Fits) (op : Op) :
    step maxLocks r op = r.step maxLocks op := by
  cases op with
  | insertEdge idx idy => rw [Bounded.step, Rep.step, insertEdge_eq h]
  | findPath idx idy maxPathLen => rw [Bounded.step, Rep.step, findPath_eq h]
  | _ => rfl

end Bounded

/-! ## Runs -/

theorem card_registered_le (ops : List Op) : (registered ops).card ≤ peak ops := by
  have hlast : ops.length ∈ Finset.range (ops.length + 1) := by simp
  have hle := Finset.le_sup (f := fun n => (registered (ops.take n)).card) hlast
  rwa [List.take_length] at hle

theorem peak_append_le (ops ops' : List Op) : peak ops ≤ peak (ops ++ ops') := by
  induction ops' using List.reverseRecOn with
  | nil => rw [List.append_nil]
  | append_singleton ops' op ih =>
    rw [← List.append_assoc, peak_concat]
    exact ih.trans (le_max_left ..)

/-- How many slots the calls need at most. -/
def slots (ops : List Op) : Nat := peak ops + ops.countP Op.isRemoveNode / maxVersion

theorem slots_append_le (ops ops' : List Op) : slots ops ≤ slots (ops ++ ops') := by
  have hremoved : ops.countP Op.isRemoveNode ≤ (ops ++ ops').countP Op.isRemoveNode := by
    rw [List.countP_append]
    exact Nat.le_add_right ..
  exact Nat.add_le_add (peak_append_le ops ops') (Nat.div_le_div_right hremoved)

theorem slots_le {locks : Finset Addr} {ops : List Op}
    (h : ∀ op ∈ ops, ∃ t, ∃ mu ∈ locks, op = .getId t mu) : slots ops ≤ locks.card := by
  have hregistered : registered ops ⊆ locks ∧ peak ops ≤ locks.card ∧
      ops.countP Op.isRemoveNode = 0 := by
    induction ops using List.reverseRecOn with
    | nil => exact ⟨Finset.empty_subset _, Nat.zero_le _, rfl⟩
    | append_singleton ops op ih =>
      obtain ⟨hsub, hpeak, hcount⟩ := ih fun op hop => h op (by simp [hop])
      obtain ⟨t, mu, hmu, rfl⟩ := h op (by simp)
      have hsub' : registered (ops ++ [.getId t mu]) ⊆ locks := by
        rw [registered_concat]
        exact Finset.insert_subset hmu hsub
      refine ⟨hsub', ?_, by simp [hcount, Op.isRemoveNode]⟩
      rw [peak_concat]
      exact max_le hpeak (Finset.card_le_card hsub')
  rw [slots, hregistered.2.2, Nat.zero_div]
  exact hregistered.2.1

section

variable {maxLocks : Nat} {ops : List Op} {r : Rep}

theorem Balanced.card_spent_le {s : Finset Addr} {peak removed : Nat}
    (h : Balanced r s peak removed) : r.spent.card ≤ removed / maxVersion :=
  (Nat.le_div_iff_mul_le (by decide : 0 < maxVersion)).mpr h.spent_mul_le

/-- The graph has no more slots than the calls need. -/
theorem Balanced.size_le_slots {s : Finset Addr} {peak removed : Nat}
    (h : Balanced r s peak removed) : r.size ≤ peak + removed / maxVersion :=
  h.size_le.trans (Nat.add_le_add_left h.card_spent_le _)

/-- Nothing outgrows a vector as long as there are few slots. -/
theorem exec_bounded (maxLocks : Nat) (hslots : slots ops ≤ slotLimit) :
    ∃ r, exec (Bounded.step maxLocks) {} ops = some r ∧ r.Small := by
  induction ops using List.reverseRecOn with
  | nil => exact ⟨_, rfl, small_empty⟩
  | append_singleton ops op ih =>
    obtain ⟨r, hexec, hsmall⟩ := ih ((slots_append_le ..).trans hslots)
    have hexec' := exec_mono (fun _ _ _ => Bounded.step_unbounded) hexec
    have hbalanced := exec_balanced hexec'
    have hsize := hbalanced.size_le_slots.trans ((slots_append_le ..).trans hslots)
    have heq := Bounded.step_eq maxLocks ⟨hbalanced.inv, hsmall, hsize⟩ op
    obtain ⟨hnone, hfull⟩ | ⟨r', hstep, -⟩ := hbalanced.step maxLocks op
    · have hspent := hbalanced.card_spent_le
      have hremoved : ops.countP Op.isRemoveNode / maxVersion ≤
          (ops ++ [op]).countP Op.isRemoveNode / maxVersion :=
        Nat.div_le_div_right (by rw [List.countP_append]; exact Nat.le_add_right ..)
      rw [slots, peak_concat, registered_concat] at hslots
      have hlimit : slotLimit ≤ vecMaxSize := by decide
      omega
    · exact ⟨r', exec_concat.mpr ⟨r, hexec, heq.trans hstep⟩,
        hsmall.step hbalanced.inv hsize hstep⟩

end

/-- The node vector has as many slots as pointers were registered at the same time, and at most one
more for every `2 ^ 32 - 1` removals. A run with few slots does not get stuck. -/
theorem size_bounds (maxLocks : Nat) (ops : List Op) :
    (∀ r, exec (step maxLocks) {} ops = some r → peak ops ≤ r.size ∧ r.size ≤ vecMaxSize ∧
      r.size ≤ peak ops + ops.countP Op.isRemoveNode / maxVersion) ∧
    (peak ops + ops.countP Op.isRemoveNode / maxVersion ≤ slotLimit →
      ∃ r, exec (Bounded.step maxLocks) {} ops = some r) := by
  refine ⟨fun r h => ?_, fun hslots => ?_⟩
  · have hbalanced := exec_balanced h
    exact ⟨hbalanced.le_size, hbalanced.inv.size_le, hbalanced.size_le_slots⟩
  · obtain ⟨r, hexec, -⟩ := exec_bounded maxLocks hslots
    exact ⟨r, hexec⟩

end Rep
end CppGuard
