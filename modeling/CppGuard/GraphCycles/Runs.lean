import CppGuard.GraphCycles.FindPath
import CppGuard.GraphCycles.InsertEdge
import CppGuard.GraphCycles.RemoveNode
import CppGuard.Library.Transition

/-!
# Runs of graph operations

Every operation keeps the representation invariant, whatever ids it is given, and returns;
the only exception is a `GetId` that needs a new node when `nodes_` is full. A live id stays
live until its pointer is removed, a retired id stays retired.
-/
namespace CppGuard
namespace Rep
open Relation Transition

/-! ## `UpdateStackTrace` -/

theorem updateStackTrace_cases (r : Rep) (id : GraphId) (thread : ThreadId)
    (allLocks : SynchLocksHeld) :
    r.updateStackTrace id thread allLocks = r ∨
      ∃ i, r.updateStackTrace id thread allLocks = r.modify i fun n =>
        { n with
          priority := allLocks.n + 1, threadId := some thread, holdLocks := allLocks.locks
          holdLocksCount := allLocks.n % 2 ^ 8 } := by
  rw [updateStackTrace]
  cases r.findNode id with
  | none => exact Or.inl rfl
  | some i =>
    dsimp only
    split_ifs
    · exact Or.inl rfl
    · exact Or.inr ⟨i, rfl⟩

/-- What `UpdateStackTrace` leaves of every node. -/
theorem updateStackTrace_node (r : Rep) (id : GraphId) (thread : ThreadId)
    (allLocks : SynchLocksHeld) :
    SameIndex r (r.updateStackTrace id thread allLocks) ∧
      ∀ {α : Type} (g : Node → α), (∀ n priority threadId holdLocks holdLocksCount,
        g { n with priority, threadId, holdLocks, holdLocksCount } = g n) →
        ∀ i, g ((r.updateStackTrace id thread allLocks).node i) = g (r.node i) := by
  obtain heq | ⟨i, heq⟩ := updateStackTrace_cases r id thread allLocks
  · rw [heq]
    exact ⟨⟨rfl, rfl, rfl, fun _ => rfl, fun _ => rfl, fun _ => rfl⟩, fun _ _ _ => rfl⟩
  · rw [heq]
    refine ⟨⟨size_modify .., rfl, rfl, ?_, ?_, ?_⟩, fun g hg => ?_⟩
    · exact modify_field Node.maskedPtr (by exact fun _ => rfl) r i
    · exact modify_field Node.version (by exact fun _ => rfl) r i
    · exact modify_field Node.nextHash (by exact fun _ => rfl) r i
    · exact modify_field g (by exact fun n => hg n _ _ _ _) r i

theorem updateStackTrace_inv {r : Rep} (hr : r.Inv) (id : GraphId) (thread : ThreadId)
    (allLocks : SynchLocksHeld) : (r.updateStackTrace id thread allLocks).Inv := by
  obtain ⟨hindex, keep⟩ := updateStackTrace_node r id thread allLocks
  have hout := keep Node.outSet fun _ _ _ _ _ => rfl
  have hin := keep Node.inSet fun _ _ _ _ _ => rfl
  refine ⟨?_, hindex.indexed hr.toIndexed⟩
  refine hr.toOrdered.of_subgraph hindex.size (keep Node.rank fun _ _ _ _ _ => rfl)
    (keep Node.visited fun _ _ _ _ _ => rfl) ?_ ?_
  · intro u v
    rw [hout, hin]
    exact hr.symm u v
  · intro u v huv
    rw [Edge, hout] at huv
    exact huv

/-! ## Operations -/

inductive Op where
  | getId (thread : ThreadId) (ptr : Addr)
  | removeNode (ptr : Addr)
  | insertEdge (x y : GraphId)
  | removeEdge (x y : GraphId)
  | findPath (x y : GraphId) (maxPathLen : Nat)
  | updateStackTrace (id : GraphId) (thread : ThreadId) (allLocks : SynchLocksHeld)

variable {maxLocks : Nat}

/-- The graph behind a call. -/
def step (maxLocks : Nat) (r : Rep) : Op → Option Rep
  | .getId thread ptr => (r.getId maxLocks thread ptr).map Prod.snd
  | .removeNode ptr => r.removeNode ptr
  | .insertEdge x y => (r.insertEdge x y).map Prod.snd
  | .removeEdge x y => some (r.removeEdge x y)
  | .findPath x y maxPathLen =>
    (r.findPath x y maxPathLen (List.replicate maxPathLen invalidGraphId)).map fun _ => r
  | .updateStackTrace id thread allLocks => some (r.updateStackTrace id thread allLocks)

/-- A call of `GetId` that needs a node, but there are as many as a vector can hold. -/
def Full (r : Rep) (op : Op) : Prop :=
  ∃ thread ptr, op = .getId thread ptr ∧ (∀ id, ¬ r.Live id ptr) ∧ r.freeNodes = [] ∧
    r.size = vecMaxSize

/-- What one call does to the ids. -/
structure StepSpec (r : Rep) (op : Op) (r' : Rep) : Prop where
  inv : r'.Inv
  retired : ∀ id, r.Retired id → r'.Retired id
  live : ∀ id p, r.Live id p → op ≠ .removeNode p → r'.Live id p
  removed : ∀ id p, r.Live id p → op = .removeNode p → r'.Retired id

theorem stepSpec_of_sameIndex {r r' : Rep} {op : Op} (inv : r'.Inv) (h : SameIndex r r')
    (hop : ∀ p, op ≠ .removeNode p) : StepSpec r op r' :=
  ⟨inv, fun id => (h.retired id).mpr, fun id p hl _ => (h.live id p).mpr hl,
    fun _ p _ he => absurd he (hop p)⟩

/-- A call returns, unless the node vector is full. -/
theorem step_returns {r : Rep} (hr : r.Inv) (op : Op) :
    (step maxLocks r op = none ∧ Full r op) ∨
      ∃ r', step maxLocks r op = some r' ∧ StepSpec r op r' := by
  cases op with
  | getId thread ptr =>
    by_cases hp : ∃ id, r.Live id ptr
    · obtain ⟨id, hid⟩ := hp
      refine Or.inr ⟨r, by simp [step, getId_live hr.toIndexed hid], hr, fun _ h => h,
        fun _ _ h _ => h, fun _ _ _ h => by cases h⟩
    · rcases getId_fresh hr (not_exists.mp hp) maxLocks thread with ⟨h, hsize, hfree⟩ |
        ⟨id, r', h, hreg⟩
      · exact Or.inl ⟨by simp [step, h], thread, ptr, rfl, not_exists.mp hp, hfree, hsize⟩
      · exact Or.inr ⟨r', by simp [step, h], hreg.inv, hreg.retired,
          fun a q hl _ => (hreg.live a q).mpr (Or.inl hl), fun _ _ _ h => by cases h⟩
  | removeNode ptr =>
    refine Or.inr ?_
    by_cases hp : ∃ id, r.Live id ptr
    · obtain ⟨id, hid⟩ := hp
      obtain ⟨r', h, hrem⟩ := removeNode_present hr hid
      refine ⟨r', h, hrem.inv, hrem.retired, fun a q hl hne => ?_, fun a q hl heq => ?_⟩
      · refine (hrem.live a q).mpr ⟨hl, ?_⟩
        rintro rfl
        exact hne (by rw [hl.addr_inj hr.toIndexed hid])
      · cases heq
        rw [hl.id_inj hr.toIndexed hid]
        exact hrem.retired_self
    · refine ⟨r, removeNode_absent hr.toIndexed (not_exists.mp hp), hr, fun _ h => h,
        fun _ _ h _ => h, fun a q hl heq => ?_⟩
      cases heq
      exact absurd ⟨a, hl⟩ hp
  | insertEdge x y =>
    obtain ⟨ok, r', h, hinv, hsame⟩ := insertEdge_inv hr x y
    exact Or.inr ⟨r', by simp [step, h],
      stepSpec_of_sameIndex hinv hsame.sameIndex fun _ h => by cases h⟩
  | removeEdge x y =>
    obtain ⟨hinv, hsame⟩ := removeEdge_inv hr x y
    exact Or.inr ⟨_, rfl, stepSpec_of_sameIndex hinv hsame.sameIndex fun _ h => by cases h⟩
  | findPath x y maxPathLen =>
    refine Or.inr ⟨r, ?_, hr, fun _ h => h, fun _ _ h _ => h, fun _ _ _ h => by cases h⟩
    cases hx : r.findNode x with
    | none => simp [step, findPath_expired (Or.inl hx)]
    | some i =>
      cases hy : r.findNode y with
      | none => simp [step, findPath_expired (Or.inr hy)]
      | some j =>
        obtain ⟨len, path, h, _⟩ := findPath_returns hr.toOrdered hx hy
          (le_of_eq (List.length_replicate (n := maxPathLen) (a := invalidGraphId)).symm)
        simp [step, h]
  | updateStackTrace id thread allLocks =>
    exact Or.inr ⟨_, rfl, stepSpec_of_sameIndex (updateStackTrace_inv hr id thread allLocks)
      (updateStackTrace_node r id thread allLocks).1 fun _ h => by cases h⟩

theorem step_spec {r r' : Rep} (hr : r.Inv) {op : Op} (h : step maxLocks r op = some r') :
    StepSpec r op r' := by
  rcases step_returns hr op with ⟨hnone, _⟩ | ⟨r'', hsome, hspec⟩
  · cases hnone.symm.trans h
  · rwa [Option.some.inj (h.symm.trans hsome)]

theorem exec_inv {r r' : Rep} (hr : r.Inv) {ops : List Op}
    (h : exec (step maxLocks) r ops = some r') : r'.Inv :=
  exec_invariant (fun _ _ _ hs h => (step_spec hs h).inv) hr h

/-! ## The representation invariant -/

/-- The ranks are a permutation of the node indices. -/
theorem Ordered.ranks_perm {r : Rep} (hr : r.Ordered) :
    ((List.range r.size).map r.rank).Perm (List.range r.size) := by
  have nodup : ((List.range r.size).map r.rank).Nodup := by
    refine List.Nodup.map_on (fun i hi j hj hij => ?_) List.nodup_range
    exact hr.rank_inj (List.mem_range.mp hi) (List.mem_range.mp hj) hij
  refine (List.subperm_of_subset nodup fun k hk => ?_).perm_of_length_le (by simp)
  obtain ⟨i, hi, rfl⟩ := List.mem_map.mp hk
  exact List.mem_range.mpr (hr.rank_lt i (List.mem_range.mp hi))

/-- The representation invariant, behind every call of every sequence of calls. -/
theorem representation_invariant (ops : List Op) (r : Rep)
    (h : exec (step maxLocks) {} ops = some r) :
    ((List.range r.size).map r.rank).Perm (List.range r.size) ∧
    (∀ x y, y ∈ (r.node x).outSet → r.rank x < r.rank y) ∧
    (∀ x, ¬ TransGen r.Edge x x) ∧
    (∀ x y, y ∈ (r.node x).outSet ↔ x ∈ (r.node y).inSet) ∧
    (∀ x, (r.node x).visited = false) ∧
    (∀ x p, (r.node x).maskedPtr = some p → r.find p = some (some x)) ∧
    r.checkInvariants = some true ∧
    (∀ op, step maxLocks r op = none → Full r op) := by
  have hr : r.Inv := exec_inv inv_empty h
  refine ⟨hr.toOrdered.ranks_perm, hr.ranked, hr.acyclic, hr.symm, hr.unvisited,
    fun x p hp => hr.toIndexed.find_eq_some hp, hr.checkInvariants_eq, fun op hnone => ?_⟩
  rcases step_returns hr op with ⟨_, hfull⟩ | ⟨r', hsome, _⟩
  · exact hfull
  · cases hnone.symm.trans hsome

/-- Three locks, acquired in the order of the addresses 8, 16, 24; the lock 16 is deleted
and created again. -/
def sampleOps : List Op :=
  [.getId 1 8, .getId 1 16, .getId 1 24, .insertEdge (makeId 0 1) (makeId 1 1),
    .insertEdge (makeId 1 1) (makeId 2 1), .removeNode 16, .getId 2 16,
    .insertEdge (makeId 2 1) (makeId 1 2), .insertEdge (makeId 1 2) (makeId 0 1),
    .findPath (makeId 2 1) (makeId 0 1) 10, .removeEdge (makeId 2 1) (makeId 1 2),
    .updateStackTrace (makeId 0 1) 1 (.new 2 1)]

def sample : Rep := (exec (step 2) {} sampleOps).getD {}

theorem exec_sample : exec (step 2) {} sampleOps = some sample := by
  have : (exec (step 2) {} sampleOps).isSome = true := by decide +kernel
  obtain ⟨r, hr⟩ := Option.isSome_iff_exists.mp this
  rw [sample, hr, Option.getD_some]

theorem representation_invariant_sample : sample.checkInvariants = some true :=
  (representation_invariant sampleOps sample exec_sample).2.2.2.2.2.2.1

/-! ## The decision of `InsertEdge` -/

theorem id_ext {a b : Nat} (ha : a < 2 ^ 64) (hb : b < 2 ^ 64) (index : nodeIndex a = nodeIndex b)
    (version : nodeVersion a = nodeVersion b) : a = b := by
  simp only [nodeIndex, nodeVersion] at index version
  omega

/-- Two ids in the range of `uint64_t` that find the same node are equal. -/
theorem findNode_inj {r : Rep} {id id' : GraphId} (hid : id < 2 ^ 64) (hid' : id' < 2 ^ 64)
    (h : r.hasNode id = true) (h' : r.hasNode id' = true)
    (index : nodeIndex id = nodeIndex id') : id = id' := by
  obtain ⟨i, hi⟩ := Option.isSome_iff_exists.mp h
  obtain ⟨j, hj⟩ := Option.isSome_iff_exists.mp h'
  obtain ⟨rfl, _, hv⟩ := findNode_eq_some.mp hi
  obtain ⟨rfl, _, hv'⟩ := findNode_eq_some.mp hj
  rw [index] at hv
  exact id_ext hid hid' index (hv.symm.trans hv')

/-- `InsertEdge` is false exactly if the edge closes a cycle; then nothing has changed, and
otherwise the edge and nothing else is new. -/
theorem insertEdge_decides {r : Rep} (hr : r.Ordered) (idx idy : GraphId) (hidx : idx < 2 ^ 64)
    (hidy : idy < 2 ^ 64) (hx : r.hasNode idx = true) (hy : r.hasNode idy = true) :
    ∃ ok r', r.insertEdge idx idy = some (ok, r') ∧
      (ok = false ↔ idx = idy ∨ TransGen r.Edge (nodeIndex idy) (nodeIndex idx)) ∧
      (ok = false → ∀ i, (∀ j, j ∈ (r'.node i).outSet ↔ j ∈ (r.node i).outSet) ∧
        (∀ j, j ∈ (r'.node i).inSet ↔ j ∈ (r.node i).inSet) ∧ r'.rank i = r.rank i ∧
        (r'.node i).visited = (r.node i).visited) ∧
      (ok = true → ∀ i j,
        (j ∈ (r'.node i).outSet ↔ j ∈ (r.node i).outSet ∨ i = nodeIndex idx ∧ j = nodeIndex idy) ∧
        (i ∈ (r'.node j).inSet ↔ i ∈ (r.node j).inSet ∨
          i = nodeIndex idx ∧ j = nodeIndex idy)) := by
  obtain ⟨x, hfx⟩ := Option.isSome_iff_exists.mp hx
  obtain ⟨y, hfy⟩ := Option.isSome_iff_exists.mp hy
  obtain ⟨hix, _⟩ := findNode_eq_some.mp hfx
  obtain ⟨hiy, _⟩ := findNode_eq_some.mp hfy
  have hpath : ReflTransGen r.Edge y x ↔ idx = idy ∨ TransGen r.Edge y x := by
    rw [reflTransGen_iff_eq_or_transGen]
    refine or_congr_left ⟨fun h => ?_, fun h => ?_⟩
    · exact findNode_inj hidx hidy hx hy (by rw [hix, hiy, h])
    · rw [← hix, ← hiy, h]
  rw [hix, hiy]
  rcases insertEdge_returns hr hfx hfy with ⟨r', h, _, hadd, hno⟩ | ⟨r', h, hsame, hyes⟩
  · exact ⟨true, r', h, iff_of_false (by simp) fun hp => hno (hpath.mpr hp), by simp,
      fun _ i j => ⟨hadd.outSet i j, hadd.inSet i j⟩⟩
  · exact ⟨false, r', h, iff_of_true rfl (hpath.mp hyes), fun _ i =>
      ⟨hsame.outSet i, fun j => hsame.inSet j i, hsame.rank i, hsame.visited i⟩, by simp⟩

theorem insertEdge_decides_sample : ∃ ok r',
    sample.insertEdge (makeId 0 1) (makeId 1 2) = some (ok, r') ∧
      (ok = false ↔ makeId 0 1 = makeId 1 2 ∨
        TransGen sample.Edge (nodeIndex (makeId 1 2)) (nodeIndex (makeId 0 1))) :=
  have hr : sample.Inv := exec_inv inv_empty exec_sample
  have ⟨ok, r', h, hiff, _⟩ := insertEdge_decides hr.toOrdered (makeId 0 1) (makeId 1 2)
    (by decide) (by decide) (by decide +kernel) (by decide +kernel)
  ⟨ok, r', h, hiff⟩

/-! ## Ids -/

theorem getId_spec {r r' : Rep} (hr : r.Inv) {thread : ThreadId} {p : Addr} {id : GraphId}
    (h : r.getId maxLocks thread p = some (id, r')) :
    r'.Live id p ∧ StepSpec r (.getId thread p) r' := by
  have hstep : step maxLocks r (.getId thread p) = some r' := by simp [step, h]
  refine ⟨?_, step_spec hr hstep⟩
  by_cases hp : ∃ id, r.Live id p
  · obtain ⟨a, ha⟩ := hp
    cases (getId_live hr.toIndexed ha maxLocks thread).symm.trans h
    exact ha
  · rcases getId_fresh hr (not_exists.mp hp) maxLocks thread with ⟨hnone, _⟩ | ⟨a, r'', hsome, hreg⟩
    · cases hnone.symm.trans h
    · cases hsome.symm.trans h
      exact (hreg.live id p).mpr (Or.inr ⟨rfl, rfl⟩)

/-- A live id is live until its pointer is removed and retired from then on. -/
theorem exec_live {r r' : Rep} (hr : r.Inv) {id : GraphId} {p : Addr} (hl : r.Live id p)
    {ops : List Op} (h : exec (step maxLocks) r ops = some r') :
    (.removeNode p ∉ ops → r'.Live id p) ∧ (.removeNode p ∈ ops → r'.Retired id) := by
  induction ops generalizing r with
  | nil =>
    obtain rfl := Option.some.inj h
    simp [hl]
  | cons op ops ih =>
    obtain ⟨r₁, hstep, hexec⟩ := exec_cons.mp h
    have hspec := step_spec hr hstep
    by_cases hop : op = .removeNode p
    · have hret : r₁.Inv ∧ r₁.Retired id := ⟨hspec.inv, hspec.removed id p hl hop⟩
      have := exec_invariant (P := fun r => r.Inv ∧ r.Retired id) (fun s _ _ hs h =>
        ⟨(step_spec hs.1 h).inv, (step_spec hs.1 h).retired id hs.2⟩) hret hexec
      exact ⟨fun hmem => absurd (by simp [hop]) hmem, fun _ => this.2⟩
    · simpa [Ne.symm hop] using ih hspec.inv (hspec.live id p hl hop) hexec

/-- An id names one registration of one pointer, for all time. -/
theorem getId_identifies (ops₀ ops : List Op) (r₀ r₁ r₂ : Rep) (thread : ThreadId) (p : Addr)
    (id : GraphId) (h₀ : exec (step maxLocks) {} ops₀ = some r₀)
    (hget : r₀.getId maxLocks thread p = some (id, r₁))
    (h : exec (step maxLocks) r₁ ops = some r₂) :
    id ≠ invalidGraphId ∧
    (.removeNode p ∉ ops → r₂.ptr id = some p ∧
      (∀ thread', r₂.getId maxLocks thread' p = some (id, r₂)) ∧
      ∀ q, q ≠ p → ∀ thread' id' r', r₂.getId maxLocks thread' q = some (id', r') → id' ≠ id) ∧
    (.removeNode p ∈ ops → r₂.ptr id = none ∧
      ∀ q thread' id' r', r₂.getId maxLocks thread' q = some (id', r') → id' ≠ id) := by
  have hr₀ : r₀.Inv := exec_inv inv_empty h₀
  obtain ⟨hlive, hspec⟩ := getId_spec hr₀ hget
  have hr₂ : r₂.Inv := exec_inv hspec.inv h
  obtain ⟨hkeep, hremove⟩ := exec_live hspec.inv hlive h
  refine ⟨hlive.ne_invalid hspec.inv.toIndexed, fun hmem => ?_, fun hmem => ?_⟩
  · have hl := hkeep hmem
    refine ⟨hl.ptr_eq hr₂.toIndexed, fun t => getId_live hr₂.toIndexed hl maxLocks t, ?_⟩
    rintro q hq t id' r' hget' rfl
    obtain ⟨hl', hspec'⟩ := getId_spec hr₂ hget'
    have hl'' := hspec'.live id' p hl fun h => by cases h
    exact hq (hl'.addr_inj hspec'.inv.toIndexed hl'')
  · have hret := hremove hmem
    refine ⟨hret.ptr_eq, ?_⟩
    rintro q t id' r' hget' rfl
    obtain ⟨hl', hspec'⟩ := getId_spec hr₂ hget'
    exact (hspec'.retired id' hret).not_live hspec'.inv.toIndexed hl'

theorem getId_identifies_sample : ∃ r₁ r₂, ({} : Rep).getId 2 1 16 = some (makeId 0 1, r₁) ∧
    exec (step 2) r₁ [.removeNode 16, .getId 2 16] = some r₂ ∧ r₂.ptr (makeId 0 1) = none := by
  obtain ⟨r₂, h⟩ := Option.isSome_iff_exists.mp
    (show (exec (step 2) {} [.getId 1 16, .removeNode 16, .getId 2 16]).isSome = true by
      decide +kernel)
  obtain ⟨_, hstep, hexec⟩ := exec_cons.mp h
  rw [step] at hstep
  obtain ⟨⟨id, r₁⟩, hget, rfl⟩ := Option.map_eq_some_iff.mp hstep
  obtain rfl : makeId 0 1 = id := Option.some.inj (congrArg (Option.map Prod.fst) hget)
  have hid := getId_identifies [] _ {} r₁ r₂ 1 16 (makeId 0 1) rfl hget hexec
  exact ⟨r₁, r₂, hget, hexec, (hid.2.2 (by simp)).1⟩

end Rep
end CppGuard
