import CppGuard.GraphCycles.Runs

/-!
# Stale ids

`RemoveNode` gives the slot a new version, which no operation takes back, so an id that was returned
before finds no node any more. At the largest version there is no new one: the slot is not used
again, and the last id still finds it.
-/
namespace CppGuard
namespace Rep
open Relation Transition

/-- No operation does anything with the id. -/
structure Inert (r : Rep) (id : GraphId) : Prop where
  hasNode : r.hasNode id = false
  hasEdge : ∀ y, r.hasEdge id y = false ∧ r.hasEdge y id = false
  findPath : ∀ y maxPathLen path, r.findPath id y maxPathLen path = some (0, path) ∧
    r.findPath y id maxPathLen path = some (0, path)
  insertEdge : ∀ y, r.insertEdge id y = some (true, r) ∧ r.insertEdge y id = some (true, r)
  removeEdge : ∀ y, r.removeEdge id y = r ∧ r.removeEdge y id = r
  updateStackTrace : ∀ thread allLocks, r.updateStackTrace id thread allLocks = r

/-- The slot of the id has a later version. -/
def Stale (r : Rep) (id : GraphId) : Prop :=
  nodeIndex id < r.size ∧ nodeVersion id < (r.node (nodeIndex id)).version

variable {r r' : Rep} {id : GraphId} {p : Addr} {maxLocks : Nat} {op : Op} {ops : List Op}

theorem inert_of_findNode (h : r.findNode id = none) : r.Inert id where
  hasNode := by rw [hasNode, h]; rfl
  hasEdge y := by
    refine ⟨by rw [hasEdge, h], ?_⟩
    rw [hasEdge, h]
    cases r.findNode y <;> rfl
  findPath y maxPathLen path :=
    ⟨findPath_expired (.inl h) maxPathLen path, findPath_expired (.inr h) maxPathLen path⟩
  insertEdge y := ⟨insertEdge_expired (.inl h), insertEdge_expired (.inr h)⟩
  removeEdge y := by
    refine ⟨by rw [removeEdge, h], ?_⟩
    rw [removeEdge, h]
    cases r.findNode y <;> rfl
  updateStackTrace thread allLocks := by rw [updateStackTrace, h]

theorem Stale.inert (h : r.Stale id) : r.Inert id := by
  refine inert_of_findNode ?_
  rw [findNode, if_neg]
  rintro ⟨-, heq⟩
  exact h.2.ne heq.symm

/-! ## Versions -/

theorem Prepared.versions {i : Nat} (h : Prepared p i r r') :
    r.size ≤ (r'.add p i).size ∧
      ∀ j < r.size, (r.node j).version ≤ ((r'.add p i).node j).version := by
  have hlinks := sameButLinks_add r' p i
  refine ⟨h.size.trans_eq hlinks.size.symm, fun j hj => ?_⟩
  rw [hlinks.field Node.version fun _ => rfl]
  by_cases hji : j = i
  · rw [hji] at hj ⊢
    exact (h.recycled hj).2.ge
  · rw [h.node j hji]

/-- Slots stay, and their versions do not go down. -/
theorem step_versions (hr : r.Inv) (h : step maxLocks r op = some r') :
    r.size ≤ r'.size ∧ ∀ j < r.size, (r.node j).version ≤ (r'.node j).version := by
  have same {r' : Rep} (hsame : SameIndex r r') :
      r.size ≤ r'.size ∧ ∀ j < r.size, (r.node j).version ≤ (r'.node j).version :=
    ⟨hsame.size.ge, fun j _ => (hsame.version j).ge⟩
  cases op with
  | getId thread ptr =>
    obtain ⟨⟨a, r''⟩, hget, rfl⟩ := Option.map_eq_some_iff.mp h
    by_cases hp : ∃ id, r.Live id ptr
    · obtain ⟨b, hb⟩ := hp
      cases (getId_live hr.toIndexed hb maxLocks thread).symm.trans hget
      exact ⟨le_rfl, fun _ _ => le_rfl⟩
    · obtain ⟨hnone, -⟩ | ⟨i, r₁, hsome, hprep⟩ :=
        getId_prepared hr (not_exists.mp hp) maxLocks thread
      · cases hnone.symm.trans hget
      · cases hsome.symm.trans hget
        exact hprep.versions
  | removeNode ptr =>
    have hremove : r.removeNode ptr = some r' := h
    by_cases hp : ∃ id, r.Live id ptr
    · obtain ⟨_, i, hi, -⟩ := hp
      obtain ⟨r₁, heq, hlinks, -⟩ := removeNode_eq hr.toIndexed hi
      obtain rfl := Option.some.inj (heq.symm.trans hremove)
      obtain ⟨hsize, hversion, hvacated⟩ := vacated_of_removeNode hr.toIndexed hi hlinks
      refine ⟨hsize.ge, fun j _ => ?_⟩
      by_cases hji : j = i
      · subst hji
        obtain ⟨-, hv, -⟩ | ⟨-, hv, -⟩ := hvacated <;> omega
      · exact (hversion j hji).ge
    · cases (removeNode_absent hr.toIndexed (not_exists.mp hp)).symm.trans hremove
      exact ⟨le_rfl, fun _ _ => le_rfl⟩
  | insertEdge x y =>
    obtain ⟨⟨ok, r''⟩, hinsert, rfl⟩ := Option.map_eq_some_iff.mp h
    obtain ⟨ok', r₁, heq, -, hsame⟩ := insertEdge_inv hr x y
    cases heq.symm.trans hinsert
    exact same hsame.sameIndex
  | removeEdge x y =>
    obtain rfl := Option.some.inj h
    exact same (removeEdge_inv hr x y).2.sameIndex
  | findPath x y maxPathLen =>
    obtain ⟨_, -, rfl⟩ := Option.map_eq_some_iff.mp h
    exact ⟨le_rfl, fun _ _ => le_rfl⟩
  | updateStackTrace id thread allLocks =>
    obtain rfl := Option.some.inj h
    exact same (updateStackTrace_node r id thread allLocks).1

theorem Stale.step (hr : r.Inv) (h : r.Stale id) (hstep : step maxLocks r op = some r') :
    r'.Stale id := by
  obtain ⟨hsize, hversion⟩ := step_versions hr hstep
  exact ⟨h.1.trans_le hsize, h.2.trans_le (hversion _ h.1)⟩

/-- Removing the pointer makes its id stale, unless it has the largest version. -/
theorem stale_of_removeNode (hr : r.Inv) (hl : r.Live id p) (hlt : nodeVersion id < maxVersion)
    (h : r.removeNode p = some r') : r'.Stale id := by
  obtain ⟨i, hi, rfl⟩ := hl
  obtain ⟨hindex, hversion, -⟩ := hr.idOf_spec (lt_size_of_maskedPtr hi)
  obtain ⟨r₁, heq, hlinks, -⟩ := removeNode_eq hr.toIndexed hi
  obtain rfl := Option.some.inj (heq.symm.trans h)
  obtain ⟨hsize, -, hvacated⟩ := vacated_of_removeNode hr.toIndexed hi hlinks
  rw [Stale, hindex, hsize]
  refine ⟨lt_size_of_maskedPtr hi, ?_⟩
  obtain ⟨hmax, -, -⟩ | ⟨-, hv, -⟩ := hvacated <;> omega

theorem exec_stale (hr : r.Inv) (hl : r.Live id p) (hlt : nodeVersion id < maxVersion)
    (hmem : .removeNode p ∈ ops) (h : exec (step maxLocks) r ops = some r') : r'.Stale id := by
  obtain ⟨before, after, rfl, hbefore⟩ := List.eq_append_cons_of_mem hmem
  obtain ⟨r₁, h₁, h⟩ := exec_append.mp h
  obtain ⟨r₂, h₂, h⟩ := exec_cons.mp h
  have hlive := (exec_live hr hl h₁).1 hbefore
  have hr₁ := exec_inv hr h₁
  have hstale := stale_of_removeNode hr₁ hlive hlt h₂
  exact (exec_invariant (P := fun r => r.Inv ∧ r.Stale id) (fun s _ _ hs h =>
    ⟨(step_spec hs.1 h).inv, hs.2.step hs.1 h⟩) ⟨(step_spec hr₁ h₂).inv, hstale⟩ h).2

/-- At the largest version a retired id still finds its node. -/
theorem Retired.hasNode (hr : r.Inv) (h : r.Retired id) (hmax : maxVersion ≤ nodeVersion id) :
    r.hasNode id = true := by
  have hle := hr.version_le _ h.1
  have hversion : (r.node (nodeIndex id)).version = nodeVersion id := by
    obtain ⟨-, hlt | ⟨heq, -⟩⟩ := h <;> omega
  rw [Rep.hasNode, findNode, if_pos ⟨h.1, hversion⟩]
  rfl

/-- An id that `GetId` has returned is inert at all times behind a later `RemoveNode` of its
pointer, if and only if it does not have the largest version. -/
theorem stale_inert_iff {ops₀ : List Op} {r₀ r₁ : Rep} {thread : ThreadId}
    (h₀ : exec (step maxLocks) {} ops₀ = some r₀)
    (hget : r₀.getId maxLocks thread p = some (id, r₁))
    (h : exec (step maxLocks) r₁ ops = some r) (hmem : .removeNode p ∈ ops) :
    r.Inert id ↔ nodeVersion id < maxVersion := by
  obtain ⟨hlive, hspec⟩ := getId_spec (exec_inv inv_empty h₀) hget
  refine ⟨fun hinert => ?_, fun hlt => (exec_stale hspec.inv hlive hlt hmem h).inert⟩
  by_contra hmax
  have hretired := (exec_live hspec.inv hlive h).2 hmem
  have hnode := hretired.hasNode (exec_inv hspec.inv h) (Nat.not_lt.mp hmax)
  cases hnode.symm.trans hinert.hasNode

theorem stale_inert_iff_sample : ∃ r, exec (step 2) {} [.getId 1 16, .removeNode 16, .getId 2 16,
    .insertEdge (makeId 0 1) (makeId 0 2)] = some r ∧ r.Inert (makeId 0 1) := by
  obtain ⟨r, h⟩ := Option.isSome_iff_exists.mp
    (show (exec (step 2) {} [.getId 1 16, .removeNode 16, .getId 2 16,
      .insertEdge (makeId 0 1) (makeId 0 2)]).isSome = true by decide +kernel)
  obtain ⟨_, hstep, hexec⟩ := exec_cons.mp h
  rw [step] at hstep
  obtain ⟨⟨id, r₁⟩, hget, rfl⟩ := Option.map_eq_some_iff.mp hstep
  obtain rfl : makeId 0 1 = id := Option.some.inj (congrArg (Option.map Prod.fst) hget)
  have hempty : exec (step 2) ({} : Rep) [] = some {} := rfl
  exact ⟨r, h, (stale_inert_iff hempty hget hexec (by simp)).mpr (by decide)⟩

/-! ## The last version of a slot -/

/-- One slot, which is free and has the version `v`. -/
structure Idle (r : Rep) (v : Nat) : Prop where
  inv : r.Inv
  size : r.size = 1
  freeNodes : r.freeNodes = [0]
  version : (r.node 0).version = v

/-- A pointer is registered and removed, `n` times. -/
def rounds (n : Nat) : List Op := (List.replicate n [.getId 1 8, .removeNode 8]).flatten

theorem Idle.not_live {v : Nat} (h : r.Idle v) (id : GraphId) (p : Addr) : ¬ r.Live id p := by
  rintro ⟨i, hi, -⟩
  obtain rfl : i = 0 := by
    have := lt_size_of_maskedPtr hi
    have := h.size
    omega
  cases (h.inv.free 0 (by simp [h.freeNodes])).2.symm.trans hi

/-- The slot is taken. -/
theorem Idle.getId {v : Nat} (h : r.Idle v) (maxLocks : Nat) (thread : ThreadId) (p : Addr) :
    ∃ r', r.getId maxLocks thread p = some (makeId 0 v, r') ∧ r'.Inv ∧ r'.size = 1 ∧
      r'.freeNodes = [] ∧ (r'.node 0).version = v ∧ (r'.node 0).maskedPtr = some p := by
  have hnone (id : GraphId) := h.not_live id p
  obtain ⟨r₁, hget, hprep, hsize, hfree⟩ := getId_recycled h.inv hnone h.freeNodes maxLocks thread
  have hlinks := sameButLinks_add r₁ p 0
  have hversion : (r₁.node 0).version = v :=
    (hprep.recycled (by rw [h.size]; decide)).2.trans h.version
  have hid : r₁.idOf 0 = makeId 0 v := congrArg (makeId 0) hversion
  rw [hid] at hget
  refine ⟨_, hget, (hprep.registered h.inv (unregistered_iff.mp hnone)).inv,
    hlinks.size.trans (hsize.trans h.size), hlinks.freeNodes.trans hfree, ?_,
    (hlinks.maskedPtr 0).trans hprep.maskedPtr⟩
  rw [hlinks.field Node.version fun _ => rfl, hversion]

/-- The slot comes back with the next version. -/
theorem Idle.round {v : Nat} (h : r.Idle v) (hv : v < maxVersion) :
    ∃ r', exec (step 1) r [.getId 1 8, .removeNode 8] = some r' ∧ r'.Idle (v + 1) := by
  obtain ⟨r₁, hget, hinv, hsize, hfree, hversion, hptr⟩ := h.getId 1 1 8
  obtain ⟨r₂, heq, hlinks, -⟩ := removeNode_eq hinv.toIndexed hptr
  obtain ⟨hsize', -, hvacated⟩ := vacated_of_removeNode hinv.toIndexed hptr hlinks
  have hfirst : step 1 r (.getId 1 8) = some r₁ := by rw [step, hget]; rfl
  have hsecond : step 1 r₁ (.removeNode 8) = some ((r₂.dropEdges 0).vacate 0) := heq
  refine ⟨_, exec_cons.mpr ⟨_, hfirst, exec_cons.mpr ⟨_, hsecond, rfl⟩⟩, ?_⟩
  obtain ⟨hmax, -⟩ | ⟨-, hnext, hfree'⟩ := hvacated
  · omega
  · exact ⟨(step_spec hinv hsecond).inv, hsize'.trans hsize, by rw [hfree', hfree],
      by rw [hnext, hversion]⟩

theorem exec_rounds (n : Nat) (hn : n + 2 ≤ maxVersion) :
    ∃ r, exec (step 1) {} (rounds (n + 1)) = some r ∧ r.Idle (n + 2) := by
  induction n with
  | zero =>
    have hrun : ∃ r, exec (step 1) {} (rounds 1) = some r ∧
        r.size = 1 ∧ r.freeNodes = [0] ∧ (r.node 0).version = 2 :=
      exists_exec (by decide +kernel)
    obtain ⟨r, h, hsize, hfree, hversion⟩ := hrun
    exact ⟨r, h, exec_inv inv_empty h, hsize, hfree, hversion⟩
  | succ n ih =>
    obtain ⟨r, h, hidle⟩ := ih (by omega)
    obtain ⟨r', hround, hidle'⟩ := hidle.round (by omega)
    refine ⟨r', ?_, hidle'⟩
    rw [rounds, List.replicate_succ', List.flatten_append]
    exact exec_append.mpr ⟨r, h, by simpa using hround⟩

/-- A pointer is registered and removed until the version of its slot is the largest one. It is
registered and removed once more, and its id still finds a node. -/
theorem lastVersion_not_inert : ∃ r₀ r₁ r₂ id,
    exec (step 1) {} (rounds (maxVersion - 1)) = some r₀ ∧
      r₀.getId 1 1 8 = some (id, r₁) ∧ exec (step 1) r₁ [.removeNode 8] = some r₂ ∧
      r₂.hasNode id = true ∧ ¬ r₂.Inert id := by
  obtain ⟨n, hn⟩ : ∃ n, maxVersion = n + 2 := ⟨maxVersion - 2, by decide⟩
  obtain ⟨r₀, h₀, hidle⟩ := exec_rounds n hn.ge
  obtain ⟨r₁, hget, hinv, -, -, hversion, hptr⟩ := hidle.getId 1 1 8
  have hlive : r₁.Live (makeId 0 (n + 2)) 8 := ⟨0, hptr, by rw [idOf, hversion]⟩
  obtain ⟨r₂, hremove, hremoved⟩ := removeNode_present hinv hlive
  have hnode : r₂.hasNode (makeId 0 (n + 2)) = true := by
    refine hremoved.retired_self.hasNode hremoved.inv ?_
    rw [← hn]
    decide
  have hsecond : step 1 r₁ (.removeNode 8) = some r₂ := hremove
  refine ⟨r₀, r₁, r₂, _, ?_, hget, exec_cons.mpr ⟨_, hsecond, rfl⟩, hnode, fun hinert => ?_⟩
  · rw [hn]
    exact h₀
  · cases hnode.symm.trans hinert.hasNode

end Rep
end CppGuard
