import CppGuard.DeadlockMonitor.Invariant

/-!
# Deadlock reports

A report prints the path that closes the cycle, with the snapshot of every node on it. Every
node with an incoming edge has one: `UpdateStackTrace` comes before `InsertEdge`, and a
thread that inserts an edge holds a lock, so its snapshot has priority 2 at least.
-/
namespace CppGuard
open Relation Transition DeadlockMonitor

theorem Node.snapshot_field {α : Type} {n n' : Node} (h : n'.snapshot = n.snapshot) (f : Node → α)
    (hf : ∀ n : Node, f n.snapshot = f n) : f n' = f n := by
  rw [← hf, h, hf]

namespace Rep

structure Snapshots (g : Rep) : Prop where
  target : ∀ u v, g.Edge u v → 2 ≤ (g.node v).priority
  taken : ∀ v, 2 ≤ (g.node v).priority →
    (g.node v).threadId ≠ none ∧ 0 < (g.node v).holdLocksCount

theorem snapshots_empty : ({} : Rep).Snapshots := by
  refine ⟨fun u v h => absurd h.left_lt (Nat.not_lt_zero u), fun v hv => ?_⟩
  have hnode : ({} : Rep).node v = default := node_of_size_le (Nat.zero_le v)
  rw [hnode] at hv
  exact absurd hv (by decide)

/-- A graph with the snapshots of `g` and no new targets. -/
theorem Snapshots.of_eq {g g' : Rep} (h : g.Snapshots)
    (snapshot : ∀ i, (g'.node i).snapshot = (g.node i).snapshot)
    (target : ∀ u v, g'.Edge u v → g.Edge u v ∨ 2 ≤ (g.node v).priority) : g'.Snapshots := by
  have hpriority i := Node.snapshot_field (snapshot i) Node.priority fun _ => rfl
  have hthread i := Node.snapshot_field (snapshot i) Node.threadId fun _ => rfl
  have hcount i := Node.snapshot_field (snapshot i) Node.holdLocksCount fun _ => rfl
  refine ⟨fun u v huv => ?_, fun v hv => ?_⟩
  · rw [hpriority]
    obtain huv | hv := target u v huv
    · exact h.target u v huv
    · exact hv
  · rw [hthread, hcount]
    exact h.taken v (hpriority v ▸ hv)

/-- A fresh node has no snapshot, and no incoming edge. -/
theorem Snapshots.getId {g g' : Rep} (h : g.Snapshots) (hg : g.Clean) {p : Addr} {id : GraphId}
    (hgot : GotId p id g g') : g'.Snapshots := by
  obtain rfl | ⟨hsnapshot, hpriority, habsent⟩ := hgot.snapshot
  · exact h
  have hkeep i (hi : i ≠ nodeIndex id) :=
    Node.snapshot_field (hsnapshot i hi) Node.priority fun _ => rfl
  refine ⟨fun u v huv => ?_, fun v hv => ?_⟩
  · have hedge := (hgot.edge u v).mp huv
    have hne : v ≠ nodeIndex id := by
      rintro rfl
      obtain ⟨-, q, hq⟩ := hg.registered u _ hedge
      have hlive : g.Live (g.idOf (nodeIndex id)) q := ⟨_, hq, rfl⟩
      have hindex := (hg.idOf_spec (lt_size_of_maskedPtr hq)).1
      have hptr := (((hgot.live _ q).mpr (Or.inl hlive)).at_index hgot.clean.toIndexed).1
      rw [hindex, (hgot.self.at_index hgot.clean.toIndexed).1] at hptr
      cases hptr
      exact habsent _ hlive
    rw [hkeep v hne]
    exact h.target u v hedge
  · have hne : v ≠ nodeIndex id := by
      rintro rfl
      omega
    rw [hkeep v hne] at hv
    rw [Node.snapshot_field (hsnapshot v hne) Node.threadId fun _ => rfl,
      Node.snapshot_field (hsnapshot v hne) Node.holdLocksCount fun _ => rfl]
    exact h.taken v hv

/-- The snapshot of a thread with `0 < n` locks counts as one. -/
theorem Snapshots.updateStackTrace {g : Rep} (h : g.Snapshots) (hg : g.Clean) {id : GraphId}
    {p : Addr} (hid : g.Live id p) (thread : ThreadId) {allLocks : SynchLocksHeld}
    (hn : allLocks.n < 2 ^ 8) :
    (g.updateStackTrace id thread allLocks).Snapshots ∧ (allLocks.n ≠ 0 →
      2 ≤ ((g.updateStackTrace id thread allLocks).node (nodeIndex id)).priority) := by
  obtain ⟨-, hedge, -, -⟩ := hg.updateStackTrace_arc id thread allLocks
  have hi : nodeIndex id < g.size := lt_size_of_maskedPtr (hid.at_index hg.toIndexed).1
  by_cases hpriority : allLocks.n + 1 ≤ (g.node (nodeIndex id)).priority
  · have hsame : g.updateStackTrace id thread allLocks = g := by
      rw [hid.updateStackTrace_eq hg.toIndexed, if_pos hpriority]
    rw [hsame]
    exact ⟨h, fun hne => by omega⟩
  · have hnode : ∀ j, (g.updateStackTrace id thread allLocks).node j =
        if j = nodeIndex id then
          { g.node j with
            priority := allLocks.n + 1, threadId := some thread, holdLocks := allLocks.locks
            holdLocksCount := allLocks.n % 2 ^ 8 }
        else g.node j := by
      intro j
      rw [hid.updateStackTrace_eq hg.toIndexed, if_neg hpriority]
      exact node_modify _ hi j
    refine ⟨⟨fun u v huv => ?_, fun v => ?_⟩, fun hne => ?_⟩
    · have htarget := h.target u v ((hedge u v).mp huv)
      rw [hnode]
      split_ifs with hv
      · subst hv
        simp only
        omega
      · exact htarget
    · rw [hnode]
      split_ifs
      · simp
        omega
      · exact h.taken v
    · rw [hnode, if_pos rfl]
      simp only
      omega

end Rep

namespace Core
open CppGuard.Rep

variable {maxLocks : Nat} {s : Core} {t : ThreadId} {mu : Addr} {id : GraphId} {g g' : Rep}

theorem Inv.lock_snapshots (hs : s.Inv maxLocks) (h : s.graph.Snapshots) (hmax : maxLocks ≤ 256)
    (hroom : (s.held t).n < maxLocks) {refused : Option GraphId}
    (hid : s.graph.getId maxLocks t mu = some (id, g))
    (hcheck : checkHeldLocks id (s.held t).entries (g.updateStackTrace id t (s.held t)) =
      some (refused, g')) :
    g'.Snapshots ∧ ((s.held t).n ≠ 0 → 2 ≤ (g'.node (nodeIndex id)).priority) := by
  have hgot := hs.clean.getId_arc hid
  have hchecked := hs.checked hid hcheck
  have hn : (s.held t).n < 2 ^ 8 := by omega
  obtain ⟨hupdate, hpriority⟩ :=
    (h.getId hs.clean hgot).updateStackTrace hgot.clean hgot.self t hn
  set g₁ := g.updateStackTrace id t (s.held t)
  have hsnapshot : ∀ i, (g'.node i).snapshot = (g₁.node i).snapshot :=
    hchecked.sameIdent.field Node.snapshot fun _ => rfl
  have hindex := hchecked.sameIdent.sameIndex
  refine ⟨hupdate.of_eq hsnapshot fun u v huv => ?_, fun hne => ?_⟩
  · have hsizes := hchecked.sameIds.clean.registered u v huv
    have hlt : ∀ i, (∃ q, (g'.node i).maskedPtr = some q) → nodeIndex (g'.idOf i) = i := by
      rintro i ⟨q, hq⟩
      exact (hchecked.sameIds.clean.idOf_spec (lt_size_of_maskedPtr hq)).1
    have harc := hchecked.sameIds.clean.arc_idOf huv
    obtain ⟨-, -, hold⟩ | ⟨hattempted, hv⟩ := hchecked.arc_new _ _ harc
    · rw [hlt u hsizes.1, hlt v hsizes.2] at hold
      exact Or.inl hold
    · obtain ⟨-, l, hl, -⟩ := hattempted.mem
      have hne : (s.held t).n ≠ 0 := by
        rw [(hs.valid t).n_eq]
        exact List.length_pos_of_mem hl |>.ne'
      rw [← hlt v hsizes.2, hv]
      exact Or.inr (hpriority hne)
  · have := hchecked.sameIdent.field Node.priority (fun _ => rfl) (nodeIndex id)
    rw [this]
    exact hpriority hne

theorem Effect.snapshots {now : Nat} {hook : Hook} {s' : Core} (hmax : maxLocks ≤ 256)
    (h : Effect maxLocks s t now hook s') (hs : s.Inv maxLocks) (hsnap : s.graph.Snapshots) :
    s'.graph.Snapshots := by
  have got : ∀ {mu id g}, s.graph.getId maxLocks t mu = some (id, g) → g.Snapshots :=
    fun hid => hsnap.getId hs.clean (hs.clean.getId_arc hid)
  have removed : ∀ {mu g}, s.graph.removeNode mu = some g → g.Snapshots := by
    intro mu g hg
    have hremoved := hs.clean.removed hg
    exact hsnap.of_eq hremoved.snapshot fun u v huv => Or.inl (hremoved.edge u v huv)
  cases h with
  | lock _ hroom hid hcheck => exact (hs.lock_snapshots hsnap hmax hroom hid hcheck).1
  | lockRefused _ hroom hid hcheck => exact (hs.lock_snapshots hsnap hmax hroom hid hcheck).1
  | tryLock hid => exact got hid
  | unlock _ hid => exact got hid
  | unlockError _ hid => exact got hid
  | delete hg => exact removed hg
  | deleteHeld hg => exact removed hg
  | _ => exact hsnap

end Core

namespace Config
open CppGuard.Rep

theorem exec_snapshots {maxLocks : Nat} (hmax : maxLocks ≤ 256) {es : List Event} {c : Config}
    (h : exec (step maxLocks) {} es = some c) : c.monitor.deadlockGraph.Snapshots := by
  have hstep : ∀ c e c', ((core maxLocks c).Inv maxLocks ∧ c.monitor.deadlockGraph.Snapshots) →
      step maxLocks c e = some c' →
        (core maxLocks c').Inv maxLocks ∧ c'.monitor.deadlockGraph.Snapshots :=
    fun c e c' hc h => ⟨(step_effect h).inv hc.1, (step_effect h).snapshots hmax hc.1 hc.2⟩
  exact (exec_invariant hstep ⟨Core.inv_initial maxLocks, snapshots_empty⟩ h).2

/-- What a deadlock report about the refused edge from `other` to `id` shows: `ids` is the
path from `id` to `other`, the first entries of it are stored in `path`. -/
structure Backed (g : Rep) (id other : GraphId) (len : Nat) (path ids : List GraphId) : Prop where
  length : ids.length = len
  two_le : 2 ≤ len
  stored : path.take (min len pathSize) = ids.take pathSize
  head : ids.head? = some id
  last : ids.getLast? = some other
  chain : ids.IsChain g.Arc
  nodup : ids.Nodup
  live : ∀ a ∈ ids, ∃ p, g.Live a p ∧ g.ptr a = some p
  infos : ∀ a ∈ ids, ∃ infos, g.extraInfos a = some infos ∧ infos.threadId ≠ none ∧
    1 ≤ infos.holdLocksCount

/-- Every node of a path but the first has an incoming edge. -/
theorem exists_edge_of_mem_tail {α : Type*} {R : α → α → Prop} {x : α} {l : List α}
    (h : (x :: l).IsChain R) : ∀ a ∈ l, ∃ b, R b a := by
  induction l generalizing x with
  | nil => simp
  | cons y l ih =>
    rw [List.isChain_cons_cons] at h
    intro a ha
    obtain rfl | ha := List.mem_cons.mp ha
    · exact ⟨x, h.1⟩
    · exact ih h.2 a ha

/-- What `FindPath` returns for two live ids with a path between them: `ids` is such a path,
the first entries of it are stored in `path`. -/
structure FoundPath (g : Rep) (id other : GraphId) (len : Nat) (path ids : List GraphId) :
    Prop where
  length : ids.length = len
  stored : path.take (min len pathSize) = ids.take pathSize
  head : ids.head? = some id
  last : ids.getLast? = some other
  chain : ids.IsChain g.Arc
  nodup : ids.Nodup
  live : ∀ a ∈ ids, ∃ p, g.Live a p

theorem foundPath_of_path {g : Rep} (hg : g.Clean) {id other : GraphId} {mu p : Addr}
    (hid : g.Live id mu) (hother : g.Live other p) (hpath : ReflTransGen g.Arc id other) :
    ∃ len path ids, g.findPath id other pathSize (List.replicate pathSize 0) = some (len, path) ∧
      FoundPath g id other len path ids := by
  have room : pathSize ≤ (List.replicate pathSize 0).length := by simp
  obtain ⟨len, path, hfind, hresult⟩ := findPath_returns hg.toOrdered (hid.findNode hg.toIndexed)
    (hother.findNode hg.toIndexed) room
  obtain ⟨-, hno⟩ | ⟨nodes, hnodes, rfl, hprefix⟩ := hresult.found
  · exact absurd ((hg.path_iff hid hother).mpr hpath) hno
  obtain ⟨hmasked, hideq⟩ := hid.at_index hg.toIndexed
  have hothereq := (hother.at_index hg.toIndexed).2
  obtain ⟨l, rfl⟩ : ∃ l, nodes = nodeIndex id :: l := List.head?_eq_some_iff.mp hnodes.head
  have hregistered : ∀ i ∈ nodeIndex id :: l, ∃ q, (g.node i).maskedPtr = some q := by
    intro i hi
    obtain rfl | hi := List.mem_cons.mp hi
    · exact ⟨mu, hmasked⟩
    · obtain ⟨j, hj⟩ := exists_edge_of_mem_tail hnodes.chain i hi
      exact (hg.registered j i hj).2
  have hindex : ∀ i ∈ nodeIndex id :: l, nodeIndex (g.idOf i) = i := by
    intro i hi
    obtain ⟨q, hq⟩ := hregistered i hi
    exact (hg.idOf_spec (lt_size_of_maskedPtr hq)).1
  refine ⟨_, path, (nodeIndex id :: l).map g.idOf, hfind, ⟨by simp, ?_, ?_, ?_, ?_, ?_, ?_⟩⟩
  · have hlen := List.prefix_iff_eq_take.mp hprefix
    simp only [List.length_take, List.length_map] at hlen
    rw [hlen, min_comm]
  · simp [← hideq]
  · rw [List.getLast?_map, hnodes.last, Option.map_some, ← hothereq]
  · exact (List.isChain_map _).mpr (hnodes.chain.imp fun u v huv => hg.arc_idOf huv)
  · refine List.Nodup.map_on (fun i hi j hj hij => ?_) (hnodes.nodup hg.toOrdered)
    rw [← hindex i hi, hij, hindex j hj]
  · intro a ha
    obtain ⟨i, hi, rfl⟩ := List.mem_map.mp ha
    obtain ⟨q, hq⟩ := hregistered i hi
    exact ⟨q, i, hq, rfl⟩

theorem FoundPath.two_le {g : Rep} {id other : GraphId} {len : Nat} {path ids : List GraphId}
    (h : FoundPath g id other len path ids) (hne : other ≠ id) : 2 ≤ len := by
  obtain ⟨l, rfl⟩ : ∃ l, ids = id :: l := List.head?_eq_some_iff.mp h.head
  cases l with
  | nil => exact absurd (by simpa using h.last.symm) hne
  | cons b l => simp [← h.length]

theorem backed_of_path {g : Rep} (hg : g.Clean) (hsnap : g.Snapshots) {id other : GraphId}
    {mu p : Addr} (hid : g.Live id mu) (hother : g.Live other p) (hne : other ≠ id)
    (hpriority : 2 ≤ (g.node (nodeIndex id)).priority) (hpath : ReflTransGen g.Arc id other) :
    ∃ len path ids, g.findPath id other pathSize (List.replicate pathSize 0) = some (len, path) ∧
      Backed g id other len path ids := by
  obtain ⟨len, path, ids, hfind, hfound⟩ := foundPath_of_path hg hid hother hpath
  refine ⟨len, path, ids, hfind, hfound.length, hfound.two_le hne, hfound.stored, hfound.head,
    hfound.last, hfound.chain, hfound.nodup, fun a ha => ?_, fun a ha => ?_⟩
  · obtain ⟨q, hq⟩ := hfound.live a ha
    exact ⟨q, hq, hq.ptr_eq hg.toIndexed⟩
  · obtain ⟨l, rfl⟩ : ∃ l, ids = id :: l := List.head?_eq_some_iff.mp hfound.head
    obtain ⟨q, hq⟩ := hfound.live a ha
    refine ⟨_, by simp [extraInfos, hq.findNode hg.toIndexed]; rfl, hsnap.taken _ ?_⟩
    obtain rfl | ha := List.mem_cons.mp ha
    · exact hpriority
    · obtain ⟨b, hb⟩ := exists_edge_of_mem_tail hfound.chain a ha
      exact hsnap.target _ _ hb.2.2

theorem Backed.printed {g : Rep} {id other : GraphId} {len : Nat} {path ids : List GraphId}
    (h : Backed g id other len path ids)
    (hfind : g.findPath id other pathSize (List.replicate pathSize 0) = some (len, path))
    (thread : ThreadId) (mu : Addr) : ∃ blocks, blocks.length = min len pathSize ∧
      buildDeadlockCircleLogText g thread mu id other =
        some (.deadlockCircle mu thread blocks) := by
  refine ⟨(path.take (min len pathSize)).filterMap (pathEntry g), ?_, by
    simp [buildDeadlockCircleLogText, hfind]⟩
  have hentry : ∀ a ∈ ids.take pathSize, ∃ block, pathEntry g a = some block := by
    intro a ha
    have ha' := List.mem_of_mem_take ha
    obtain ⟨p, -, hptr⟩ := h.live a ha'
    obtain ⟨infos, hinfos, -⟩ := h.infos a ha'
    exact ⟨_, by simp [pathEntry, hptr, hinfos]; rfl⟩
  rw [h.stored, List.length_filterMap_eq_countP, List.countP_eq_length.mpr, List.length_take,
    h.length, min_comm]
  intro a ha
  obtain ⟨block, hblock⟩ := hentry a ha
  simp [hblock]

/-- A refused edge is reported with a path of recorded arcs, all of whose nodes have a
snapshot. -/
theorem deadlock_report_backed {maxLocks : Nat} (hmax : maxLocks ≤ 256) {es : List Event}
    {c : Config} (hrun : exec (step maxLocks) {} es = some c) {t : ThreadId} {mu : Addr}
    {id other : GraphId} {g g' : Rep} (hroom : (c.monitor.locksHeld maxLocks t).n < maxLocks)
    (hid : c.monitor.deadlockGraph.getId maxLocks t mu = some (id, g))
    (hcheck : checkHeldLocks id (c.monitor.locksHeld maxLocks t).entries
      (g.updateStackTrace id t (c.monitor.locksHeld maxLocks t)) = some (some other, g')) :
    ∃ len path ids, g'.findPath id other pathSize (List.replicate pathSize 0) = some (len, path) ∧
      Backed g' id other len path ids ∧
      ∃ blocks, blocks.length = min len pathSize ∧
        buildDeadlockCircleLogText g' t mu id other = some (.deadlockCircle mu t blocks) := by
  have hinv := exec_inv hrun
  obtain ⟨hsnap, hpriority⟩ := hinv.lock_snapshots (exec_snapshots hmax hrun) hmax hroom hid hcheck
  have hentered := hinv.entered hid hcheck
  obtain ⟨hattempted, hpath⟩ := hentered.cycle other rfl
  obtain ⟨hne, l, hl, -⟩ := hattempted.mem
  obtain ⟨p, hother⟩ := hattempted.1
  have hn : ((core maxLocks c).held t).n ≠ 0 := by
    rw [(hinv.valid t).n_eq]
    exact (List.length_pos_of_mem hl).ne'
  obtain ⟨len, path, ids, hfind, hbacked⟩ := backed_of_path hentered.keeps.clean hsnap
    hentered.self ((hentered.live other p).mpr (Or.inl hother)) hne (hpriority hn) hpath
  exact ⟨len, path, ids, hfind, hbacked, hbacked.printed hfind t mu⟩

/-- Thread 1 takes 16 and then 32; thread 2 has taken 32 and is about to take 16. -/
def inversion : List Event :=
  [⟨1, .beforeLock 16, 1⟩, ⟨1, .inLock 0, 1⟩, ⟨1, .beforeLock 32, 1⟩, ⟨1, .inLock 0, 1⟩,
   ⟨1, .afterLock 32, 1⟩, ⟨1, .afterLock 16, 1⟩, ⟨2, .beforeLock 32, 1⟩, ⟨2, .inLock 0, 1⟩]

/-- What thread 2 has done when the edge is refused: the node, the end of the edge, its locks. -/
def refusedEdge (c : Config) : Option (GraphId × Option GraphId × Nat) := do
  let (id, g) ← c.monitor.deadlockGraph.getId 20 2 16
  let (refused, _) ← checkHeldLocks id (c.monitor.locksHeld 20 2).entries
    (g.updateStackTrace id 2 (c.monitor.locksHeld 20 2))
  return (id, refused, (c.monitor.locksHeld 20 2).n)

/-- Its edge will be refused. -/
theorem exec_inversion : ∃ c g g', exec (step 20) {} inversion = some c ∧
    c.monitor.deadlockGraph.getId 20 2 16 = some (makeId 0 1, g) ∧
    checkHeldLocks (makeId 0 1) (c.monitor.locksHeld 20 2).entries
      (g.updateStackTrace (makeId 0 1) 2 (c.monitor.locksHeld 20 2)) =
        some (some (makeId 1 1), g') ∧
    (c.monitor.locksHeld 20 2).n < 20 := by
  have hcomputed : (exec (step 20) {} inversion).bind refusedEdge =
      some (makeId 0 1, some (makeId 1 1), 1) := by decide +kernel
  obtain ⟨c, hrun, hafter⟩ := Option.bind_eq_some_iff.mp hcomputed
  simp only [refusedEdge, Option.bind_eq_bind, Option.bind_eq_some_iff, Prod.exists] at hafter
  obtain ⟨id, g, hid, refused, g', hcheck, h⟩ := hafter
  simp only [Option.pure_def, Option.some.injEq, Prod.mk.injEq] at h
  obtain ⟨rfl, rfl, hn⟩ := h
  exact ⟨c, g, g', hrun, hid, hcheck, by omega⟩

theorem deadlock_report_backed_sample : ∃ c g g', exec (step 20) {} inversion = some c ∧
    c.monitor.deadlockGraph.getId 20 2 16 = some (makeId 0 1, g) ∧
    ∃ len path ids, g'.findPath (makeId 0 1) (makeId 1 1) pathSize (List.replicate pathSize 0) =
        some (len, path) ∧
      Backed g' (makeId 0 1) (makeId 1 1) len path ids ∧
      ∃ blocks, blocks.length = min len pathSize ∧
        buildDeadlockCircleLogText g' 2 16 (makeId 0 1) (makeId 1 1) =
          some (.deadlockCircle 16 2 blocks) := by
  obtain ⟨c, g, g', hrun, hid, hcheck, hroom⟩ := exec_inversion
  exact ⟨c, g, g', hrun, hid, deadlock_report_backed (by decide) hrun hroom hid hcheck⟩

end Config
end CppGuard
